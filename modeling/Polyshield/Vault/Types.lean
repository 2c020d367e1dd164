import Polyshield.Circuits.Templates

/-!
# Vault domain types

`VaultInputs.sol`. A `bytes32` that reaches a verifier is a canonical field
element, since the verifiers refuse any other public input, so it is modelled
as an element of `F`; a real `conditionId` is a number. The `verify*` functions
assemble the public-input arrays in the order the circuits declare them.
-/

namespace Polyshield

abbrev Address := BitVec 160

inductive BetStatus where
  | active
  | filled
  | failed
  | credited
  | cancelledCredited
  | closing
  | closedCredited
  | partialFilled
  | resting
  deriving DecidableEq, Repr

structure BetRecord (F : Type*) where
  marketId : F
  conditionId : F
  positionId : F
  expectedShares : UInt64
  betAmount : UInt64
  outcomeSide : UInt8
  status : BetStatus
  sellProceeds : UInt64
  soldShares : UInt64
  filledShares : UInt64
  spentAmount : UInt64
  deriving DecidableEq

/-- The value of an entry of `betRecords` that was never written. -/
def BetRecord.unset {F : Type*} [Zero F] : BetRecord F where
  marketId := 0
  conditionId := 0
  positionId := 0
  expectedShares := 0
  betAmount := 0
  outcomeSide := 0
  status := .active
  sellProceeds := 0
  soldShares := 0
  filledShares := 0
  spentAmount := 0

structure OperatorAttestation (F : Type*) where
  nullifierOfBet : F
  reportType : UInt8
  amountA : UInt64
  amountB : UInt64
  deriving DecidableEq

def reportFilled : UInt8 := 1

def reportFailed : UInt8 := 2

def reportPartial : UInt8 := 3

def reportSold : UInt8 := 4

structure FeeConfig where
  betFeeBps : UInt16
  relayGasFeeUSDC : UInt64
  minBet : UInt64
  withdrawalFeeUSDC : UInt64
  minWithdrawal : UInt64
  feeRecipient : Address
  deriving DecidableEq

structure BetAuthPublicInputs (F : Type*) where
  merkleRoot : F
  nullifier : F
  newCommitment : F
  betAmount : UInt64
  price : UInt64
  expectedShares : UInt64
  marketId : F
  outcomeSide : UInt8
  positionId : F

structure SettlementPublicInputs (F : Type*) where
  merkleRoot : F
  nullifier : F
  newCommitment : F
  nullifierOfBet : F
  marketId : F
  totalCredit : UInt64

structure WithdrawalPublicInputs (F : Type*) where
  merkleRoot : F
  nullifier : F
  withdrawalAmount : UInt64
  recipientHash : F
  newCommitment : F

/-- `BetCancelPublicInputs`, and `ClosePublicInputs` and `PartialFillPublicInputs`
with the same fields. -/
structure BetCancelPublicInputs (F : Type*) where
  merkleRoot : F
  nullifier : F
  newCommitment : F
  nullifierOfBet : F

abbrev ClosePublicInputs := BetCancelPublicInputs

abbrev PartialFillPublicInputs := BetCancelPublicInputs

structure NACancelPublicInputs (F : Type*) where
  merkleRoot : F
  nullifier : F
  newCommitment : F
  nullifierOfBet : F
  marketId : F

/-- The slots of a consolidation are numbered from 0. -/
instance neZero_slots : NeZero 4 := ⟨by decide⟩

structure ConsolidatePublicInputs (F : Type*) where
  merkleRoot : F
  nullifier : Fin 4 → F
  newCommitment : F

/-- Balances of the token and what each account lets the Vault take. -/
structure Usdc where
  balanceOf : Address → ℕ
  allowance : Address → ℕ

/-- The two functions of the collateral token that the Vault calls, which it has not written itself:
a transfer by the account that pays, and one by the Vault. `none` is a revert. -/
structure Erc20 where
  transfer : Usdc → Address → Address → ℕ → Option Usdc
  transferFrom : Usdc → Address → Address → ℕ → Option Usdc

/-- `balanceOf` after a transfer. -/
def movedBalances (balanceOf : Address → ℕ) (src dst : Address) (amount : ℕ) : Address → ℕ :=
  let debited := Function.update balanceOf src (balanceOf src - amount)
  Function.update debited dst (debited dst + amount)

/-- The documented behaviour of an ERC-20 token: a transfer moves the amount, which the payer must
have and, for `transferFrom`, have allowed, and neither account is the zero address. -/
structure Erc20.Spec (token : Erc20) : Prop where
  transfer_moves : ∀ {t t' src dst amount}, token.transfer t src dst amount = some t' →
    dst ≠ 0 ∧ amount ≤ t.balanceOf src ∧
      t'.balanceOf = movedBalances t.balanceOf src dst amount
  transferFrom_moves : ∀ {t t' src dst amount}, token.transferFrom t src dst amount = some t' →
    dst ≠ 0 ∧ amount ≤ t.balanceOf src ∧
      t'.balanceOf = movedBalances t.balanceOf src dst amount
  transfer_succeeds : ∀ {t src dst amount}, src ≠ 0 → dst ≠ 0 → amount ≤ t.balanceOf src →
    ∃ t', token.transfer t src dst amount = some t'
  transferFrom_succeeds : ∀ {t src dst amount}, src ≠ 0 → dst ≠ 0 → amount ≤ t.balanceOf src →
    amount ≤ t.allowance src → ∃ t', token.transferFrom t src dst amount = some t'

/-- A token that refuses nothing else. -/
def plainErc20 : Erc20 where
  transfer t src dst amount :=
    if dst = 0 ∨ t.balanceOf src < amount then none
    else some { t with balanceOf := movedBalances t.balanceOf src dst amount }
  transferFrom t src dst amount :=
    if dst = 0 ∨ t.balanceOf src < amount ∨ t.allowance src < amount then none
    else some ⟨movedBalances t.balanceOf src dst amount,
      Function.update t.allowance src (t.allowance src - amount)⟩

theorem plainErc20_spec : plainErc20.Spec where
  transfer_moves := fun {t t' src dst amount} h => by
    simp only [plainErc20, Option.ite_none_left_eq_some, not_or, Nat.not_lt] at h
    obtain ⟨⟨hdst, hle⟩, h⟩ := h
    cases h
    exact ⟨hdst, hle, rfl⟩
  transferFrom_moves := fun {t t' src dst amount} h => by
    simp only [plainErc20, Option.ite_none_left_eq_some, not_or, Nat.not_lt] at h
    obtain ⟨⟨hdst, hle, -⟩, h⟩ := h
    cases h
    exact ⟨hdst, hle, rfl⟩
  transfer_succeeds := fun _ hdst hle => ⟨_, if_neg (not_or.mpr ⟨hdst, not_lt.mpr hle⟩)⟩
  transferFrom_succeeds := fun _ hdst hle hallow =>
    ⟨_, if_neg (not_or.mpr ⟨hdst, not_or.mpr ⟨not_lt.mpr hle, not_lt.mpr hallow⟩⟩)⟩

/-- What the Vault calls but does not implement: the hash and the circuits behind
the registered verifiers, signature recovery over the Vault's EIP-712 domain and
the token; and its own address. -/
structure Env (F Proof Sig : Type*) where
  circomlib : Circomlib F
  verify : ProofType → Proof → List F → Bool
  recover : OperatorAttestation F → Sig → Option Address
  token : Erc20
  vault : Address

section Inputs

variable {F Proof Sig : Type*} [Field F] (E : Env F Proof Sig)

/-- `bytes32(uint256(x))` of a `uint64`. -/
def u64 (x : UInt64) : F := (x.toNat : F)

def verifyDeposit (proof : Proof) (commitment : F) (amount : ℕ) (owner : Address) : Bool :=
  E.verify .deposit proof [commitment, (amount : F), (owner.toNat : F)]

def verifyBetAuth (proof : Proof) (i : BetAuthPublicInputs F) (fee : UInt64) : Bool :=
  E.verify .betAuth proof
    [i.merkleRoot, i.nullifier, i.newCommitment, u64 i.betAmount, u64 i.price,
      u64 i.expectedShares, i.marketId, (i.outcomeSide.toNat : F), i.positionId, u64 fee]

def verifySettlement (proof : Proof) (i : SettlementPublicInputs F) : Bool :=
  E.verify .settlementCredit proof
    [i.merkleRoot, i.nullifier, i.newCommitment, i.nullifierOfBet, i.marketId, u64 i.totalCredit]

def verifyWithdrawal (proof : Proof) (i : WithdrawalPublicInputs F) : Bool :=
  E.verify .withdrawal proof
    [i.merkleRoot, i.nullifier, u64 i.withdrawalAmount, i.recipientHash, i.newCommitment]

def verifyBetCancel (proof : Proof) (i : BetCancelPublicInputs F) (betAmount : UInt64) : Bool :=
  E.verify .betCancel proof
    [i.merkleRoot, i.nullifier, i.newCommitment, i.nullifierOfBet, u64 betAmount]

def verifyNACancel (proof : Proof) (i : NACancelPublicInputs F) (betAmount : UInt64) : Bool :=
  E.verify .cancelCredit proof
    [i.merkleRoot, i.nullifier, i.newCommitment, i.nullifierOfBet, i.marketId, u64 betAmount]

def verifyClose (proof : Proof) (i : ClosePublicInputs F) (sellProceeds : UInt64) : Bool :=
  E.verify .positionClose proof
    [i.merkleRoot, i.nullifier, i.newCommitment, i.nullifierOfBet, u64 sellProceeds]

def verifyPartialCredit (proof : Proof) (i : PartialFillPublicInputs F) (refundAmount : UInt64) :
    Bool :=
  E.verify .partialCredit proof
    [i.merkleRoot, i.nullifier, i.newCommitment, i.nullifierOfBet, u64 refundAmount]

def verifyConsolidate (proof : Proof) (i : ConsolidatePublicInputs F) : Bool :=
  E.verify .consolidate proof
    [i.merkleRoot, i.nullifier 0, i.nullifier 1, i.nullifier 2, i.nullifier 3, i.newCommitment]

end Inputs

end Polyshield

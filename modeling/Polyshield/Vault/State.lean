import Polyshield.Vault.Types

/-!
# Storage of the Vault

The state of `Vault.sol`, its commitment tree and nullifier registry, and of the
token and the conditional-token contract it reads. A call either returns the
next state or reverts; `revertIf` is `if (..) revert ..`.
-/

namespace Polyshield

inductive Revert where
  | depositCapExceeded
  | nullifierSpent
  | unknownRoot
  | invalidProof
  | betNotFound
  | wrongMarket
  | betNotFilled
  | betNotFailed
  | notNA
  | badRecipient
  | onlyOperator
  | marketAlreadyResolved
  | marketNotResolved
  | conditionNotResolved
  | betNotCancellable
  | conditionNotRegistered
  | betNotActive
  | betTimeoutNotElapsed
  | insufficientVaultLiquidity
  | insufficientLiquidity (available requested : ℕ)
  | invalidAmount
  | deployCapExceeded
  | zeroAddress
  | payoutRoundsToZero
  | betNotClosing
  | invalidSoldShares
  | nonMonotonicProceeds
  | alreadyPartiallyClosed
  | cannotCloseResolvedMarket
  | betNotPartialFilled
  | invalidFilledShares
  | invalidSpentAmount
  | emptyConsolidation
  | invalidAttestation
  | attestationMismatch
  | belowMinimum
  | notFeeRecipient
  | alreadySpent
  | treeFull
  | invalidTotalCredit
  | ppsOverflow
  | timelockTooShort
  | arithmeticPanic
  | ecdsaInvalidSignature
  | transferFailed
  | enforcedPause
  | expectedPause
  | ownableUnauthorizedAccount
  deriving DecidableEq, Repr

inductive Event (F : Type*) where
  | deposited (depositor : Address) (commitment : F) (amount : ℕ)
  | marketResolved (marketId : F) (resolvedAt : UInt64)
  | conditionRegistered (circuitKey : F) (conditionId : ℕ)
  | betAuthorized (nullifier marketId positionId : F) (expectedShares : UInt64) (betAmount : ℕ)
      (price : UInt64) (outcomeSide : UInt8) (newCommitment : F) (protocolFee relayFee : UInt64)
  | fundedPolymarketWallet (amount : ℕ)
  | polymarketReturnAcknowledged (amount vaultUsdcBalance : ℕ)
  | settlementCredited (nullifier nullifierOfBet newCommitment : F)
  | withdrawn (nullifier : F) (recipient : Address) (amount : ℕ) (newCommitment : F)
  | betCancellationCredited (nullifier nullifierOfBet newCommitment : F)
  | naCancellationCredited (nullifier nullifierOfBet newCommitment : F)
  | adminBetCancelled (nullifierOfBet : F)
  | betSold (nullifierOfBet : F) (soldShares proceeds : UInt64)
  | positionClosed (nullifier nullifierOfBet newCommitment : F) (fullClose : Bool)
  | partialFillCredited (nullifier nullifierOfBet newCommitment : F)
  | consolidated (nullifiers : Fin 4 → F) (newCommitment : F)
  | feeParamsUpdated (config : FeeConfig)
  | feesWithdrawn (recipient : Address) (amount : ℕ)
  | adminSwept (recipient : Address) (amount : ℕ)

/-- What the Vault reads of the conditional-token contract. -/
structure Ctf where
  payoutNumerators : ℕ → ℕ → ℕ
  payoutDenominator : ℕ → ℕ
  getOutcomeSlotCount : ℕ → ℕ

structure VaultState (F : Type*) where
  tree : CommitmentMerkleTree F
  /-- `NullifierRegistry.spent`. -/
  spent : F → Bool
  usdc : Usdc
  ctf : Ctf
  signingLayerOperator : Address
  depositWallet : Address
  owner : Address
  paused : Bool
  betRecords : F → BetRecord F
  cumulativeDeposits : Address → ℕ
  pendingCredit : F → UInt8 → UInt64
  marketResolvedAt : F → UInt64
  betCreatedAt : F → UInt64
  adminCancelTimelock : ℕ
  deployedToPolymarket : ℕ
  deploymentCap : ℕ
  feeConfig : FeeConfig
  feeAccumulator : ℕ
  conditionIdOf : F → ℕ
  betProtocolFee : F → UInt64
  logs : List (Event F)

/-- The sender and the block time of a call. -/
structure Msg where
  sender : Address
  timestamp : ℕ

/-! ## Reverting -/

def revertIf (c : Prop) [Decidable c] (e : Revert) : Except Revert Unit :=
  if c then .error e else .ok ()

@[simp] theorem revertIf_eq_ok {c : Prop} [Decidable c] {e : Revert} {u : Unit} :
    revertIf c e = .ok u ↔ ¬ c := by
  unfold revertIf
  split <;> simp [*]

theorem revertIf_eq_error {c : Prop} [Decidable c] {e e' : Revert} :
    revertIf c e = .error e' ↔ c ∧ e = e' := by
  unfold revertIf
  split <;> simp [*]

@[simp] theorem Except.bind_eq_ok {ε α β : Type _} {x : Except ε α} {f : α → Except ε β} {b : β} :
    (x >>= f) = .ok b ↔ ∃ a, x = .ok a ∧ f a = .ok b := by
  cases x with
  | error e => simp [bind, Except.bind]
  | ok a => simp [bind, Except.bind]

theorem Except.bind_eq_error {ε α β : Type _} {x : Except ε α} {f : α → Except ε β} {e : ε} :
    (x >>= f) = .error e ↔ x = .error e ∨ ∃ a, x = .ok a ∧ f a = .error e := by
  cases x with
  | error e => simp [bind, Except.bind]
  | ok a => simp [bind, Except.bind]

@[simp] theorem Except.pure_eq_ok {ε α : Type _} {a b : α} :
    (pure a : Except ε α) = .ok b ↔ a = b := by
  simp [pure, Except.pure]

def checkedAdd (a b : UInt64) : Except Revert UInt64 :=
  if a.toNat + b.toNat < 2 ^ 64 then .ok (a + b) else .error .arithmeticPanic

def checkedSub (a b : UInt64) : Except Revert UInt64 :=
  if b.toNat ≤ a.toNat then .ok (a - b) else .error .arithmeticPanic

def checkedAdd256 (a b : ℕ) : Except Revert ℕ :=
  if a + b < 2 ^ 256 then .ok (a + b) else .error .arithmeticPanic

def checkedSub256 (a b : ℕ) : Except Revert ℕ :=
  if b ≤ a then .ok (a - b) else .error .arithmeticPanic

theorem checkedAdd_ok {a b c : UInt64} (h : checkedAdd a b = .ok c) :
    c.toNat = a.toNat + b.toNat := by
  unfold checkedAdd at h
  split at h
  · cases h
    rw [UInt64.toNat_add, Nat.mod_eq_of_lt ‹_›]
  · cases h

theorem checkedSub_ok {a b c : UInt64} (h : checkedSub a b = .ok c) :
    c.toNat + b.toNat = a.toNat := by
  unfold checkedSub at h
  split at h
  · cases h
    rw [UInt64.toNat_sub_of_le _ _ (UInt64.le_iff_toNat_le.mpr ‹_›)]
    omega
  · cases h

theorem checkedAdd256_ok {a b c : ℕ} (h : checkedAdd256 a b = .ok c) : c = a + b := by
  unfold checkedAdd256 at h
  split at h <;> cases h
  rfl

theorem checkedSub256_ok {a b c : ℕ} (h : checkedSub256 a b = .ok c) : c + b = a := by
  unfold checkedSub256 at h
  split at h
  · cases h; omega
  · cases h

/-! ## The token -/

section

variable {F Proof Sig : Type*} (E : Env F Proof Sig)

/-- `safeTransfer` of the token from `src`, the account that calls it. -/
def safeTransfer (t : Usdc) (src dst : Address) (amount : ℕ) : Except Revert Usdc :=
  match E.token.transfer t src dst amount with
  | some t' => .ok t'
  | none => .error .transferFailed

def safeTransferFrom (t : Usdc) (src dst : Address) (amount : ℕ) : Except Revert Usdc :=
  match E.token.transferFrom t src dst amount with
  | some t' => .ok t'
  | none => .error .transferFailed

variable {E} {t t' : Usdc} {src dst : Address} {amount : ℕ}

@[simp] theorem safeTransfer_eq_ok :
    safeTransfer E t src dst amount = .ok t' ↔ E.token.transfer t src dst amount = some t' := by
  unfold safeTransfer
  split <;> simp [*]

@[simp] theorem safeTransferFrom_eq_ok : safeTransferFrom E t src dst amount = .ok t' ↔
    E.token.transferFrom t src dst amount = some t' := by
  unfold safeTransferFrom
  split <;> simp [*]

end

/-! ## The nullifier registry -/

section

variable {F : Type*} [DecidableEq F]

def markSpent (spent : F → Bool) (nullifier : F) : Except Revert (F → Bool) :=
  if spent nullifier then .error .alreadySpent else .ok (Function.update spent nullifier true)

theorem markSpent_ok {spent spent' : F → Bool} {nullifier : F}
    (h : markSpent spent nullifier = .ok spent') :
    spent nullifier = false ∧ spent' = Function.update spent nullifier true := by
  unfold markSpent at h
  split at h
  · cases h
  · rename_i hs
    cases h
    exact ⟨by simpa using hs, rfl⟩

end

namespace VaultState

variable {F : Type*}

def emit (s : VaultState F) (e : Event F) : VaultState F := { s with logs := s.logs ++ [e] }

section

variable [DecidableEq F]

def setRecord (s : VaultState F) (nullifier : F) (record : BetRecord F) : VaultState F :=
  { s with betRecords := Function.update s.betRecords nullifier record }

def setProtocolFee (s : VaultState F) (nullifier : F) (fee : UInt64) : VaultState F :=
  { s with betProtocolFee := Function.update s.betProtocolFee nullifier fee }

end

end VaultState

end Polyshield

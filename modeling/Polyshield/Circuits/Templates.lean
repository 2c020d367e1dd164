import Polyshield.Circuits.Checks

/-!
# The circuits

The nine Groth16 circuits as constraints between their public inputs, in the
order of each circuit's `public` list, and a witness of their private inputs.
The five circuits that credit a bet have the same constraints
(`CreditTemplate`); `market_id` and `position_id` are public but unconstrained.
-/

namespace Polyshield

variable {F : Type*} [Field F]

/-- Private inputs every spending circuit has: the note that is spent and its path. -/
structure NoteSignals (F : Type*) where
  secret : F
  balance : F
  nonce : F
  merklePath : List F
  merklePathIndices : List F
  ownerAddress : F

section

variable (C : Circomlib F)

/-- The note is in range and in the tree at `merkleRoot`, and `nullifier` is its own. -/
structure SpendsNote (w : NoteSignals F) (merkleRoot nullifier : F) : Prop where
  balanceBits : AssertBits C 64 w.balance
  nonceBits : AssertBits C 64 w.nonce
  merkle : PoseidonMerklePath C.poseidon2 treeDepth
    (NoteCommitment C w.secret w.balance w.nonce w.ownerAddress)
    w.merklePath w.merklePathIndices merkleRoot
  spent : NullifierHash C w.secret w.nonce = nullifier

/-- `newCommitment` is the same lineage's next note, with balance `newBalance`. -/
structure Recommits (w : NoteSignals F) (newBalance newCommitment : F) : Prop where
  newBalanceBits : AssertBits C 64 newBalance
  nextNonce : IncrementU64 C w.nonce (w.nonce + 1)
  nextCommitment :
    NoteCommitment C w.secret newBalance (w.nonce + 1) w.ownerAddress = newCommitment

def Deposit (commitment amount ownerAddress : F) : Prop :=
  ∃ secret, AssertBits C 64 amount ∧ NoteCommitment C secret amount 0 ownerAddress = commitment

structure BetAuthConstraints (w : NoteSignals F) (shareRemainder : F)
    (merkleRoot nullifier newCommitment betAmount price expectedShares outcomeSide fee : F) :
    Prop where
  spends : SpendsNote C w merkleRoot nullifier
  betAmountBits : AssertBits C 64 betAmount
  feeBits : AssertBits C 64 fee
  priceBits : AssertBits C 64 price
  expectedSharesBits : AssertBits C 64 expectedShares
  remainderBits : AssertBits C 64 shareRemainder
  outcomeSideBits : AssertBits C 8 outcomeSide
  balanceCheck : AssertNotLessThan C 64 w.balance betAmount
  remainderCheck : AssertLessThan C 64 shareRemainder price
  priceNZ : AssertLessThan C 64 0 price
  shares : expectedShares * price + shareRemainder = betAmount * (pricePrecision : F)
  recommits : Recommits C w (w.balance - betAmount - fee) newCommitment

def BetAuth (merkleRoot nullifier newCommitment betAmount price expectedShares _marketId
    outcomeSide _positionId fee : F) : Prop :=
  ∃ w shareRemainder, BetAuthConstraints C w shareRemainder merkleRoot nullifier newCommitment
    betAmount price expectedShares outcomeSide fee

/-- The constraints of a circuit that adds `amount` to the current note for the
bet placed from an earlier note of the same lineage. -/
structure CreditConstraints (w : NoteSignals F) (betNonce : F)
    (merkleRoot nullifier newCommitment nullifierOfBet amount : F) : Prop where
  spends : SpendsNote C w merkleRoot nullifier
  amountBits : AssertBits C 64 amount
  recommits : Recommits C w (w.balance + amount) newCommitment
  betNonceBits : AssertBits C 64 betNonce
  betBeforeCurrent : AssertLessThan C 64 betNonce w.nonce
  preBetNullifier : NullifierHash C w.secret betNonce = nullifierOfBet

def CreditTemplate (merkleRoot nullifier newCommitment nullifierOfBet amount : F) : Prop :=
  ∃ w betNonce,
    CreditConstraints C w betNonce merkleRoot nullifier newCommitment nullifierOfBet amount

def SettlementCredit (merkleRoot nullifier newCommitment nullifierOfBet _marketId totalCredit : F) :
    Prop :=
  CreditTemplate C merkleRoot nullifier newCommitment nullifierOfBet totalCredit

def BetCancel (merkleRoot nullifier newCommitment nullifierOfBet betAmount : F) : Prop :=
  CreditTemplate C merkleRoot nullifier newCommitment nullifierOfBet betAmount

def CancelCredit (merkleRoot nullifier newCommitment nullifierOfBet _marketId betAmount : F) :
    Prop :=
  CreditTemplate C merkleRoot nullifier newCommitment nullifierOfBet betAmount

def PositionClose (merkleRoot nullifier newCommitment nullifierOfBet sellProceeds : F) : Prop :=
  CreditTemplate C merkleRoot nullifier newCommitment nullifierOfBet sellProceeds

def PartialCredit (merkleRoot nullifier newCommitment nullifierOfBet refundAmount : F) : Prop :=
  CreditTemplate C merkleRoot nullifier newCommitment nullifierOfBet refundAmount

structure WithdrawalConstraints (w : NoteSignals F) (recipientAddress isPartial : F)
    (merkleRoot nullifier withdrawalAmount recipientHash newCommitment : F) : Prop where
  spends : SpendsNote C w merkleRoot nullifier
  withdrawalBits : AssertBits C 64 withdrawalAmount
  amountCheck : AssertNotLessThan C 64 w.balance withdrawalAmount
  recipient : RecipientHash C recipientAddress = recipientHash
  owner : recipientAddress = w.ownerAddress
  isPartial_lt : C.lessThan 64 withdrawalAmount w.balance isPartial
  isPartial_bool : AssertBool isPartial
  nextNonce : IncrementU64 C w.nonce (w.nonce + 1)
  expected : isPartial
      * NoteCommitment C w.secret (w.balance - withdrawalAmount) (w.nonce + 1) w.ownerAddress
    = newCommitment

def Withdrawal (merkleRoot nullifier withdrawalAmount recipientHash newCommitment : F) : Prop :=
  ∃ w recipientAddress isPartial, WithdrawalConstraints C w recipientAddress isPartial merkleRoot
    nullifier withdrawalAmount recipientHash newCommitment

/-- Private inputs of one slot of `Consolidate`; the owner is shared. -/
structure SlotSignals (F : Type*) where
  secret : F
  balance : F
  nonce : F
  merklePath : List F
  merklePathIndices : List F
  isActive : F

/-- The constraints of one slot; `root` is the signal `mp[j].root`. -/
structure SlotConstraints (ownerAddress merkleRoot : F) (s : SlotSignals F) (nullifier root : F) :
    Prop where
  isActive_bool : AssertBool s.isActive
  balBits : AssertBits C 64 s.balance
  nonceBits : AssertBits C 64 s.nonce
  merkle : PoseidonMerklePath C.poseidon2 treeDepth
    (NoteCommitment C s.secret s.balance s.nonce ownerAddress)
    s.merklePath s.merklePathIndices root
  rootGate : s.isActive * (root - merkleRoot) = 0
  nullifierGate : nullifier = s.isActive * NullifierHash C s.secret s.nonce

/-- `eff[j]`. -/
def SlotSignals.eff (s : SlotSignals F) : F := s.isActive * s.balance

structure ConsolidateConstraints (slot : Fin 4 → SlotSignals F) (root : Fin 4 → F)
    (ownerAddress merkleRoot : F) (nullifier : Fin 4 → F) (newCommitment : F) : Prop where
  slots : ∀ j, SlotConstraints C ownerAddress merkleRoot (slot j) (nullifier j) (root j)
  slot0 : (slot 0).isActive = 1
  sumBits : AssertBits C 64 (((slot 0).eff + (slot 1).eff) + (slot 2).eff + (slot 3).eff)
  nextNonce : IncrementU64 C (slot 0).nonce ((slot 0).nonce + 1)
  outCommitment : NoteCommitment C (slot 0).secret
      (((slot 0).eff + (slot 1).eff) + (slot 2).eff + (slot 3).eff) ((slot 0).nonce + 1)
      ownerAddress = newCommitment

def Consolidate (merkleRoot : F) (nullifier : Fin 4 → F) (newCommitment : F) : Prop :=
  ∃ slot root ownerAddress,
    ConsolidateConstraints C slot root ownerAddress merkleRoot nullifier newCommitment

end

/-- Index of a circuit in the Vault's `verifiers` mapping, `BET_AUTH = 0` to `CONSOLIDATE = 8`. -/
inductive ProofType where
  | betAuth
  | settlementCredit
  | withdrawal
  | betCancel
  | cancelCredit
  | deposit
  | positionClose
  | partialCredit
  | consolidate
  deriving DecidableEq, Repr

/-- The circuit of a proof type has a witness for a public-input array. -/
def HasWitness (C : Circomlib F) : ProofType → List F → Prop
  | .betAuth, [root, nul, new, amt, price, shares, market, side, pos, fee] =>
    BetAuth C root nul new amt price shares market side pos fee
  | .settlementCredit, [root, nul, new, bet, market, credit] =>
    SettlementCredit C root nul new bet market credit
  | .withdrawal, [root, nul, amt, recipient, new] => Withdrawal C root nul amt recipient new
  | .betCancel, [root, nul, new, bet, amt] => BetCancel C root nul new bet amt
  | .cancelCredit, [root, nul, new, bet, market, amt] => CancelCredit C root nul new bet market amt
  | .deposit, [commitment, amt, owner] => Deposit C commitment amt owner
  | .positionClose, [root, nul, new, bet, amt] => PositionClose C root nul new bet amt
  | .partialCredit, [root, nul, new, bet, amt] => PartialCredit C root nul new bet amt
  | .consolidate, [root, n0, n1, n2, n3, new] => Consolidate C root ![n0, n1, n2, n3] new
  | _, _ => False

end Polyshield

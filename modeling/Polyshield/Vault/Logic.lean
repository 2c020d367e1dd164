import Polyshield.Vault.State

/-!
# The spend-path bodies

`VaultLogic.sol`. Every function takes the Vault's storage and returns it
changed, or reverts. `requireOutcome` is the guard three of the bodies repeat: a
status the record has already reached, or an attestation of an `ACTIVE` record.
-/

namespace Polyshield

variable {F Proof Sig : Type} [Field F] [DecidableEq F] (E : Env F Proof Sig)

/-- `_circuitKey` of a real condition id; on a field element it is the identity. -/
def circuitKey (conditionId : ℕ) : F := ((conditionId % bn254P : ℕ) : F)

def insertLeaf (s : VaultState F) (commitment : F) : Except Revert (VaultState F) :=
  match s.tree.insert E.circomlib.poseidon2 rootWindow commitment with
  | .error .treeFull => .error .treeFull
  | .ok (_, tree) => .ok { s with tree := tree }

def requireUnspentKnownRoot (s : VaultState F) (nullifier root : F) : Except Revert Unit := do
  revertIf (s.spent nullifier = true) .nullifierSpent
  revertIf (s.tree.isKnownRoot root = false) .unknownRoot

def spendNullifier (s : VaultState F) (nullifier : F) : Except Revert (VaultState F) := do
  let spent ← markSpent s.spent nullifier
  return { s with spent := spent }

def spendAndInsert (s : VaultState F) (nullifier commitment : F) :
    Except Revert (VaultState F) := do
  let s ← spendNullifier s nullifier
  if commitment = 0 then .ok s else insertLeaf E s commitment

def checkAttestation (s : VaultState F) (att : OperatorAttestation F) (sig : Sig) (nob : F)
    (primaryType altType : UInt8) : Except Revert Unit := do
  revertIf (att.nullifierOfBet ≠ nob) .attestationMismatch
  revertIf (att.reportType ≠ primaryType ∧ att.reportType ≠ altType) .attestationMismatch
  match E.recover att sig with
  | none => .error .ecdsaInvalidSignature
  | some signer => revertIf (signer ≠ s.signingLayerOperator) .invalidAttestation

/-- The record may be credited: it has one of the statuses `settled`, or it is
`ACTIVE` and the attestation reports one of the two types. -/
def requireOutcome (s : VaultState F) (record : BetRecord F) (settled : List BetStatus) (e : Revert)
    (att : OperatorAttestation F) (sig : Sig) (nob : F) (primaryType altType : UInt8) :
    Except Revert Unit :=
  if record.status ∈ settled then .ok ()
  else do
    revertIf (record.status ≠ .active) e
    checkAttestation E s att sig nob primaryType altType

namespace VaultLogic

def creditSettlement (s : VaultState F) (proof : Proof) (inputs : SettlementPublicInputs F)
    (att : OperatorAttestation F) (sig : Sig) : Except Revert (VaultState F) := do
  requireUnspentKnownRoot s inputs.nullifier inputs.merkleRoot
  let record := s.betRecords inputs.nullifierOfBet
  revertIf (record.marketId = 0) .betNotFound
  revertIf (record.marketId ≠ inputs.marketId) .wrongMarket
  requireOutcome E s record [.filled] .betNotFilled att sig inputs.nullifierOfBet
    reportFilled reportFilled
  revertIf (s.marketResolvedAt inputs.marketId = 0) .marketNotResolved
  let payoutPerShare := s.pendingCredit inputs.marketId record.outcomeSide
  let sharesHeld ← checkedSub record.expectedShares record.soldShares
  revertIf (sharesHeld.toNat * payoutPerShare.toNat ≠ inputs.totalCredit.toNat) .invalidTotalCredit
  revertIf (verifySettlement E proof inputs = false) .invalidProof
  let s ← spendAndInsert E s inputs.nullifier inputs.newCommitment
  let s := s.setRecord inputs.nullifierOfBet { record with status := .credited }
  return s.emit (.settlementCredited inputs.nullifier inputs.nullifierOfBet inputs.newCommitment)

def betCancellationCredit (s : VaultState F) (proof : Proof) (inputs : BetCancelPublicInputs F)
    (att : OperatorAttestation F) (sig : Sig) : Except Revert (VaultState F) := do
  requireUnspentKnownRoot s inputs.nullifier inputs.merkleRoot
  let record := s.betRecords inputs.nullifierOfBet
  revertIf (record.marketId = 0) .betNotFound
  requireOutcome E s record [.failed] .betNotFailed att sig inputs.nullifierOfBet
    reportFailed reportFailed
  let refundAmount ← checkedAdd record.betAmount (s.betProtocolFee inputs.nullifierOfBet)
  revertIf (verifyBetCancel E proof inputs refundAmount = false) .invalidProof
  let s ← spendAndInsert E s inputs.nullifier inputs.newCommitment
  let s := s.setRecord inputs.nullifierOfBet { record with status := .cancelledCredited }
  let s := s.setProtocolFee inputs.nullifierOfBet 0
  return s.emit
    (.betCancellationCredited inputs.nullifier inputs.nullifierOfBet inputs.newCommitment)

def naCancellationCredit (s : VaultState F) (proof : Proof) (inputs : NACancelPublicInputs F)
    (att : OperatorAttestation F) (sig : Sig) : Except Revert (VaultState F) := do
  requireUnspentKnownRoot s inputs.nullifier inputs.merkleRoot
  let record := s.betRecords inputs.nullifierOfBet
  revertIf (record.marketId = 0) .betNotFound
  revertIf (record.marketId ≠ inputs.marketId) .wrongMarket
  requireOutcome E s record [.filled, .failed] .betNotCancellable att sig inputs.nullifierOfBet
    reportFilled reportFailed
  revertIf (0 < record.soldShares) .alreadyPartiallyClosed
  let realConditionId := s.conditionIdOf inputs.marketId
  revertIf (realConditionId = 0) .conditionNotRegistered
  revertIf (s.ctf.payoutDenominator realConditionId = 0) .conditionNotResolved
  let slotCount := s.ctf.getOutcomeSlotCount realConditionId
  revertIf (∃ i < slotCount, s.ctf.payoutNumerators realConditionId i ≠ 0) .notNA
  revertIf (verifyNACancel E proof inputs record.betAmount = false) .invalidProof
  let s ← spendAndInsert E s inputs.nullifier inputs.newCommitment
  let s := s.setRecord inputs.nullifierOfBet { record with status := .cancelledCredited }
  return s.emit
    (.naCancellationCredited inputs.nullifier inputs.nullifierOfBet inputs.newCommitment)

/-- It returns `fullClose` with the state. -/
def closePosition (s : VaultState F) (proof : Proof) (inputs : ClosePublicInputs F)
    (att : OperatorAttestation F) (sig : Sig) : Except Revert (Bool × VaultState F) := do
  requireUnspentKnownRoot s inputs.nullifier inputs.merkleRoot
  let record := s.betRecords inputs.nullifierOfBet
  revertIf (record.marketId = 0) .betNotFound
  revertIf (record.status ≠ .active ∧ record.status ≠ .filled) .betNotClosing
  checkAttestation E s att sig inputs.nullifierOfBet reportSold reportSold
  revertIf (att.amountA ≤ record.soldShares ∨ record.expectedShares < att.amountA)
    .invalidSoldShares
  revertIf (att.amountB < record.sellProceeds) .nonMonotonicProceeds
  revertIf (s.marketResolvedAt record.marketId ≠ 0) .cannotCloseResolvedMarket
  let credit ← checkedSub att.amountB record.sellProceeds
  revertIf (verifyClose E proof inputs credit = false) .invalidProof
  let s ← spendAndInsert E s inputs.nullifier inputs.newCommitment
  let deltaSold ← checkedSub att.amountA record.soldShares
  let fullClose := decide (att.amountA = record.expectedShares)
  let s := s.setRecord inputs.nullifierOfBet
    { record with
      soldShares := att.amountA
      sellProceeds := att.amountB
      status := if fullClose then .closedCredited else .filled }
  let s := s.emit (.betSold inputs.nullifierOfBet deltaSold credit)
  return (fullClose, s.emit
    (.positionClosed inputs.nullifier inputs.nullifierOfBet inputs.newCommitment fullClose))

/-- It returns `protocolEarned` with the state. -/
def partialFillCredit (s : VaultState F) (proof : Proof) (inputs : PartialFillPublicInputs F)
    (att : OperatorAttestation F) (sig : Sig) : Except Revert (UInt64 × VaultState F) := do
  requireUnspentKnownRoot s inputs.nullifier inputs.merkleRoot
  let record := s.betRecords inputs.nullifierOfBet
  revertIf (record.marketId = 0) .betNotFound
  revertIf (record.status ≠ .active) .betNotPartialFilled
  checkAttestation E s att sig inputs.nullifierOfBet reportPartial reportPartial
  let filledShares := att.amountA
  let spentAmount := att.amountB
  revertIf (filledShares = 0 ∨ record.expectedShares ≤ filledShares) .invalidFilledShares
  revertIf (spentAmount = 0 ∨ record.betAmount < spentAmount) .invalidSpentAmount
  let pf := s.betProtocolFee inputs.nullifierOfBet
  let unexecuted ← checkedSub record.betAmount spentAmount
  let refundedPf := UInt64.ofNat (pf.toNat * unexecuted.toNat / record.betAmount.toNat)
  let refundAmount ← checkedAdd unexecuted refundedPf
  let protocolEarned ← checkedSub pf refundedPf
  revertIf (verifyPartialCredit E proof inputs refundAmount = false) .invalidProof
  let s ← spendAndInsert E s inputs.nullifier inputs.newCommitment
  let s := s.setProtocolFee inputs.nullifierOfBet 0
  let s := s.setRecord inputs.nullifierOfBet
    { record with
      expectedShares := filledShares
      betAmount := spentAmount
      status := .filled
      filledShares := 0
      spentAmount := 0 }
  return (protocolEarned, s.emit
    (.partialFillCredited inputs.nullifier inputs.nullifierOfBet inputs.newCommitment))

/-- The second loop of `consolidate`: every published nullifier is spent, none is skipped as
a duplicate. -/
def spendSlots (nullifier : Fin 4 → F) : List (Fin 4) → VaultState F → Except Revert (VaultState F)
  | [], s => .ok s
  | j :: js, s => do
    let s ← if nullifier j = 0 then .ok s else spendNullifier s (nullifier j)
    spendSlots nullifier js s

def consolidate (s : VaultState F) (proof : Proof) (inputs : ConsolidatePublicInputs F) :
    Except Revert (VaultState F) := do
  revertIf (s.tree.isKnownRoot inputs.merkleRoot = false) .unknownRoot
  revertIf (inputs.nullifier 0 = 0) .emptyConsolidation
  revertIf (∃ j, inputs.nullifier j ≠ 0 ∧ s.spent (inputs.nullifier j) = true) .nullifierSpent
  revertIf (verifyConsolidate E proof inputs = false) .invalidProof
  let s ← spendSlots inputs.nullifier [0, 1, 2, 3] s
  let s ← insertLeaf E s inputs.newCommitment
  return s.emit (.consolidated inputs.nullifier inputs.newCommitment)

end VaultLogic

end Polyshield

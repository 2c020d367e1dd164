import Polyshield.Signing.State

/-!
# The attestation store

`attestationStore.ts` and `terminalAttestation.ts`. `signAndStoreAttestation`
reads the slot, awaits the signature and inserts the row unless one with its
`(nullifier, reportType)` is there: the state between the read and the insertion
is a `signing` task.
-/

namespace Polyshield.Signing

/-- `DUST`: 0.01 share. -/
def dust : ℕ := 10000

/-- The part of a bet or a close that classifies its fill. -/
structure TerminalBet where
  nullifier : Hex32
  expectedShares : ℕ
  betAmount : ℕ
  side : Side

/-- The shares a SOLD attestation reports for a fill. -/
def soldShares (expectedShares filledShares : ℕ) : ℕ :=
  if expectedShares ≤ filledShares + dust then expectedShares else filledShares

/-- The outcome attestation of a BUY with this fill. -/
def outcomeInput (bet : TerminalBet) (filledShares spentAmount : ℕ) : AttestationInput :=
  if filledShares = 0 then ⟨bet.nullifier, .failed, 0, 0⟩
  else if bet.expectedShares ≤ filledShares + dust then ⟨bet.nullifier, .filled, 0, 0⟩
  else ⟨bet.nullifier, .partialFill, filledShares, min spentAmount bet.betAmount⟩

def readTypedRow (rows : List Attestation) (nullifierOfBet : Hex32) (reportType : ReportType) :
    Option Attestation :=
  rows.find? fun row => row.nullifierOfBet = nullifierOfBet ∧ row.reportType = reportType

def readOutcomeRow (rows : List Attestation) (nullifierOfBet : Hex32) : Option Attestation :=
  rows.find? fun row => row.nullifierOfBet = nullifierOfBet ∧ row.reportType.isBetOutcome

/-- `getAttestation`: the slot of a report type, or else the bet's outcome. -/
def getAttestation (rows : List Attestation) (nullifierOfBet : Hex32) :
    Option ReportType → Option Attestation
  | some reportType => readTypedRow rows nullifierOfBet reportType
  | none => readOutcomeRow rows nullifierOfBet

/-- The row that makes `signAndStoreAttestation` return without signing. -/
def existing (rows : List Attestation) (input : AttestationInput) : Option Attestation :=
  if input.reportType.isBetOutcome then readOutcomeRow rows input.nullifierOfBet
  else readTypedRow rows input.nullifierOfBet input.reportType

/-- The insertion, which does nothing on a conflict. -/
def insertRow (rows : List Attestation) (input : AttestationInput) (signature : String) :
    List Attestation :=
  if (readTypedRow rows input.nullifierOfBet input.reportType).isSome then rows
  else rows ++ [{ input with signature }]

namespace SigningLayer

def spawn (s : SigningLayer) (t : Task) : SigningLayer := { s with tasks := s.tasks ++ [t] }

def setListener (s : SigningLayer) (l : Listener) : SigningLayer := { s with listener := l }

/-- `signAndStoreAttestation` up to its await. -/
def signAndStoreAttestation (s : SigningLayer) (input : AttestationInput)
    (after : AfterAttest) : SigningLayer :=
  if (existing s.attestations input).isSome then s.spawn (.attested after)
  else s.spawn (.signing input after)

/-- `signAndStoreAttestation` once the wallet has signed. -/
def insertAttestation (s : SigningLayer) (input : AttestationInput) (signature : String) :
    SigningLayer :=
  { s with attestations := insertRow s.attestations input signature }

def attestFailedFor (s : SigningLayer) (nullifier : Hex32) (after : AfterAttest) : SigningLayer :=
  s.signAndStoreAttestation ⟨nullifier, .failed, 0, 0⟩ after

def attestTerminal (s : SigningLayer) (bet : TerminalBet) (filledShares spentAmount : ℕ)
    (after : AfterAttest) : SigningLayer :=
  match bet.side with
  | .sell =>
    -- An unfilled close leaves the position as it is.
    if filledShares = 0 then s.spawn (.attested after)
    else
      s.signAndStoreAttestation
        ⟨bet.nullifier, .sold, soldShares bet.expectedShares filledShares, spentAmount⟩ after
  | .buy => s.signAndStoreAttestation (outcomeInput bet filledShares spentAmount) after

/-- A call of the store is a new task, whether it signs or not. -/
theorem signAndStoreAttestation_eq (s : SigningLayer) (input : AttestationInput)
    (after : AfterAttest) :
    s.signAndStoreAttestation input after
      = s.spawn (if (existing s.attestations input).isSome then .attested after
          else .signing input after) := by
  unfold signAndStoreAttestation
  split <;> rfl

def getMarketSubmission (s : SigningLayer) (nullifier : Hex32) : Option MarketSubmission :=
  s.marketSubmissions.find? fun row => row.nullifier = nullifier

def markMarketSubmitting (s : SigningLayer) (nullifier : Hex32) (conditionId : ℕ) : SigningLayer :=
  if (s.getMarketSubmission nullifier).isSome then s
  else
    { s with
      marketSubmissions := s.marketSubmissions ++ [⟨nullifier, conditionId, none, s.now / 1000⟩] }

def setMarketOrderId (s : SigningLayer) (nullifier : Hex32) (orderId : OrderId) : SigningLayer :=
  { s with
    marketSubmissions := s.marketSubmissions.map fun row =>
      if row.nullifier = nullifier then { row with orderId := some orderId } else row }

end SigningLayer

end Polyshield.Signing

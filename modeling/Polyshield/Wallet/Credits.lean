import Polyshield.Vault.Credits
import Polyshield.Wallet.Deposits

/-!
# The credits the app submits

`settlePosition.ts`, `finalizeClose.ts`, `finalizePartial.ts`,
`cancelAndReclaim.ts` and the settlement status of `accountState.ts`, up to the
submission. A read of the chain or of the operator that throws answers `none`.
The prover is a parameter, and so is `keccak256`.
-/

namespace Polyshield.Wallet

structure SignedAttestation (F Sig : Type) where
  att : OperatorAttestation F
  signature : Sig

structure MerkleProof (F : Type) where
  path : List F
  pathIndices : List Bool
  root : F

/-- What the app reads. `attestation` is `null` when there is none and when the request fails; its
second argument is the `reportType` that is asked for. -/
structure Reads (F Sig : Type) where
  betRecord : F → Option (BetRecord F)
  betProtocolFee : F → Option UInt64
  pendingCredit : F → UInt8 → Option UInt64
  marketResolvedAt : F → Option UInt64
  attestation : F → Option UInt8 → Option (SignedAttestation F Sig)
  merklePath : NoteId F → Option (MerkleProof F)

/-- The inputs of a proof of a credit; a settlement has a market too. -/
structure CreditWitness (F : Type) where
  type : ProofType
  secret : F
  balance : ℤ
  nonce : ℕ
  betNonce : ℕ
  merkle : MerkleProof F
  ownerAddress : Address
  nullifier : F
  newCommitment : F
  nullifierOfBet : F
  marketId : Option F
  credit : ℤ

def CreditWitness.publicInputs {F : Type} [Field F] (w : CreditWitness F) : List F :=
  [w.merkle.root, w.nullifier, w.newCommitment, w.nullifierOfBet] ++ w.marketId.toList
    ++ [(w.credit : F)]

structure Session (F Proof Sig : Type) where
  address : Address
  cache : List (Note F)
  /-- `getNoteSecret`. -/
  noteSecret : ℕ → DerivationVersion → F
  reads : Reads F Sig
  /-- `generateProofInWorker`. -/
  prove : CreditWitness F → Option Proof
  /-- What the relay passes on when there is no attestation. -/
  noAttestation : SignedAttestation F Sig

structure Submission (F Proof Sig : Type) where
  call : CreditCall F Sig
  proof : Proof
  note : Note F
  secret : F
  newBalance : ℤ
  /-- The receipt is marked spent once the call is confirmed. -/
  retires : Bool

inductive IdleReason where
  | noFreeNote
  | noAttestation
  | notOpen
  | threw
  deriving DecidableEq

inductive CreditOutcome (F Proof Sig : Type) where
  /-- The receipt is marked spent and nothing is submitted. -/
  | retire
  | idle (reason : IdleReason)
  | submit (s : Submission F Proof Sig)

variable {F Proof Sig : Type}

/-- The note of the lineage with the highest nonce. -/
def getFreeNoteForDeposit (cache : List (Note F)) (wallet : Address) (depositIndex : ℕ) :
    Option (Note F) :=
  (((getFreeNotes cache wallet).filter fun n => n.depositIndex = depositIndex).mergeSort
    fun a b => b.nonce ≤ a.nonce).head?

/-- A number as the `uint64` argument of a call; a larger one is refused. -/
def uint64? (n : ℕ) : Option UInt64 :=
  if n < 2 ^ 64 then some (UInt64.ofNat n) else none

variable [Field F] [DecidableEq F] (C : Circomlib F) (keccak : String → ℕ)

def receiptCircuitKey (receipt : Note F) : Option F :=
  match receipt.rawConditionId with
  | some raw => some (circuitKey raw)
  | none =>
    match receipt.marketId with
    | some (.slug label) =>
      if label = "" then receipt.conditionId else some (circuitKey (keccak label))
    | _ => receipt.conditionId

/-- The side of a receipt; one without a side counts as `YES`. -/
def outcomeSideOf (receipt : Note F) : UInt8 := if receipt.side = some .no then 1 else 0

/-! ## The settlement status -/

inductive SettlementStatus where
  | ready (payoutPerShare claimAmount : ℕ)
  | lost
  | pending
  | unfilledResolved
  deriving DecidableEq

/-- A read that throws counts as not filled. -/
def betDidFill (r : Reads F Sig) (nullifierOfBet : F) : Bool :=
  match r.betRecord nullifierOfBet with
  | none => false
  | some record =>
    decide (record.status = .filled)
      || (r.attestation nullifierOfBet none).any fun a => a.att.reportType = reportFilled

def checkSettlementStatus (r : Reads F Sig) (receipt : Note F) : SettlementStatus :=
  if receipt.expectedShares.getD 0 = 0 then .pending
  else
    match receiptCircuitKey keccak receipt with
    | none => .pending
    | some key =>
      if !betDidFill r receipt.bet then
        match r.marketResolvedAt key with
        | some at' => if 0 < at'.toNat then .unfilledResolved else .pending
        | none => .pending
      else
        match r.betRecord receipt.bet with
        | none => .pending
        | some record =>
          if record.status ≠ .filled ∧ record.status ≠ .partialFilled ∧ record.status ≠ .active then
            .pending
          else
            let remaining := record.expectedShares.toNat - record.soldShares.toNat
            if remaining = 0 then .pending
            else
              match r.pendingCredit key (outcomeSideOf receipt) with
              | none => .pending
              | some payoutPerShare =>
                if 0 < payoutPerShare.toNat then
                  .ready payoutPerShare.toNat (remaining * payoutPerShare.toNat)
                else
                  match r.marketResolvedAt key with
                  | some at' => if 0 < at'.toNat then .lost else .pending
                  | none => .pending

structure ReadyToSettleBet (F : Type) where
  receipt : Note F
  payoutPerShare : ℕ
  claimAmount : ℕ

/-- A bet as it is settled: with its payout, or with a claim of zero when it is lost. -/
def readyToSettle (r : Reads F Sig) (receipt : Note F) : Option (ReadyToSettleBet F) :=
  match checkSettlementStatus keccak r receipt with
  | .ready payoutPerShare claimAmount => some ⟨receipt, payoutPerShare, claimAmount⟩
  | .lost => some ⟨receipt, 0, 0⟩
  | _ => none

/-! ## The four flows -/

/-- What a proof continues a note with. -/
structure Prepared (F Proof : Type) where
  secret : F
  merkle : MerkleProof F
  newBalance : ℤ
  newCommitment : F
  proof : Proof

/-- The proof that adds a credit to a note; the lineage of the bet is the note's. -/
def prepareCredit (ses : Session F Proof Sig) (type : ProofType) (note receipt : Note F)
    (marketId : Option F) (credit : ℤ) : Option (Prepared F Proof) := do
  let secret := ses.noteSecret note.depositIndex (note.derivationVersion.getD .v1)
  let merkle ← ses.reads.merklePath note.commitment
  let newBalance := note.balance + credit
  let newCommitment := computeCommitment C secret newBalance (note.nonce + 1) ses.address
  let proof ← ses.prove {
    type
    secret
    balance := note.balance
    nonce := note.nonce
    betNonce := receipt.nonce
    merkle
    ownerAddress := ses.address
    nullifier := note.nullifier
    newCommitment
    nullifierOfBet := receipt.bet
    marketId
    credit }
  return ⟨secret, merkle, newBalance, newCommitment, proof⟩

def Prepared.inputs (p : Prepared F Proof) (note receipt : Note F) : BetCancelPublicInputs F :=
  ⟨p.merkle.root, note.nullifier, p.newCommitment, receipt.bet⟩

def settlePosition (ses : Session F Proof Sig) (bet : ReadyToSettleBet F) :
    CreditOutcome F Proof Sig :=
  match ses.reads.betRecord bet.receipt.bet with
  | none => .idle .threw
  | some record =>
    if record.status = .credited then .retire
    else
      match getFreeNoteForDeposit ses.cache ses.address bet.receipt.depositIndex with
      | none => .idle .noFreeNote
      | some note =>
        let marketId := bet.receipt.conditionId.getD 0
        match prepareCredit C ses .settlementCredit note bet.receipt (some marketId)
            (bet.claimAmount : ℤ), uint64? bet.claimAmount with
        | some p, some totalCredit =>
          let settleAtt := (ses.reads.attestation bet.receipt.bet none).getD ses.noAttestation
          .submit {
            call := .settle ⟨p.merkle.root, note.nullifier, p.newCommitment, bet.receipt.bet,
              marketId, totalCredit⟩ settleAtt.att settleAtt.signature
            proof := p.proof
            note
            secret := p.secret
            newBalance := p.newBalance
            retires := true }
        | _, _ => .idle .threw

def finalizeClose (ses : Session F Proof Sig) (receipt : Note F) : CreditOutcome F Proof Sig :=
  match ses.reads.betRecord receipt.bet with
  | none => .idle .threw
  | some record =>
    if record.status = .closedCredited then .retire
    else
      match ses.reads.attestation receipt.bet (some reportSold) with
      | none => .idle .noAttestation
      | some a =>
        if a.att.reportType ≠ reportSold then .idle .noAttestation
        else
          match getFreeNoteForDeposit ses.cache ses.address receipt.depositIndex with
          | none => .idle .noFreeNote
          | some note =>
            let proceeds : ℤ := a.att.amountB.toNat
            match prepareCredit C ses .positionClose note receipt none proceeds with
            | some p =>
              .submit {
                call := .close (p.inputs note receipt) a.att a.signature
                proof := p.proof
                note
                secret := p.secret
                newBalance := p.newBalance
                retires := decide (record.expectedShares ≤ a.att.amountA) }
            | none => .idle .threw

def finalizePartialFill (ses : Session F Proof Sig) (receipt : Note F) :
    CreditOutcome F Proof Sig :=
  match ses.reads.attestation receipt.bet none with
  | none => .idle .noAttestation
  | some a =>
    if a.att.reportType ≠ reportPartial then .idle .noAttestation
    else
      match ses.reads.betRecord receipt.bet with
      | none => .idle .threw
      | some record =>
        if record.status ≠ .active then .idle .notOpen
        else
          match getFreeNoteForDeposit ses.cache ses.address receipt.depositIndex,
              ses.reads.betProtocolFee receipt.bet with
          | none, _ => .idle .noFreeNote
          | some _, none => .idle .threw
          | some note, some protocolFee =>
            let betAmount := record.betAmount.toNat
            let spentAmount := a.att.amountB.toNat
            let unexec := betAmount - spentAmount
            let refundAmount : ℕ :=
              if 0 < unexec ∧ 0 < betAmount then unexec + protocolFee.toNat * unexec / betAmount
              else 0
            match prepareCredit C ses .partialCredit note receipt none refundAmount with
            | some p =>
              .submit {
                call := .partialFill (p.inputs note receipt) a.att a.signature
                proof := p.proof
                note
                secret := p.secret
                newBalance := p.newBalance
                retires := false }
            | none => .idle .threw

def creditFailedReclaim (ses : Session F Proof Sig) (receipt : Note F)
    (a : SignedAttestation F Sig) : CreditOutcome F Proof Sig :=
  match getFreeNoteForDeposit ses.cache ses.address receipt.depositIndex,
      ses.reads.betRecord receipt.bet with
  | none, _ => .idle .noFreeNote
  | some _, none => .idle .threw
  | some note, some record =>
    if record.betAmount = 0 then .retire
    else
      match ses.reads.betProtocolFee receipt.bet with
      | none => .idle .threw
      | some protocolFee =>
        let refundTotal : ℕ := record.betAmount.toNat + protocolFee.toNat
        match prepareCredit C ses .betCancel note receipt none refundTotal with
        | some p =>
          .submit {
            call := .cancel (p.inputs note receipt) a.att a.signature
            proof := p.proof
            note
            secret := p.secret
            newBalance := p.newBalance
            retires := true }
        | none => .idle .threw

/-- `none` when no terminal attestation exists yet. -/
def tryCreditFromAttestation (ses : Session F Proof Sig) (receipt : Note F) :
    Option (CreditOutcome F Proof Sig) :=
  match ses.reads.attestation receipt.bet none with
  | none => none
  | some a =>
    if a.att.reportType = reportFailed then some (creditFailedReclaim C ses receipt a)
    else if a.att.reportType = reportPartial then some (finalizePartialFill C ses receipt)
    else none

/-- `reclaimBet`; `polls` are the reads after the operator was asked to cancel, of which it makes
six at most. -/
def reclaimBet (ses : Session F Proof Sig) (polls : List (Reads F Sig)) (receipt : Note F) :
    CreditOutcome F Proof Sig :=
  match ses.reads.betRecord receipt.bet with
  | none => .idle .threw
  | some record =>
    if record.status = .cancelledCredited ∨ record.status = .credited
        ∨ record.status = .closedCredited then .retire
    else
      (((ses.reads :: polls.take 6).findSome? fun reads =>
        tryCreditFromAttestation C { ses with reads } receipt)).getD (.idle .noAttestation)

end Polyshield.Wallet

import Polyshield.Vault.CanBeCredited
import Polyshield.Wallet.Cache
import Polyshield.Wallet.Mirror
import Polyshield.Wallet.Selection

/-!
# Settle & Withdraw

`settleCloseAndWithdraw.ts` as a machine: three passes over the open receipts,
each after a fresh classification, and then withdrawals from the lineages that
have no open receipt. Between its awaits the chain moves on. A step that throws
leaves the cache as it was, and the pass goes on with the next receipt.
-/

namespace Polyshield.Wallet

variable {F Proof Sig : Type}

/-! ## The parts -/

inductive Stage where
  | settle
  | reclaim
  | close
  deriving DecidableEq

inductive Queue (F : Type) where
  | settling (ready : List (ReadyToSettleBet F))
  | reclaiming (unfilled : List (Note F))
  | closing (remaining : List (Note F))

def Queue.receipts : Queue F → List (Note F)
  | .settling ready => ready.map ReadyToSettleBet.receipt
  | .reclaiming unfilled => unfilled
  | .closing remaining => remaining

inductive Phase (F Proof Sig : Type) where
  | loading (stage : Stage)
  | working (queue : Queue F)
  | submitted (sub : Submission F Proof Sig) (receipt : Note F) (rest : Queue F)
  /-- The loop of `closePositionFull`, with the polls that are left. -/
  | polling (receipt : Note F) (left : ℕ) (rest : List (Note F))
  /-- The loop of `withdrawClearLineages`. -/
  | withdrawing (iterations : ℕ)
  | merging (notes : List (Note F)) (largest : Note F) (iterations : ℕ)
  | draining (note : Note F) (iterations : ℕ)
  | done

structure Liquidation (F Proof Sig : Type) where
  vault : VaultState F
  cache : List (Note F)
  phase : Phase F Proof Sig
  /-- The lineages that were left without a note, with the state in which the call was executed. -/
  drained : List (VaultState F × ℕ)

/-- `loadPortfolioState`, as far as it is used here. -/
structure Portfolio (F : Type) where
  openReceipts : List (Note F)
  readyToSettle : List (ReadyToSettleBet F)
  lostBets : List (Note F)
  unfilledResolved : List (Note F)

section Model

variable [Field F] [DecidableEq F] (C : Circomlib F) (keccak : String → ℕ)

def ReadyToSettleBet.of? (keccak : String → ℕ) (r : Reads F Sig) (receipt : Note F) :
    Option (ReadyToSettleBet F) :=
  match checkSettlementStatus keccak r receipt with
  | .ready payoutPerShare claimAmount => some ⟨receipt, payoutPerShare, claimAmount⟩
  | _ => none

def loadPortfolio (r : Reads F Sig) (openReceipts : List (Note F)) : Portfolio F where
  openReceipts
  readyToSettle := openReceipts.filterMap (ReadyToSettleBet.of? keccak r)
  lostBets := openReceipts.filter fun n => checkSettlementStatus keccak r n = .lost
  unfilledResolved := openReceipts.filter fun n =>
    checkSettlementStatus keccak r n = .unfilledResolved

def Portfolio.queue (p : Portfolio F) : Stage → Queue F
  | .settle => .settling p.readyToSettle
  | .reclaim => .reclaiming p.unfilledResolved
  | .close => .closing (p.openReceipts.filter fun n => n.id ∉ p.lostBets.map Note.id)

/-- The receipts of the lost bets are retired before the last two passes. -/
def Portfolio.retireLost (p : Portfolio F) (cache : List (Note F)) : Stage → List (Note F)
  | .settle => cache
  | .reclaim | .close => p.lostBets.foldl (fun cache n => markBetReceiptSpent cache n.bet) cache

/-- Where the passes go on. -/
def Queue.next : Queue F → Phase F Proof Sig
  | .settling [] => .loading .reclaim
  | .reclaiming [] => .loading .close
  | .closing [] => .withdrawing 16
  | queue => .working queue

/-- The position of an open receipt is sold: it is known, and shares of it are left. -/
def sellsPosition (r : Reads F Sig) (receipt : Note F) : Bool :=
  match r.betRecord receipt.bet with
  | none => false
  | some record =>
    !decide record.status.Terminal && decide (record.status ≠ .resting) && receipt.positionId.isSome
      && decide (record.soldShares < record.expectedShares ∧ 0 < record.expectedShares)

/-- What the last pass does with a receipt, but for the polls of a sale. -/
def closeReceipt (ses : Session F Proof Sig) (polls : List (Reads F Sig)) (receipt : Note F) :
    CreditOutcome F Proof Sig :=
  match ses.reads.betRecord receipt.bet with
  | none => .idle .threw
  | some record =>
    if record.status.Terminal then .retire
    else if sellsPosition ses.reads receipt then finalizeClose C ses receipt
    else reclaimBet C ses polls receipt

/-- The outcome of the first receipt of a pass, and what is left. -/
def Queue.work (ses : Session F Proof Sig) (polls : List (Reads F Sig)) :
    Queue F → Option (Note F × CreditOutcome F Proof Sig × Queue F)
  | .settling (bet :: rest) => some (bet.receipt, settlePosition C ses bet, .settling rest)
  | .reclaiming (receipt :: rest) =>
    some (receipt, reclaimBet C ses polls receipt, .reclaiming rest)
  | .closing (receipt :: rest) => some (receipt, closeReceipt C ses polls receipt, .closing rest)
  | _ => none

def creditedNote (sub : Submission F Proof Sig) (receipt : Note F) : Note F where
  id := .commitment sub.call.core.newCommitment
  kind := match sub.call with
    | .settle .. | .close .. => .settleCredit
    | .cancel .. | .partialFill .. => .cancelCredit
  ownerAddress := sub.note.ownerAddress
  depositIndex := sub.note.depositIndex
  balance := sub.newBalance
  nonce := sub.note.nonce + 1
  commitment := .commitment sub.call.core.newCommitment
  nullifier := computeNullifier C sub.secret (sub.note.nonce + 1)
  spent := false
  marketId := receipt.marketId
  side := none
  expectedShares := none
  nullifierOfBet := none
  positionId := none
  conditionId := match sub.call with
    | .settle inputs .. => some inputs.marketId
    | _ => receipt.conditionId
  rawConditionId := none
  betAmount := none
  protocolFee := none
  derivationVersion := some (sub.note.derivationVersion.getD .v1)

def applyCredit (cache : List (Note F)) (sub : Submission F Proof Sig) (receipt : Note F) :
    List (Note F) :=
  let spent := markNoteSpent cache sub.note.commitment
  let retired := if sub.retires then markBetReceiptSpent spent receipt.bet else spent
  let added := addNote retired (creditedNote C sub receipt)
  match sub.call with
  | .partialFill _ att _ =>
    replaceNote added receipt.id { receipt with
      betAmount := some att.amountB.toNat
      expectedShares := some att.amountA.toNat }
  | _ => added

/-! ## Withdrawing -/

/-- The free notes of the lineages without an open receipt. -/
def clearFreeNotes (cache : List (Note F)) (hidden : F → Bool) (wallet : Address) :
    List (Note F) :=
  (getFreeNotes cache wallet).filter fun n =>
    n.depositIndex ∉ (getOpenBetReceipts cache hidden wallet).map Note.depositIndex

def topSum (notes : List (Note F)) : ℤ :=
  sumBalances ((sortByBalance notes).take maxConsolidateInputs)

/-- One iteration of `withdrawClearLineages`, up to its first transaction. -/
def withdrawClear (cache : List (Note F)) (hidden : F → Bool) (wallet : Address)
    (iterations : ℕ) : Phase F Proof Sig :=
  let clear := clearFreeNotes cache hidden wallet
  match sortByBalance clear with
  | [] => .done
  | spendNote :: _ =>
    if topSum clear ≤ 0 then .done
    else if topSum clear ≤ spendNote.balance then .draining spendNote iterations
    else
      match selectNotesForAmount cache hidden wallet (topSum clear)
          ⟨some ((getOpenBetReceipts cache hidden wallet).map Note.depositIndex).toFinset,
            some spendNote.depositIndex⟩ with
      | .ok selection => .merging selection.notes spendNote iterations
      | .error _ => .draining spendNote iterations

/-- The note of a merge; it goes on with the lineage of the first one. -/
def mergedNote (ses : Session F Proof Sig) (first : Note F) (notes : List (Note F)) : Note F where
  id := .commitment (computeCommitment C
    (ses.noteSecret first.depositIndex (first.derivationVersion.getD .v1)) (sumBalances notes)
    (first.nonce + 1) ses.address)
  kind := .betOutput
  ownerAddress := ses.address
  depositIndex := first.depositIndex
  balance := sumBalances notes
  nonce := first.nonce + 1
  commitment := .commitment (computeCommitment C
    (ses.noteSecret first.depositIndex (first.derivationVersion.getD .v1)) (sumBalances notes)
    (first.nonce + 1) ses.address)
  nullifier := computeNullifier C
    (ses.noteSecret first.depositIndex (first.derivationVersion.getD .v1)) (first.nonce + 1)
  spent := false
  marketId := none
  side := none
  expectedShares := none
  nullifierOfBet := none
  positionId := none
  conditionId := none
  rawConditionId := none
  betAmount := none
  protocolFee := none
  derivationVersion := some (first.derivationVersion.getD .v1)

/-- The call of `consolidateNotes`; the slots that are not used have the nullifier zero. -/
def consolidateCall (ses : Session F Proof Sig) (first : Note F) (notes : List (Note F))
    (root : F) (proof : Proof) : Call F Proof Sig :=
  .consolidate proof {
    merkleRoot := root
    nullifier := fun j => match notes[j.val]? with
      | some n =>
        computeNullifier C (ses.noteSecret n.depositIndex (n.derivationVersion.getD .v1)) n.nonce
      | none => 0
    newCommitment := computeCommitment C
      (ses.noteSecret first.depositIndex (first.derivationVersion.getD .v1)) (sumBalances notes)
      (first.nonce + 1) ses.address }

/-- The call of `withdrawOneNote` for the whole balance of a note. -/
def withdrawCall (wallet : Address) (note : Note F) (amount : UInt64) (root : F) (proof : Proof) :
    Call F Proof Sig :=
  .withdraw proof {
    merkleRoot := root
    nullifier := note.nullifier
    withdrawalAmount := amount
    recipientHash := C.poseidon2 (wallet.toNat : F) 0
    newCommitment := 0 } wallet

/-! ## The steps -/

/-- The bet is one of the wallet's lineage: its nullifier is of the lineage's secret, and of a
nonce as the circuits check it. -/
def OfLineage (C : Circomlib F) (ses : Session F Proof Sig) (depositIndex : ℕ) (bet : F) : Prop :=
  depositIndex < 2 ^ 32 ∧ ∃ version, ∃ nonce < 2 ^ 64,
    bet = computeNullifier C (ses.noteSecret depositIndex version) nonce

/-- The Vault moves on, with no new bet of the wallet. -/
structure Moves (E : Env F Proof Sig) (ses : Session F Proof Sig) (v v' : VaultState F) : Prop where
  ordinarily : Ordinarily E v v'
  noNewBet : ∀ d bet, OfLineage E.circomlib ses d bet → (v.betRecords bet).marketId = 0 →
    (v'.betRecords bet).marketId = 0

/-- The reads of an attempt are of a state the Vault goes through. -/
def ReadMeanwhile (E : Env F Proof Sig) (ses : Session F Proof Sig) (v v' : VaultState F)
    (r : Reads F Sig) : Prop :=
  ∃ v₁, Moves E ses v v₁ ∧ Moves E ses v₁ v' ∧ Truthful E v₁ r

variable {C}

inductive Step (E : Env F Proof Sig) (keccak : String → ℕ) (hidden : F → Bool)
    (ses : Session F Proof Sig) : Liquidation F Proof Sig → Liquidation F Proof Sig → Prop
  | others {t : Liquidation F Proof Sig} {v : VaultState F} (h : Moves E ses t.vault v) :
    Step E keccak hidden ses t { t with vault := v }
  /-- `reconcileSpentStatus`, before a classification or a withdrawal. -/
  | reconcile {t : Liquidation F Proof Sig} (r : ReconcileReads F) :
    Step E keccak hidden ses t { t with
      cache := reconcileSpentStatus t.cache ses.address r }
  /-- The statuses are read, and after the payouts the times of the resolutions. -/
  | load {t : Liquidation F Proof Sig} {stage : Stage} {v : VaultState F} {r r' : Reads F Sig}
    {p : Portfolio F} (hphase : t.phase = .loading stage) (hmoves : Moves E ses t.vault v)
    (hr : Truthful E t.vault r) (hr' : Truthful E v r')
    (hp : p = loadPortfolio keccak { r with marketResolvedAt := r'.marketResolvedAt }
      (getOpenBetReceipts t.cache hidden ses.address)) :
    Step E keccak hidden ses t { t with
      vault := v
      cache := p.retireLost t.cache stage
      phase := (p.queue stage).next }
  | retire {t : Liquidation F Proof Sig} {queue rest : Queue F} {v : VaultState F}
    {r : Reads F Sig} {polls : List (Reads F Sig)} {receipt : Note F}
    (hphase : t.phase = .working queue) (hmoves : Moves E ses t.vault v)
    (hr : Truthful E t.vault r) (hpolls : ∀ r ∈ polls, ReadMeanwhile E ses t.vault v r)
    (hwork : queue.work E.circomlib { ses with cache := t.cache, reads := r } polls
      = some (receipt, .retire, rest)) :
    Step E keccak hidden ses t { t with
      vault := v
      cache := markBetReceiptSpent t.cache receipt.bet
      phase := rest.next }
  | idle {t : Liquidation F Proof Sig} {queue rest : Queue F} {v : VaultState F}
    {r : Reads F Sig} {polls : List (Reads F Sig)} {receipt : Note F} {reason : IdleReason}
    (hphase : t.phase = .working queue) (hmoves : Moves E ses t.vault v)
    (hr : Truthful E t.vault r) (hpolls : ∀ r ∈ polls, ReadMeanwhile E ses t.vault v r)
    (hwork : queue.work E.circomlib { ses with cache := t.cache, reads := r } polls
      = some (receipt, .idle reason, rest)) :
    Step E keccak hidden ses t { t with vault := v, phase := rest.next }
  | submit {t : Liquidation F Proof Sig} {queue rest : Queue F} {v : VaultState F}
    {r : Reads F Sig} {polls : List (Reads F Sig)} {receipt : Note F}
    {sub : Submission F Proof Sig} (hphase : t.phase = .working queue)
    (hmoves : Moves E ses t.vault v) (hr : Truthful E t.vault r)
    (hpolls : ∀ r ∈ polls, ReadMeanwhile E ses t.vault v r)
    (hwork : queue.work E.circomlib { ses with cache := t.cache, reads := r } polls
      = some (receipt, .submit sub, rest)) :
    Step E keccak hidden ses t { t with vault := v, phase := .submitted sub receipt rest }
  /-- No sale is attested yet: the position is sold, and polled for. -/
  | sell {t : Liquidation F Proof Sig} {receipt : Note F} {rest : List (Note F)} {r : Reads F Sig}
    (hphase : t.phase = .working (.closing (receipt :: rest))) (hr : Truthful E t.vault r)
    (hsells : sellsPosition r receipt = true)
    (hidle : finalizeClose E.circomlib { ses with cache := t.cache, reads := r } receipt
      = .idle .noAttestation) :
    Step E keccak hidden ses t { t with phase := .polling receipt 22 rest }
  | pollRetire {t : Liquidation F Proof Sig} {receipt : Note F} {left : ℕ} {rest : List (Note F)}
    {r : Reads F Sig} (hphase : t.phase = .polling receipt (left + 1) rest)
    (hr : Truthful E t.vault r)
    (hclose : finalizeClose E.circomlib { ses with cache := t.cache, reads := r } receipt
      = .retire) :
    Step E keccak hidden ses t { t with
      cache := markBetReceiptSpent t.cache receipt.bet
      phase := (Queue.closing rest).next }
  | pollSubmit {t : Liquidation F Proof Sig} {receipt : Note F} {left : ℕ} {rest : List (Note F)}
    {r : Reads F Sig} {sub : Submission F Proof Sig}
    (hphase : t.phase = .polling receipt (left + 1) rest) (hr : Truthful E t.vault r)
    (hclose : finalizeClose E.circomlib { ses with cache := t.cache, reads := r } receipt
      = .submit sub) :
    Step E keccak hidden ses t { t with phase := .submitted sub receipt (.closing rest) }
  | pollAgain {t : Liquidation F Proof Sig} {receipt : Note F} {left : ℕ} {rest : List (Note F)}
    {r : Reads F Sig} (hphase : t.phase = .polling receipt (left + 1) rest)
    (hr : Truthful E t.vault r)
    (hclose : finalizeClose E.circomlib { ses with cache := t.cache, reads := r } receipt
      = .idle .noAttestation) :
    Step E keccak hidden ses t { t with phase := .polling receipt left rest }
  /-- The polls are used up, or one of them ends without a credit. -/
  | pollEnd {t : Liquidation F Proof Sig} {receipt : Note F} {left : ℕ} {rest : List (Note F)}
    (hphase : t.phase = .polling receipt left rest) :
    Step E keccak hidden ses t { t with phase := (Queue.closing rest).next }
  | confirm {t : Liquidation F Proof Sig} {sub : Submission F Proof Sig} {receipt : Note F}
    {rest : Queue F} {m : Msg} {v : VaultState F} (hphase : t.phase = .submitted sub receipt rest)
    (hexec : exec E m t.vault (sub.call.call sub.proof) = .ok v) (hfinal : v.ReportsFinal) :
    Step E keccak hidden ses t { t with
      vault := v
      cache := applyCredit E.circomlib t.cache sub receipt
      phase := rest.next }
  | fail {t : Liquidation F Proof Sig} {sub : Submission F Proof Sig} {receipt : Note F}
    {rest : Queue F} (hphase : t.phase = .submitted sub receipt rest) :
    Step E keccak hidden ses t { t with phase := rest.next }
  | withdraw {t : Liquidation F Proof Sig} {iterations : ℕ}
    (hphase : t.phase = .withdrawing (iterations + 1)) :
    Step E keccak hidden ses t { t with
      phase := withdrawClear t.cache hidden ses.address iterations }
  /-- The merge is executed; the lineages of all notes but the first end. -/
  | merge {t : Liquidation F Proof Sig} {first largest : Note F} {others : List (Note F)}
    {iterations : ℕ} {m : Msg} {v : VaultState F} {root : F} {proof : Proof}
    (hphase : t.phase = .merging (first :: others) largest iterations)
    (hlength : others ≠ [] ∧ others.length < maxConsolidateInputs)
    (hexec : exec E m t.vault (consolidateCall E.circomlib ses first (first :: others) root proof)
      = .ok v) (hfinal : v.ReportsFinal) :
    Step E keccak hidden ses t {
      vault := v
      cache := addNote ((first :: others).foldl (fun cache n => markNoteSpent cache n.commitment)
        t.cache) (mergedNote E.circomlib ses first (first :: others))
      phase := .draining (mergedNote E.circomlib ses first (first :: others)) iterations
      drained := t.drained ++ others.map fun n => (t.vault, n.depositIndex) }
  /-- The merge is executed but not confirmed. -/
  | mergeLost {t : Liquidation F Proof Sig} {first largest : Note F} {others : List (Note F)}
    {iterations : ℕ} {m : Msg} {v : VaultState F} {root : F} {proof : Proof}
    (hphase : t.phase = .merging (first :: others) largest iterations)
    (hlength : others ≠ [] ∧ others.length < maxConsolidateInputs)
    (hexec : exec E m t.vault (consolidateCall E.circomlib ses first (first :: others) root proof)
      = .ok v) (hfinal : v.ReportsFinal) :
    Step E keccak hidden ses t { t with
      vault := v
      phase := .draining largest iterations
      drained := t.drained ++ others.map fun n => (t.vault, n.depositIndex) }
  | mergeFail {t : Liquidation F Proof Sig} {notes : List (Note F)} {largest : Note F}
    {iterations : ℕ} (hphase : t.phase = .merging notes largest iterations) :
    Step E keccak hidden ses t { t with phase := .draining largest iterations }
  /-- The whole balance is withdrawn. -/
  | drain {t : Liquidation F Proof Sig} {note : Note F} {iterations : ℕ} {m : Msg}
    {v : VaultState F} {amount : UInt64} {root : F} {proof : Proof} {confirmed : Bool}
    (hphase : t.phase = .draining note iterations)
    (hamount : uint64? note.balance.toNat = some amount)
    (hexec : exec E m t.vault (withdrawCall E.circomlib ses.address note amount root proof)
      = .ok v) (hfinal : v.ReportsFinal) :
    Step E keccak hidden ses t {
      vault := v
      cache := if confirmed then markNoteSpent t.cache note.commitment else t.cache
      phase := if confirmed then .withdrawing iterations else .done
      drained := t.drained ++ [(t.vault, note.depositIndex)] }
  | drainFail {t : Liquidation F Proof Sig} {note : Note F} {iterations : ℕ}
    (hphase : t.phase = .draining note iterations) :
    Step E keccak hidden ses t { t with phase := .done }

end Model

end Polyshield.Wallet

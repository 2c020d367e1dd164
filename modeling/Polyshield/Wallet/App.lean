import Polyshield.Wallet.BetModal

/-!
# The app and the chain

The operations of the app as a machine next to a chain on which anyone acts: an
operation is submitted from notes of the cache, its call lands at some later
time or never, and the app records it once it is confirmed, unless the tab has
died by then. Any number of operations may be under way.
-/

namespace Polyshield.Wallet

variable {F Proof Sig : Type}

def Note.secret (ses : Session F Proof Sig) (n : Note F) : F :=
  ses.noteSecret n.depositIndex (n.derivationVersion.getD .v1)

/-- A note of the wallet that holds cash, or held it before it was spent. -/
def Note.IsCash (ses : Session F Proof Sig) (n : Note F) : Prop :=
  n.kind ≠ .betReceipt ∧ n.ownerAddress = ses.address

/-- What an operation of the app is about. A merge comes before the bet or the withdrawal that it
is for. -/
inductive Operation (F Proof Sig : Type) where
  | deposit (depositIndex amount : ℕ)
  | bet (b : Bet F)
  | merge (first : Note F) (others : List (Note F))
  | withdraw (spendNote : Note F) (effectiveWithdrawal : ℤ)
  | credit (sub : Submission F Proof Sig) (receipt : Note F)

namespace Operation

section Model

variable [Field F] (C : Circomlib F) (ses : Session F Proof Sig)

/-- The note that the deposit page adds; new deposits are of the second derivation. -/
def depositNote (depositIndex amount : ℕ) : Note F where
  id := .commitment (computeCommitment C (ses.noteSecret depositIndex .v2) amount 0 ses.address)
  kind := .deposit
  ownerAddress := ses.address
  depositIndex
  balance := amount
  nonce := 0
  commitment :=
    .commitment (computeCommitment C (ses.noteSecret depositIndex .v2) amount 0 ses.address)
  nullifier := computeNullifier C (ses.noteSecret depositIndex .v2) 0
  spent := false
  marketId := none
  side := none
  expectedShares := none
  nullifierOfBet := none
  positionId := none
  conditionId := none
  rawConditionId := none
  betAmount := none
  protocolFee := none
  derivationVersion := some .v2

/-- A withdrawal as the page records it, once what it merged is recorded. -/
def withdrawal (spendNote : Note F) (effectiveWithdrawal : ℤ) : Withdrawal F :=
  ⟨[], spendNote, effectiveWithdrawal⟩

/-- The commitment of what is left of the note, or zero. -/
def remainderCommitment (spendNote : Note F) (effectiveWithdrawal : ℤ) : F :=
  if 0 < spendNote.balance - effectiveWithdrawal then
    computeCommitment C (spendNote.secret ses) (spendNote.balance - effectiveWithdrawal)
      (spendNote.nonce + 1) ses.address
  else 0

/-- The call that is sent, by the wallet for a deposit and by the relay for the rest. -/
def call (merkle : MerkleProof F) (proof : Proof) : Operation F Proof Sig → Call F Proof Sig
  | deposit depositIndex amount =>
    .deposit proof
      (computeCommitment C (ses.noteSecret depositIndex .v2) amount 0 ses.address) amount
  | bet b => .authorizeBet proof (b.inputs C ses merkle).publicInputs
  | merge first others => consolidateCall C ses first (first :: others) merkle.root proof
  | withdraw spendNote effectiveWithdrawal =>
    .withdraw proof {
      merkleRoot := merkle.root
      nullifier := spendNote.nullifier
      withdrawalAmount := UInt64.ofNat effectiveWithdrawal.toNat
      recipientHash := RecipientHash C (ses.address.toNat : F)
      newCommitment := remainderCommitment C ses spendNote effectiveWithdrawal } ses.address
  | credit sub _ => sub.call.call sub.proof

def ends : Operation F Proof Sig → List (Note F)
  | deposit .. => []
  | bet b => [b.cashNote]
  | merge first others => first :: others
  | withdraw spendNote _ => [spendNote]
  | credit sub _ => [sub.note]

def receipts : Operation F Proof Sig → List (Note F)
  | credit _ receipt => [receipt]
  | _ => []

def made : Operation F Proof Sig → Option (Note F)
  | deposit depositIndex amount => some (depositNote C ses depositIndex amount)
  | bet b => some (b.output C ses)
  | merge first others => some (mergedNote C ses first (first :: others))
  | withdraw spendNote effectiveWithdrawal =>
    (withdrawal spendNote effectiveWithdrawal).remainder C ses
  | credit sub receipt => some (creditedNote C sub receipt)

variable [DecidableEq F]

def record (cache : List (Note F)) : Operation F Proof Sig → List (Note F)
  | deposit depositIndex amount => addNote cache (depositNote C ses depositIndex amount)
  | bet b => b.record C ses cache
  | merge first others =>
    addNote ((first :: others).foldl (fun cache n => markNoteSpent cache n.commitment) cache)
      (mergedNote C ses first (first :: others))
  | withdraw spendNote effectiveWithdrawal =>
    (withdrawal spendNote effectiveWithdrawal).record C ses cache
  | credit sub receipt => applyCredit C cache sub receipt

/-- The amounts are what the pages let through. -/
def Admits : Operation F Proof Sig → Prop
  | deposit .. => True
  | bet b => 0 ≤ b.newBalance ∧ b.newBalance ≤ b.cashNote.balance
  | merge _ others => others ≠ [] ∧ others.length < maxConsolidateInputs
  | withdraw spendNote effectiveWithdrawal =>
    0 ≤ effectiveWithdrawal ∧ effectiveWithdrawal ≤ spendNote.balance
  | credit sub _ =>
    (∃ credit : ℤ, 0 ≤ credit ∧ credit < 2 ^ 128 ∧ sub.newBalance = sub.note.balance + credit) ∧
      sub.secret = sub.note.secret ses ∧ sub.call.core.nullifier = sub.note.nullifier ∧
      sub.call.core.newCommitment
        = computeCommitment C sub.secret sub.newBalance (sub.note.nonce + 1) ses.address

end Model

end Operation

/-! ## The machine -/

/-- The app next to the chain. `lost` is a ghost: what landed and was never recorded. -/
structure AppState (F Proof Sig : Type) where
  chain : Chain F Proof Sig
  cache : List (Note F)
  submitted : List (Operation F Proof Sig)
  landed : List (Operation F Proof Sig)
  lost : List (Operation F Proof Sig)

namespace AppState

/-- The operations that the chain has and the cache does not. -/
def unrecorded (t : AppState F Proof Sig) : List (Operation F Proof Sig) := t.landed ++ t.lost

def initial (s : VaultState F) : AppState F Proof Sig := ⟨⟨s, []⟩, [], [], [], []⟩

end AppState

variable [Field F] [DecidableEq F]

/-- The steps. `Others` is what may happen on chain besides the operations of the app. -/
inductive AppStep (E : Env F Proof Sig) (ses : Session F Proof Sig)
    (Others : VaultState F → VaultState F → Prop) :
    AppState F Proof Sig → AppState F Proof Sig → Prop
  | others {t : AppState F Proof Sig} (a : Action F Proof Sig)
    (h : Others t.chain.state (advance E t.chain a).state) :
    AppStep E ses Others t { t with chain := advance E t.chain a }
  /-- An operation on notes of the cache is submitted. -/
  | submit {t : AppState F Proof Sig} {op : Operation F Proof Sig}
    (hnotes : ∀ n ∈ op.ends, n ∈ t.cache ∧ n.IsCash ses)
    (hreceipts : ∀ n ∈ op.receipts, n ∈ t.cache ∧ n.kind = .betReceipt)
    (h : op.Admits E.circomlib ses) :
    AppStep E ses Others t { t with submitted := t.submitted ++ [op] }
  /-- Its call is executed, possibly long after. -/
  | land {t : AppState F Proof Sig} {op : Operation F Proof Sig}
    {before after : List (Operation F Proof Sig)} {m : Msg} {merkle : MerkleProof F}
    {proof : Proof} {v : VaultState F} (hop : t.submitted = before ++ op :: after)
    (hexec : exec E m t.chain.state (op.call E.circomlib ses merkle proof) = .ok v) :
    AppStep E ses Others t { t with
      chain := ⟨v, t.chain.trace ++
        [⟨t.chain.state, m, op.call E.circomlib ses merkle proof, v⟩]⟩
      submitted := before ++ after
      landed := t.landed ++ [op] }
  /-- It reverts, or is given up before it is sent. -/
  | abandon {t : AppState F Proof Sig} {op : Operation F Proof Sig}
    {before after : List (Operation F Proof Sig)} (hop : t.submitted = before ++ op :: after) :
    AppStep E ses Others t { t with submitted := before ++ after }
  /-- It is confirmed and recorded. -/
  | confirm {t : AppState F Proof Sig} {op : Operation F Proof Sig}
    {before after : List (Operation F Proof Sig)} (hop : t.landed = before ++ op :: after) :
    AppStep E ses Others t { t with
      cache := op.record E.circomlib ses t.cache
      landed := before ++ after }
  /-- The tab dies before it is recorded. -/
  | lose {t : AppState F Proof Sig} {op : Operation F Proof Sig}
    {before after : List (Operation F Proof Sig)} (hop : t.landed = before ++ op :: after) :
    AppStep E ses Others t { t with landed := before ++ after, lost := t.lost ++ [op] }
  /-- A reconcile, whose reads may miss what is spent. -/
  | reconcile {t : AppState F Proof Sig} {r : ReconcileReads F}
    (hr : ∀ x, r.spent x = true → t.chain.state.spent x = true) :
    AppStep E ses Others t { t with cache := reconcileSpentStatus t.cache ses.address r }
  | retire {t : AppState F Proof Sig} (bet : F) :
    AppStep E ses Others t { t with cache := markBetReceiptSpent t.cache bet }

inductive AppRun (E : Env F Proof Sig) (ses : Session F Proof Sig)
    (Others : VaultState F → VaultState F → Prop) (s₀ : VaultState F) :
    AppState F Proof Sig → Prop
  | initial : AppRun E ses Others s₀ (.initial s₀)
  | step {t t' : AppState F Proof Sig} (h : AppRun E ses Others s₀ t)
    (hstep : AppStep E ses Others t t') : AppRun E ses Others s₀ t'

end Polyshield.Wallet

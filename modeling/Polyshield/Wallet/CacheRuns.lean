import Mathlib.Logic.Function.Basic
import Polyshield.Wallet.Cache
import Polyshield.Wallet.Restored

/-!
# The note cache over time

`cachedNotes` once it is hydrated, the arrays and note objects behind it, and
everything that touches them between two awaits: the writers of `notes.ts`, the
segments of `reconcileSpentStatus`, the end of `recoverNotesWithClient`, and the
encrypted writes of `cacheStore.ts`, which end in any order and may fail.
-/

namespace Polyshield.Wallet

variable {F : Type} [Field F] [DecidableEq F]

/-- A note object. It lives in one array. -/
structure Cell (F : Type) where
  ref : ℕ
  note : Note F

def Cell.setSpent (c : Cell F) (spent : Bool) : Cell F :=
  { c with note := { c.note with spent := spent } }

/-- What a reconcile awaits: the nullifiers it has asked for, or the status of the bet of a hidden
receipt, with the receipts still to ask for. -/
inductive ReconcileStage (F : Type) where
  | spentNullifiers (asked : List F)
  | betStatus (receipt : Cell F) (hidden : List (Cell F))

/-- A `reconcileSpentStatus` that is awaiting. `notes` is the array it has read. -/
structure Reconcile (F : Type) where
  wallet : Address
  notes : ℕ
  changed : Bool
  stage : ReconcileStage F

inductive Procedure (F : Type) where
  | reconcile (r : Reconcile F)
  | recovery (wallet : Address)

/-- A `writeEncrypted` that has been started. -/
structure CacheWrite (F : Type) where
  notes : List (Note F)
  completed : Bool

/-- `next` is the next unused reference. -/
structure CacheState (F : Type) where
  arrays : ℕ → List (Cell F)
  cachedNotes : ℕ
  receiptsHealedThisSession : List Address
  procedures : ℕ → Option (Procedure F)
  writes : List (CacheWrite F)
  persisted : List (Note F)
  next : ℕ

inductive CacheOp (F : Type) where
  | addNote (note : Note F)
  | replaceNote (noteId : NoteId F) (note : Note F)
  | markNoteSpent (commitment : NoteId F)
  | markBetReceiptSpent (nullifierOfBet : F)
  | reconcile (wallet : Address)
  | spentNullifiers (procedure : ℕ) (spent : List F)
  | betStatus (procedure : ℕ) (status : Option BetStatus)
  | recover (wallet : Address)
  | recovered (procedure : ℕ) (reads : RecoveryReads F)
  | recoverFailed (procedure : ℕ)
  | written (write : ℕ)
  | writeFailed (write : ℕ)

def newCells (ref : ℕ) : List (Note F) → List (Cell F)
  | [] => []
  | n :: notes => ⟨ref, n⟩ :: newCells (ref + 1) notes

def notesOf (cells : List (Cell F)) : List (Note F) := cells.map Cell.note

namespace CacheState

variable (s : CacheState F)

def hydrated (persisted : List (Note F)) : CacheState F where
  arrays a := if a = 0 then newCells 1 persisted else []
  cachedNotes := 0
  receiptsHealedThisSession := []
  procedures _ := none
  writes := []
  persisted := persisted
  next := persisted.length + 1

def loadAll : List (Cell F) := s.arrays s.cachedNotes

def notes : List (Note F) := notesOf s.loadAll

def saveAll (notes : ℕ) : CacheState F :=
  { s with
    cachedNotes := notes
    writes := s.writes ++ [⟨notesOf (s.arrays notes), false⟩] }

def setArray (a : ℕ) (cells : List (Cell F)) : CacheState F :=
  { s with arrays := Function.update s.arrays a cells }

def alloc (n : ℕ) : CacheState F := { s with next := s.next + n }

def setProcedure (i : ℕ) (p : Option (Procedure F)) : CacheState F :=
  { s with procedures := Function.update s.procedures i p }

/-- A change of the array in memory, which is then saved. -/
def write (cells : List (Cell F)) : CacheState F :=
  (s.setArray s.cachedNotes cells).saveAll s.cachedNotes

/-- `markNoteSpent` and `markBetReceiptSpent`. -/
def markFirst (p : Note F → Bool) : CacheState F :=
  if s.notes.any p then
    s.write (s.loadAll.lookmap fun c => if p c.note then some (c.setSpent true) else none)
  else s

def addNote (note : Note F) : CacheState F :=
  (s.alloc 1).write (s.loadAll ++ [⟨s.next, note⟩])

def replaceNote (noteId : NoteId F) (note : Note F) : CacheState F :=
  if s.notes.any fun n => n.isOf noteId then
    (s.alloc 1).write
      (s.loadAll.lookmap fun c => if c.note.isOf noteId then some ⟨s.next, note⟩ else none)
  else s.addNote note

/-- A reconcile asks for the next hidden receipt, or is done. -/
def healNext (i : ℕ) (wallet : Address) (notes : ℕ) (changed : Bool) :
    List (Cell F) → CacheState F
  | receipt :: hidden =>
    s.setProcedure i (some (.reconcile ⟨wallet, notes, changed, .betStatus receipt hidden⟩))
  | [] => if changed then (s.setProcedure i none).saveAll notes else s.setProcedure i none

/-- A receipt that a reconcile asks about. -/
def isHidden (wallet : Address) (n : Note F) : Bool :=
  n.spent && n.kind = .betReceipt && n.ownerAddress = wallet &&
    n.nullifierOfBet.any fun bet => bet ≠ 0

/-- A reconcile after the nullifiers: the receipts are healed once in a session. -/
def heal (i : ℕ) (wallet : Address) (notes : ℕ) (changed : Bool) : CacheState F :=
  if wallet ∈ s.receiptsHealedThisSession then s.healNext i wallet notes changed []
  else
    { s with receiptsHealedThisSession := wallet :: s.receiptsHealedThisSession }.healNext i wallet
      notes changed ((s.arrays notes).filter fun c => isHidden wallet c.note)

def reconcile (wallet : Address) : CacheState F :=
  match reconcileCandidates s.notes wallet with
  | [] => (s.alloc 1).heal s.next wallet s.cachedNotes false
  | candidates =>
    (s.alloc 1).setProcedure s.next (some (.reconcile ⟨wallet, s.cachedNotes, false,
      .spentNullifiers (candidates.map Note.nullifier)⟩))

/-- A note that is marked because its nullifier was asked for and is spent. -/
def isSpent (asked spent : List F) (n : Note F) : Bool :=
  ¬n.spent ∧ n.kind ≠ .betReceipt ∧ n.nullifier ∈ asked ∧ n.nullifier ∈ spent

def markAsked (a : ℕ) (asked spent : List F) : CacheState F :=
  s.setArray a ((s.arrays a).map fun c =>
    if isSpent asked spent c.note then c.setSpent true else c)

def spentNullifiers (i : ℕ) (r : Reconcile F) (asked spent : List F) : CacheState F :=
  (s.markAsked r.notes asked spent).heal i r.wallet r.notes
    (r.changed || (notesOf (s.arrays r.notes)).any (isSpent asked spent))

/-- A status that is read and not terminal. -/
def isOpen (status : Option BetStatus) : Bool := status.any fun st => ¬st.Terminal

def healReceipt (a : ℕ) (receipt : Cell F) : CacheState F :=
  s.setArray a ((s.arrays a).map fun c => if c.ref = receipt.ref then c.setSpent false else c)

def betStatus (i : ℕ) (r : Reconcile F) (receipt : Cell F) (hidden : List (Cell F))
    (status : Option BetStatus) : CacheState F :=
  if isOpen status then
    (s.healReceipt r.notes receipt).healNext i r.wallet r.notes true hidden
  else s.healNext i r.wallet r.notes r.changed hidden

/-- The end of `recoverNotesWithClient`. -/
def recovered (i : ℕ) (notes : List (Note F)) : CacheState F :=
  (((s.alloc (notes.length + 1)).setArray s.next (newCells (s.next + 1) notes)).setProcedure i
    none).saveAll s.next

def endWrite (k : ℕ) (w : CacheWrite F) (persisted : List (Note F)) : CacheState F :=
  { s with writes := s.writes.set k { w with completed := true }, persisted := persisted }

def step (C : Circomlib F) : CacheOp F → Option (CacheState F)
  | .addNote note => some (s.addNote note)
  | .replaceNote noteId note => some (s.replaceNote noteId note)
  | .markNoteSpent commitment => some (s.markFirst fun n => n.isOf commitment)
  | .markBetReceiptSpent bet => some (s.markFirst fun n => n.isReceiptOf bet)
  | .reconcile wallet => some (s.reconcile wallet)
  | .spentNullifiers i spent =>
    match s.procedures i with
    | some (.reconcile r) =>
      match r.stage with
      | .spentNullifiers asked => some (s.spentNullifiers i r asked spent)
      | .betStatus .. => none
    | _ => none
  | .betStatus i status =>
    match s.procedures i with
    | some (.reconcile r) =>
      match r.stage with
      | .betStatus receipt hidden => some (s.betStatus i r receipt hidden status)
      | .spentNullifiers _ => none
    | _ => none
  | .recover wallet => some ((s.alloc 1).setProcedure s.next (some (.recovery wallet)))
  | .recovered i reads =>
    match s.procedures i with
    | some (.recovery wallet) => some (s.recovered i (reads.recovered C wallet))
    | _ => none
  | .recoverFailed i =>
    match s.procedures i with
    | some (.recovery _) => some (s.setProcedure i none)
    | _ => none
  | .written k =>
    match s.writes[k]? with
    | some w => if w.completed then none else some (s.endWrite k w w.notes)
    | none => none
  | .writeFailed k =>
    match s.writes[k]? with
    | some w => if w.completed then none else some (s.endWrite k w s.persisted)
    | none => none

omit [Field F] [DecidableEq F] in
theorem notesOf_lookmap {cells : List (Cell F)} {f : Note F → Option (Note F)}
    {g : Cell F → Option (Cell F)} (h : ∀ c, (g c).map Cell.note = f c.note) :
    notesOf (cells.lookmap g) = (notesOf cells).lookmap f := by
  induction cells with
  | nil => rfl
  | cons c cells ih =>
    have hc := h c
    change notesOf (List.lookmap g (c :: cells)) = (c.note :: notesOf cells).lookmap f
    cases hg : g c with
    | none =>
      rw [hg, Option.map_none] at hc
      rw [List.lookmap_cons_none _ _ hg, List.lookmap_cons_none _ _ hc.symm, ← ih]
      rfl
    | some d =>
      rw [hg, Option.map_some] at hc
      rw [List.lookmap_cons_some _ _ hg, List.lookmap_cons_some _ _ hc.symm]
      rfl

omit [Field F] [DecidableEq F] in
theorem notes_write (cells : List (Cell F)) : (s.write cells).notes = notesOf cells :=
  congrArg notesOf (Function.update_self ..)

omit [Field F] [DecidableEq F] in
theorem notes_markFirst (p : Note F → Bool) :
    (s.markFirst p).notes = s.notes.lookmap fun n => if p n then some n.markSpent else none := by
  unfold markFirst
  split
  next =>
    rw [notes_write]
    refine notesOf_lookmap fun c => ?_
    split <;> rfl
  next hany =>
    refine (List.lookmap_of_forall_not _ fun n hn => if_neg fun hp => hany ?_).symm
    exact List.any_eq_true.mpr ⟨n, hn, hp⟩

omit [Field F] in
theorem notes_markNoteSpent (commitment : NoteId F) :
    (s.markFirst fun n => n.isOf commitment).notes = markNoteSpent s.notes commitment := by
  simp only [notes_markFirst, markNoteSpent, decide_eq_true_eq]

omit [Field F] in
theorem notes_markBetReceiptSpent (bet : F) :
    (s.markFirst fun n => n.isReceiptOf bet).notes = markBetReceiptSpent s.notes bet := by
  simp only [notes_markFirst, markBetReceiptSpent, decide_eq_true_eq]

omit [Field F] [DecidableEq F] in
theorem notes_addNote (note : Note F) : (s.addNote note).notes = Wallet.addNote s.notes note :=
  (notes_write _ _).trans List.map_append

omit [Field F] in
theorem notes_replaceNote (noteId : NoteId F) (note : Note F) :
    (s.replaceNote noteId note).notes = Wallet.replaceNote s.notes noteId note := by
  have hany : s.notes.any (fun n => n.isOf noteId) = true ↔ ∃ n ∈ s.notes, n.isOf noteId := by
    simp only [List.any_eq_true, decide_eq_true_eq]
  unfold replaceNote Wallet.replaceNote
  by_cases h : ∃ n ∈ s.notes, n.isOf noteId
  · rw [if_pos (hany.mpr h), if_pos h, notes_write]
    refine notesOf_lookmap fun c => ?_
    split <;> rfl
  · rw [if_neg (mt hany.mp h), if_neg h]
    exact s.notes_addNote note

end CacheState

end Polyshield.Wallet

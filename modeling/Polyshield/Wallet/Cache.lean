import Mathlib.Data.List.Lookmap
import Polyshield.Vault.Bet
import Polyshield.Wallet.Notes

/-!
# The writers of the note cache

What `notes.ts` does to the array of notes: `markNoteSpent`,
`markBetReceiptSpent`, `addNote`, `replaceNote`, and `reconcileSpentStatus` once
its reads are answered. Of the notes that match, the first one is written.
-/

namespace Polyshield.Wallet

variable {F : Type} [DecidableEq F]

def Note.markSpent (n : Note F) : Note F := { n with spent := true }

/-- The note `markNoteSpent` is after. -/
def Note.isOf (n : Note F) (commitment : NoteId F) : Prop :=
  n.commitment = commitment ∨ n.id = commitment

instance (n : Note F) (commitment : NoteId F) : Decidable (n.isOf commitment) :=
  inferInstanceAs (Decidable (_ ∨ _))

/-- A receipt of the bet, by either of its two nullifiers. -/
def Note.isReceiptOf (n : Note F) (nullifierOfBet : F) : Prop :=
  n.kind = .betReceipt ∧ (n.nullifierOfBet = some nullifierOfBet ∨ n.nullifier = nullifierOfBet)

instance (n : Note F) (nullifierOfBet : F) : Decidable (n.isReceiptOf nullifierOfBet) :=
  inferInstanceAs (Decidable (_ ∧ _))

def markNoteSpent (notes : List (Note F)) (commitment : NoteId F) : List (Note F) :=
  notes.lookmap fun n => if n.isOf commitment then some n.markSpent else none

def markBetReceiptSpent (notes : List (Note F)) (nullifierOfBet : F) : List (Note F) :=
  notes.lookmap fun n => if n.isReceiptOf nullifierOfBet then some n.markSpent else none

def addNote (notes : List (Note F)) (note : Note F) : List (Note F) := notes ++ [note]

def replaceNote (notes : List (Note F)) (noteId : NoteId F) (next : Note F) : List (Note F) :=
  if ∃ n ∈ notes, n.isOf noteId then
    notes.lookmap fun n => if n.isOf noteId then some next else none
  else notes ++ [next]

/-- What a reconcile has read: the nullifiers it asked for and found spent, and the statuses of the
bets whose receipts it heals, which it does once in a session. -/
structure ReconcileReads (F : Type) where
  spent : F → Bool
  status : F → Option BetStatus
  heals : Bool

variable [Zero F]

/-- The notes whose nullifiers a reconcile asks for. -/
def reconcileCandidates (notes : List (Note F)) (wallet : Address) : List (Note F) :=
  notes.filter fun n =>
    ¬n.spent ∧ n.kind ≠ .betReceipt ∧ n.ownerAddress = wallet ∧ n.nullifier ≠ 0

/-- The nullifier was asked for and is spent. -/
def inSpentSet (notes : List (Note F)) (wallet : Address) (r : ReconcileReads F)
    (nullifier : F) : Bool :=
  (reconcileCandidates notes wallet).any fun n => n.nullifier = nullifier ∧ r.spent nullifier

/-- A spent receipt whose bet is read to be open. -/
def healsReceipt (wallet : Address) (r : ReconcileReads F) (n : Note F) : Bool :=
  r.heals && n.spent && n.kind = .betReceipt && n.ownerAddress = wallet &&
    match n.nullifierOfBet with
    | some bet => bet ≠ 0 && (r.status bet).any fun st => ¬st.Terminal
    | none => false

def reconcileSpentStatus (notes : List (Note F)) (wallet : Address) (r : ReconcileReads F) :
    List (Note F) :=
  notes.map fun n =>
    if ¬n.spent ∧ n.kind ≠ .betReceipt ∧ inSpentSet notes wallet r n.nullifier then n.markSpent
    else if healsReceipt wallet r n then { n with spent := false }
    else n

/-! ## What stays in the cache -/

section Stays

variable {notes : List (Note F)} {n : Note F}

omit [Zero F] [DecidableEq F] in
theorem mem_lookmap_of_none {f : Note F → Option (Note F)} (hn : n ∈ notes) (hf : f n = none) :
    n ∈ notes.lookmap f := by
  induction notes with
  | nil => cases hn
  | cons a notes ih =>
    rcases List.mem_cons.mp hn with rfl | hn
    · rw [List.lookmap_cons_none _ _ hf]
      exact List.mem_cons_self
    · cases ha : f a with
      | none =>
        rw [List.lookmap_cons_none _ _ ha]
        exact List.mem_cons_of_mem _ (ih hn)
      | some b =>
        rw [List.lookmap_cons_some _ _ ha]
        exact List.mem_cons_of_mem _ hn

omit [Zero F] [DecidableEq F] in
theorem mem_lookmap {f : Note F → Option (Note F)} (hn : n ∈ notes.lookmap f) :
    n ∈ notes ∨ ∃ a ∈ notes, f a = some n := by
  induction notes with
  | nil => cases hn
  | cons a notes ih =>
    cases ha : f a with
    | none =>
      rw [List.lookmap_cons_none _ _ ha] at hn
      rcases List.mem_cons.mp hn with rfl | hn
      · exact .inl List.mem_cons_self
      · rcases ih hn with hn | ⟨b, hb, hf⟩
        · exact .inl (List.mem_cons_of_mem _ hn)
        · exact .inr ⟨b, List.mem_cons_of_mem _ hb, hf⟩
    | some b =>
      rw [List.lookmap_cons_some _ _ ha] at hn
      rcases List.mem_cons.mp hn with rfl | hn
      · exact .inr ⟨a, List.mem_cons_self, ha⟩
      · exact .inl (List.mem_cons_of_mem _ hn)

omit [Zero F] in
theorem mem_markNoteSpent {commitment : NoteId F} (hn : n ∈ notes) (hne : ¬ n.isOf commitment) :
    n ∈ markNoteSpent notes commitment :=
  mem_lookmap_of_none hn (if_neg hne)

omit [Zero F] in
theorem mem_markBetReceiptSpent {bet : F} (hn : n ∈ notes) (hne : ¬ n.isReceiptOf bet) :
    n ∈ markBetReceiptSpent notes bet :=
  mem_lookmap_of_none hn (if_neg hne)

omit [Zero F] [DecidableEq F] in
theorem mem_addNote {note : Note F} (hn : n ∈ notes) : n ∈ addNote notes note :=
  List.mem_append_left _ hn

omit [Zero F] in
theorem mem_replaceNote {noteId : NoteId F} {next : Note F} (hn : n ∈ notes)
    (hne : ¬ n.isOf noteId) : n ∈ replaceNote notes noteId next := by
  unfold replaceNote
  split
  · exact mem_lookmap_of_none hn (if_neg hne)
  · exact List.mem_append_left _ hn

omit [Zero F] in
theorem self_mem_replaceNote {noteId : NoteId F} {next : Note F} :
    next ∈ replaceNote notes noteId next := by
  unfold replaceNote
  split
  case isFalse => simp
  case isTrue h =>
    obtain ⟨n, hn, hof⟩ := h
    induction notes with
    | nil => cases hn
    | cons a notes ih =>
      rw [List.lookmap_cons]
      by_cases ha : a.isOf noteId
      · rw [if_pos ha]
        exact List.mem_cons_self
      · rw [if_neg ha]
        rcases List.mem_cons.mp hn with rfl | hn
        · exact absurd hof ha
        · exact List.mem_cons_of_mem _ (ih hn)

theorem mem_reconcileSpentStatus {wallet : Address} {r : ReconcileReads F} (hn : n ∈ notes)
    (hkind : n.kind = .betReceipt) (hspent : n.spent = false) :
    n ∈ reconcileSpentStatus notes wallet r := by
  refine List.mem_map.mpr ⟨n, hn, ?_⟩
  rw [if_neg (by simp [hkind]), if_neg (by simp [healsReceipt, hspent])]

end Stays

end Polyshield.Wallet

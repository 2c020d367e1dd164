import Polyshield.Vault.Lifecycle
import Polyshield.Wallet.CacheRuns

/-!
# No update of the note cache is lost

In every run whose steps are `Orderly` the operations of one wallet leave the
notes of the others alone, what is added or marked while a reconcile or a
recovery awaits is still there, a spent note stays spent, and what is persisted
is in the end what is in memory.
-/

namespace Polyshield.Wallet

variable {F : Type} [Field F] [DecidableEq F]

/-! ## The history of the cache -/

def Procedure.wallet : Procedure F → Address
  | .reconcile r => r.wallet
  | .recovery wallet => wallet

/-- The wallet that an operation is for; a mark is for the wallet of the note that it finds. -/
def CacheOp.wallet? (s : CacheState F) : CacheOp F → Option Address
  | .addNote note => some note.ownerAddress
  | .replaceNote _ note => some note.ownerAddress
  | .markNoteSpent commitment => (s.notes.find? fun n => n.isOf commitment).map Note.ownerAddress
  | .markBetReceiptSpent bet => (s.notes.find? fun n => n.isReceiptOf bet).map Note.ownerAddress
  | .reconcile wallet => some wallet
  | .recover wallet => some wallet
  | .spentNullifiers i _ => (s.procedures i).map Procedure.wallet
  | .betStatus i _ => (s.procedures i).map Procedure.wallet
  | .recovered i _ => (s.procedures i).map Procedure.wallet
  | .recoverFailed i => (s.procedures i).map Procedure.wallet
  | .written _ => none
  | .writeFailed _ => none

def CacheOp.adds (C : Circomlib F) (s : CacheState F) : CacheOp F → List (NoteId F)
  | .addNote note => [note.commitment]
  | .replaceNote _ note => [note.commitment]
  | .recovered i reads =>
    match s.procedures i with
    | some (.recovery wallet) => (reads.recovered C wallet).map Note.commitment
    | _ => []
  | _ => []

def CacheOp.marks (s : CacheState F) : CacheOp F → List (NoteId F)
  | .markNoteSpent commitment =>
    ((s.notes.find? fun n => n.isOf commitment).map Note.commitment).toList
  | .markBetReceiptSpent bet =>
    ((s.notes.find? fun n => n.isReceiptOf bet).map Note.commitment).toList
  | .spentNullifiers i spent =>
    match s.procedures i with
    | some (.reconcile ⟨_, notes, _, .spentNullifiers asked⟩) =>
      if notes = s.cachedNotes then
        (s.notes.filter (CacheState.isSpent asked spent)).map Note.commitment
      else []
    | _ => []
  | _ => []

def CacheOp.replaces (s : CacheState F) : CacheOp F → Option (NoteId F)
  | .replaceNote noteId _ => (s.notes.find? fun n => n.isOf noteId).map Note.commitment
  | _ => none

structure CacheStep (F : Type) where
  before : CacheState F
  op : CacheOp F

def CacheState.Awaiting (s : CacheState F) (i : ℕ) : Prop := (s.procedures i).isSome

/-- What one of the last steps did to the note `c`, while the procedure `i` was awaiting. -/
inductive Since (does : CacheStep F → List (NoteId F)) (i : ℕ) (c : NoteId F) :
    List (CacheStep F) → Prop
  | now {log : List (CacheStep F)} {x : CacheStep F} (hawaiting : x.before.Awaiting i)
      (hdoes : c ∈ does x) : Since does i c (log ++ [x])
  | later {log : List (CacheStep F)} {x : CacheStep F} (h : Since does i c log)
      (hawaiting : x.before.Awaiting i) (hkept : x.op.replaces x.before ≠ some c) :
      Since does i c (log ++ [x])

abbrev AddedSince (C : Circomlib F) : ℕ → NoteId F → List (CacheStep F) → Prop :=
  Since fun x => x.op.adds C x.before

abbrev MarkedSince : ℕ → NoteId F → List (CacheStep F) → Prop := Since fun x => x.op.marks x.before

def Has (notes : List (Note F)) (c : NoteId F) : Prop := ∃ n ∈ notes, n.commitment = c

def HasSpent (notes : List (Note F)) (c : NoteId F) : Prop :=
  ∃ n ∈ notes, n.commitment = c ∧ n.spent = true

/-- A cash note of the commitment, spent or not. -/
def HasCash (notes : List (Note F)) (c : NoteId F) (spent : Bool) : Prop :=
  ∃ n ∈ notes, n.commitment = c ∧ n.kind ≠ .betReceipt ∧ n.spent = spent

/-! ## The runs in which nothing is lost -/

/-- A note may be added: it is not an unspent copy of one that the cache has as spent. -/
def Addable (s : CacheState F) (note : Note F) : Prop :=
  note.kind ≠ .betReceipt → note.spent = false →
    HasCash s.notes note.commitment true → HasCash s.notes note.commitment false

/-- A reconcile that has something to save holds the array in memory. -/
def HoldsMemory (s : CacheState F) (r : Reconcile F) (changes : Bool) : Prop :=
  (r.changed || changes) = true → r.notes = s.cachedNotes

/-- No procedure that is still awaiting has seen the note added or marked. -/
def Untouched (C : Circomlib F) (log : List (CacheStep F)) (s : CacheState F) : Prop :=
  ∀ j c, s.Awaiting j → ¬ AddedSince C j c log ∧ ¬ MarkedSince j c log

def Orderly (C : Circomlib F) (log : List (CacheStep F)) (s : CacheState F) : CacheOp F → Prop
  | .addNote note => Addable s note
  | .replaceNote noteId note => Addable s note ∧
      ∀ n, s.notes.find? (fun n => n.isOf noteId) = some n → n.ownerAddress = note.ownerAddress
  | .spentNullifiers i spent => ∀ r asked, s.procedures i = some (.reconcile r) →
      r.stage = .spentNullifiers asked →
      HoldsMemory s r ((notesOf (s.arrays r.notes)).any (CacheState.isSpent asked spent)) ∧
        ∀ n ∈ notesOf (s.arrays r.notes), n.nullifier ∈ asked → n.ownerAddress = r.wallet
  | .betStatus i status => ∀ r receipt hidden, s.procedures i = some (.reconcile r) →
      r.stage = .betStatus receipt hidden →
      HoldsMemory s r (CacheState.isOpen status) ∧
        (CacheState.isOpen status → ∀ j, s.Awaiting j →
          ¬ MarkedSince j receipt.note.commitment log)
  | .recovered i _ => Untouched C log s ∧ ∀ wallet, s.procedures i = some (.recovery wallet) →
      ∀ n ∈ s.notes, n.ownerAddress = wallet
  | .written k => (∃ w, s.writes.getLast? = some w ∧ w.completed = false) ∨
      ∀ w, s.writes[k]? = some w → w.notes = s.persisted
  | .writeFailed k => k + 1 < s.writes.length ∨
      ∀ w, s.writes[k]? = some w → w.notes = s.persisted
  | .markNoteSpent _ => True
  | .markBetReceiptSpent _ => True
  | .reconcile _ => True
  | .recover _ => True
  | .recoverFailed _ => True

inductive CacheRun (C : Circomlib F) (s₀ : CacheState F) :
    List (CacheStep F) → CacheState F → Prop
  | nil : CacheRun C s₀ [] s₀
  | snoc {log : List (CacheStep F)} {s s' : CacheState F} {op : CacheOp F}
      (hrun : CacheRun C s₀ log s) (hstep : s.step C op = some s')
      (horderly : Orderly C log s op) : CacheRun C s₀ (log ++ [⟨s, op⟩]) s'

/-- Nothing is awaiting, and all the writes have completed. -/
structure CacheState.Quiet (s : CacheState F) : Prop where
  procedures : ∀ i, ¬ s.Awaiting i
  writes : ∀ w ∈ s.writes, w.completed = true

/-- What a step does to the notes of other wallets, and to those that are spent. -/
structure StepKeeps (C : Circomlib F) (s : CacheState F) (op : CacheOp F) (s' : CacheState F) :
    Prop where
  others : ∀ wallet, op.wallet? s ≠ some wallet →
    getWalletNotes s'.notes wallet = getWalletNotes s.notes wallet
  spent : ∀ c, HasCash s.notes c true → ¬ HasCash s.notes c false → HasCash s'.notes c false →
    ∃ i wallet reads, op = .recovered i reads ∧ s.procedures i = some (.recovery wallet) ∧
      reads.ShowsUnspent C wallet c

/-! ## The array in memory -/

section Memory

omit [Field F] [DecidableEq F]

variable {cells : List (Cell F)}

theorem lookmap_split {α : Type} (f : α → Option α) (l : List α) :
    (l.lookmap f = l ∧ ∀ a ∈ l, f a = none) ∨
      ∃ l₁ a b l₂, l = l₁ ++ a :: l₂ ∧ (∀ x ∈ l₁, f x = none) ∧ f a = some b ∧
        l.lookmap f = l₁ ++ b :: l₂ := by
  induction l with
  | nil => exact .inl ⟨rfl, List.forall_mem_nil _⟩
  | cons a l ih =>
    cases ha : f a with
    | some b =>
      exact .inr ⟨[], a, b, l, rfl, List.forall_mem_nil _, ha, List.lookmap_cons_some _ _ ha⟩
    | none =>
      rw [List.lookmap_cons_none _ _ ha]
      rcases ih with ⟨hl, hnone⟩ | ⟨l₁, c, b, l₂, rfl, hnone, hc, hl⟩
      · refine .inl ⟨by rw [hl], fun x hx => ?_⟩
        rcases List.mem_cons.mp hx with rfl | hx
        · exact ha
        · exact hnone x hx
      · refine .inr ⟨a :: l₁, c, b, l₂, rfl, fun x hx => ?_, hc, by rw [hl]; rfl⟩
        rcases List.mem_cons.mp hx with rfl | hx
        · exact ha
        · exact hnone x hx

/-- The references of the objects of an array differ, and are in use. -/
structure Refs (cells : List (Cell F)) (next : ℕ) : Prop where
  nodup : (cells.map Cell.ref).Nodup
  lt : ∀ c ∈ cells, c.ref < next

theorem Refs.eq_of_ref {next : ℕ} (h : Refs cells next) {c c' : Cell F} (hc : c ∈ cells)
    (hc' : c' ∈ cells) (href : c.ref = c'.ref) : c = c' :=
  List.inj_on_of_nodup_map h.nodup hc hc' href

theorem Refs.mono {next next' : ℕ} (h : Refs cells next) (hle : next ≤ next') :
    Refs cells next' :=
  ⟨h.nodup, fun c hc => (h.lt c hc).trans_le hle⟩

theorem Refs.of_map_ref {next : ℕ} {cells' : List (Cell F)} (h : Refs cells next)
    (hmap : cells'.map Cell.ref = cells.map Cell.ref) : Refs cells' next := by
  refine ⟨hmap ▸ h.nodup, fun c hc => ?_⟩
  have hmem : c.ref ∈ cells.map Cell.ref := hmap ▸ List.mem_map_of_mem hc
  obtain ⟨c', hc', href⟩ := List.mem_map.mp hmem
  exact href ▸ h.lt c' hc'

theorem Refs.append {next : ℕ} (h : Refs cells next) (n : Note F) :
    Refs (cells ++ [⟨next, n⟩]) (next + 1) := by
  refine ⟨?_, fun c hc => ?_⟩
  · rw [List.map_append, List.nodup_append]
    refine ⟨h.nodup, List.nodup_singleton _, ?_⟩
    intro a ha b hb
    obtain ⟨c, hc, rfl⟩ := List.mem_map.mp ha
    rw [List.map_singleton, List.mem_singleton] at hb
    exact hb ▸ (h.lt c hc).ne
  · rcases List.mem_append.mp hc with hc | hc
    · exact (h.lt c hc).trans (Nat.lt_succ_self _)
    · rw [List.mem_singleton.mp hc]
      exact Nat.lt_succ_self _

theorem Refs.replace {next : ℕ} {l₁ l₂ : List (Cell F)} {c : Cell F}
    (h : Refs (l₁ ++ c :: l₂) next) (n : Note F) : Refs (l₁ ++ ⟨next, n⟩ :: l₂) (next + 1) := by
  have hsub : (l₁ ++ l₂).Sublist (l₁ ++ c :: l₂) :=
    (List.sublist_cons_self c l₂).append_left l₁
  have hrest : Refs (l₁ ++ l₂) next :=
    ⟨h.nodup.sublist (hsub.map _), fun x hx => h.lt x (hsub.subset hx)⟩
  have hperm : (l₁ ++ ⟨next, n⟩ :: l₂).Perm (l₁ ++ l₂ ++ [⟨next, n⟩]) :=
    List.perm_middle.trans (List.perm_append_singleton _ _).symm
  have hlast := hrest.append n
  exact ⟨(hperm.map Cell.ref).nodup_iff.mpr hlast.nodup, fun x hx => hlast.lt x (hperm.subset hx)⟩

theorem mem_newCells {ref : ℕ} {notes : List (Note F)} {c : Cell F}
    (hc : c ∈ newCells ref notes) : ref ≤ c.ref ∧ c.ref < ref + notes.length ∧ c.note ∈ notes := by
  induction notes generalizing ref with
  | nil => cases hc
  | cons n notes ih =>
    rcases List.mem_cons.mp hc with rfl | hc
    · exact ⟨le_rfl, by simp, List.mem_cons_self⟩
    · obtain ⟨hle, hlt, hmem⟩ := ih hc
      exact ⟨by omega, by simp only [List.length_cons]; omega, List.mem_cons_of_mem _ hmem⟩

theorem notesOf_newCells (ref : ℕ) (notes : List (Note F)) :
    notesOf (newCells ref notes) = notes := by
  induction notes generalizing ref with
  | nil => rfl
  | cons n notes ih => exact congrArg (n :: ·) (ih (ref + 1))

theorem refs_newCells (ref : ℕ) (notes : List (Note F)) :
    Refs (newCells ref notes) (ref + notes.length) := by
  refine ⟨?_, fun c hc => (mem_newCells hc).2.1⟩
  induction notes generalizing ref with
  | nil => exact List.nodup_nil
  | cons n notes ih =>
    refine List.nodup_cons.mpr ⟨fun hmem => ?_, ih (ref + 1)⟩
    obtain ⟨c, hc, href⟩ := List.mem_map.mp hmem
    have hle := (mem_newCells hc).1
    simp only at href
    omega

end Memory

/-! ## What a step does to the notes -/

section Notes

variable {C : Circomlib F} {log : List (CacheStep F)} {s : CacheState F}

/-- The same note but for its flag: it is a spent one of the wallet, or a healed receipt of it. -/
def Flagged (log : List (CacheStep F)) (s : CacheState F) (wallet : Address) (n n' : Note F) :
    Prop :=
  n' = n ∨ n.ownerAddress = wallet ∧
    (n' = n.markSpent ∨ n.kind = .betReceipt ∧ n' = { n with spent := false } ∧
      ∀ j, s.Awaiting j → ¬ MarkedSince j n.commitment log)

/-- The notes after an orderly step. -/
inductive NotesStep (C : Circomlib F) (log : List (CacheStep F)) (s : CacheState F) :
    CacheOp F → List (Note F) → Prop
  | flags {op : CacheOp F} {notes : List (Note F)} {wallet : Address} (hadds : op.adds C s = [])
      (hmarks : ∀ c ∈ op.marks s, HasSpent notes c)
      (hwallet : op.wallet? s = some wallet ∨ notes = s.notes)
      (h : List.Forall₂ (Flagged log s wallet) s.notes notes) : NotesStep C log s op notes
  | append {op : CacheOp F} {n : Note F} (hop : op = .addNote n ∨ ∃ c, op = .replaceNote c n)
      (hn : Addable s n) : NotesStep C log s op (s.notes ++ [n])
  | replace {c : NoteId F} {n m : Note F} {l₁ l₂ : List (Note F)} (hnotes : s.notes = l₁ ++ m :: l₂)
      (hm : (CacheOp.replaceNote c n).replaces s = some m.commitment)
      (howner : m.ownerAddress = n.ownerAddress) (hn : Addable s n) :
      NotesStep C log s (.replaceNote c n) (l₁ ++ n :: l₂)
  | recovered {i : ℕ} {wallet : Address} {reads : RecoveryReads F}
      (hproc : s.procedures i = some (.recovery wallet))
      (horderly : Orderly C log s (.recovered i reads)) :
      NotesStep C log s (.recovered i reads) (reads.recovered C wallet)

omit [Field F] in
theorem Flagged.commitment {wallet : Address} {n n' : Note F} (h : Flagged log s wallet n n') :
    n'.commitment = n.commitment ∧ n'.kind = n.kind ∧ n'.ownerAddress = n.ownerAddress := by
  rcases h with rfl | ⟨-, rfl | ⟨-, rfl, -⟩⟩ <;> exact ⟨rfl, rfl, rfl⟩

theorem exists_of_forall₂_left {α β : Type} {R : α → β → Prop} {l : List α} {l' : List β}
    (h : List.Forall₂ R l l') {a : α} (ha : a ∈ l) : ∃ b ∈ l', R a b := by
  induction h with
  | nil => cases ha
  | cons hab _ ih =>
    rcases List.mem_cons.mp ha with rfl | ha
    · exact ⟨_, List.mem_cons_self, hab⟩
    · obtain ⟨b, hb, h⟩ := ih ha
      exact ⟨b, List.mem_cons_of_mem _ hb, h⟩

theorem exists_of_forall₂_right {α β : Type} {R : α → β → Prop} {l : List α} {l' : List β}
    (h : List.Forall₂ R l l') {b : β} (hb : b ∈ l') : ∃ a ∈ l, R a b :=
  exists_of_forall₂_left h.flip hb

/-- What was added while a procedure awaited is not lost. -/
theorem NotesStep.has {op : CacheOp F} {notes : List (Note F)} (h : NotesStep C log s op notes)
    {j : ℕ} {c : NoteId F} (hj : s.Awaiting j) (hsince : AddedSince C j c log)
    (hc : Has s.notes c) (hkept : op.replaces s ≠ some c) : Has notes c := by
  obtain ⟨n, hn, rfl⟩ := hc
  cases h with
  | flags _ _ _ hflags =>
    obtain ⟨n', hn', hf⟩ := exists_of_forall₂_left hflags hn
    exact ⟨n', hn', hf.commitment.1⟩
  | append => exact ⟨n, List.mem_append_left _ hn, rfl⟩
  | @replace _ _ m l₁ l₂ hnotes hm =>
    rw [hnotes] at hn
    rcases List.mem_append.mp hn with hn | hn
    · exact ⟨n, List.mem_append_left _ hn, rfl⟩
    · rcases List.mem_cons.mp hn with rfl | hn
      · exact absurd hm hkept
      · exact ⟨n, List.mem_append_right _ (List.mem_cons_of_mem _ hn), rfl⟩
  | recovered hproc horderly => exact absurd hsince (horderly.1 j _ hj).1

theorem NotesStep.hasSpent {op : CacheOp F} {notes : List (Note F)}
    (h : NotesStep C log s op notes) {j : ℕ} {c : NoteId F} (hj : s.Awaiting j)
    (hsince : MarkedSince j c log) (hc : HasSpent s.notes c) (hkept : op.replaces s ≠ some c) :
    HasSpent notes c := by
  obtain ⟨n, hn, rfl, hspent⟩ := hc
  cases h with
  | flags _ _ _ hflags =>
    obtain ⟨n', hn', hf⟩ := exists_of_forall₂_left hflags hn
    rcases hf with rfl | ⟨-, rfl | ⟨-, -, hmarked⟩⟩
    · exact ⟨n', hn', rfl, hspent⟩
    · exact ⟨_, hn', rfl, rfl⟩
    · exact absurd hsince (hmarked j hj)
  | append => exact ⟨n, List.mem_append_left _ hn, rfl, hspent⟩
  | @replace _ _ m l₁ l₂ hnotes hm =>
    rw [hnotes] at hn
    rcases List.mem_append.mp hn with hn | hn
    · exact ⟨n, List.mem_append_left _ hn, rfl, hspent⟩
    · rcases List.mem_cons.mp hn with rfl | hn
      · exact absurd hm hkept
      · exact ⟨n, List.mem_append_right _ (List.mem_cons_of_mem _ hn), rfl, hspent⟩
  | recovered hproc horderly => exact absurd hsince (horderly.1 j _ hj).2

theorem NotesStep.adds {op : CacheOp F} {notes : List (Note F)} (h : NotesStep C log s op notes)
    {c : NoteId F} (hc : c ∈ op.adds C s) : Has notes c := by
  cases h with
  | flags hadds =>
    rw [hadds] at hc
    cases hc
  | @append _ n hop =>
    have hadds : op.adds C s = [n.commitment] := by rcases hop with rfl | ⟨c, rfl⟩ <;> rfl
    rw [hadds, List.mem_singleton] at hc
    exact ⟨n, List.mem_append_right _ (List.mem_singleton_self n), hc.symm⟩
  | replace =>
    exact ⟨_, List.mem_append_right _ List.mem_cons_self, (List.mem_singleton.mp hc).symm⟩
  | recovered hproc =>
    simp only [CacheOp.adds, hproc] at hc
    exact List.mem_map.mp hc

theorem NotesStep.marks {op : CacheOp F} {notes : List (Note F)} (h : NotesStep C log s op notes)
    {c : NoteId F} (hc : c ∈ op.marks s) : HasSpent notes c := by
  cases h with
  | flags _ hmarks => exact hmarks c hc
  | append hop => rcases hop with rfl | ⟨_, rfl⟩ <;> cases hc
  | replace => cases hc
  | recovered => cases hc

omit [Field F] [DecidableEq F] in
theorem getWalletNotes_append (l₁ l₂ : List (Note F)) (wallet : Address) :
    getWalletNotes (l₁ ++ l₂) wallet = getWalletNotes l₁ wallet ++ getWalletNotes l₂ wallet :=
  List.filter_append _ _

omit [Field F] [DecidableEq F] in
theorem getWalletNotes_eq_nil {notes : List (Note F)} {wallet : Address}
    (h : ∀ n ∈ notes, n.ownerAddress ≠ wallet) : getWalletNotes notes wallet = [] :=
  List.filter_eq_nil_iff.mpr fun n hn => by simpa using h n hn

omit [Field F] [DecidableEq F] in
theorem getWalletNotes_cons_of_ne {n : Note F} {notes : List (Note F)} {wallet : Address}
    (h : n.ownerAddress ≠ wallet) :
    getWalletNotes (n :: notes) wallet = getWalletNotes notes wallet :=
  List.filter_cons_of_neg (by simpa using h)

omit [Field F] in
theorem getWalletNotes_flagged {notes notes' : List (Note F)} {w wallet : Address}
    (h : List.Forall₂ (Flagged log s w) notes notes') (hne : w ≠ wallet) :
    getWalletNotes notes' wallet = getWalletNotes notes wallet := by
  induction h with
  | nil => rfl
  | @cons n n' notes notes' hf _ ih =>
    by_cases howner : n.ownerAddress = wallet
    · rcases hf with rfl | ⟨rfl, -⟩
      · unfold getWalletNotes at ih ⊢
        simp only [List.filter_cons, ih]
      · exact absurd howner hne
    · have howner' : n'.ownerAddress ≠ wallet := hf.commitment.2.2 ▸ howner
      rw [getWalletNotes_cons_of_ne howner, getWalletNotes_cons_of_ne howner', ih]

/-- The notes of the other wallets are as before, and a spent cash note is not unspent but by what
a recovery has found. -/
theorem NotesStep.keeps {op : CacheOp F} {s' : CacheState F} (h : NotesStep C log s op s'.notes) :
    StepKeeps C s op s' := by
  generalize hnotes : s'.notes = notes at h
  refine ⟨fun wallet hw => ?_, fun c hspent hno hc => ?_⟩
  · rw [hnotes]
    cases h with
    | flags _ _ hwallet hflags =>
      rcases hwallet with hwallet | rfl
      · exact getWalletNotes_flagged hflags fun heq => hw (heq ▸ hwallet)
      · rfl
    | @append _ n hop =>
      have hne : n.ownerAddress ≠ wallet := by
        rintro rfl
        rcases hop with rfl | ⟨_, rfl⟩ <;> exact hw rfl
      rw [getWalletNotes_append, getWalletNotes_cons_of_ne hne]
      exact List.append_nil _
    | @replace _ n m l₁ l₂ hm _ howner =>
      have hne : n.ownerAddress ≠ wallet := fun heq => hw (congrArg some heq)
      rw [hm, getWalletNotes_append, getWalletNotes_append, getWalletNotes_cons_of_ne hne,
        getWalletNotes_cons_of_ne (howner ▸ hne)]
    | @recovered _ w ns hproc horderly =>
      have hne : w ≠ wallet := by
        rintro rfl
        exact hw (by simp only [CacheOp.wallet?, hproc]; rfl)
      have hmem := horderly.2 w hproc
      have hbefore : getWalletNotes s.notes wallet = [] :=
        getWalletNotes_eq_nil fun n hn => hmem n hn ▸ hne
      rw [hbefore]
      refine getWalletNotes_eq_nil fun n hn => ?_
      rw [RecoveryReads.ownerAddress_recovered hn]
      exact hne
  · rw [hnotes] at hc
    obtain ⟨n, hn, rfl, hkind, hunspent⟩ := hc
    cases h with
    | flags _ _ _ hflags =>
      obtain ⟨m, hm, hf⟩ := exists_of_forall₂_right hflags hn
      rcases hf with rfl | ⟨-, rfl | ⟨hreceipt, rfl, -⟩⟩
      · exact absurd ⟨n, hm, rfl, hkind, hunspent⟩ hno
      · cases hunspent
      · exact absurd hreceipt hkind
    | append _ hadd =>
      rcases List.mem_append.mp hn with hn | hn
      · exact absurd ⟨n, hn, rfl, hkind, hunspent⟩ hno
      · obtain rfl := List.mem_singleton.mp hn
        exact absurd (hadd hkind hunspent hspent) hno
    | @replace _ _ m l₁ l₂ hm _ _ hadd =>
      rw [hm] at hno
      rcases List.mem_append.mp hn with hn | hn
      · exact absurd ⟨n, List.mem_append_left _ hn, rfl, hkind, hunspent⟩ hno
      · rcases List.mem_cons.mp hn with rfl | hn
        · have hcash := hadd hkind hunspent hspent
          rw [hm] at hcash
          exact absurd hcash hno
        · exact absurd ⟨n, List.mem_append_right _ (List.mem_cons_of_mem _ hn), rfl, hkind,
            hunspent⟩ hno
    | @recovered i w reads hproc =>
      exact ⟨i, w, reads, rfl, hproc, RecoveryReads.showsUnspent hn hkind hunspent⟩

end Notes

/-! ## What a step does to the cache -/

section Cache

variable {C : Circomlib F} {log : List (CacheStep F)} {s : CacheState F}

namespace CacheState

/-- What was saved last. -/
def lastSaved (s : CacheState F) : List (Note F) :=
  match s.writes.getLast? with
  | some w => w.notes
  | none => s.persisted

end CacheState

/-- The note object of a cell is the one `c`, or a new one. -/
def SameCell (cells : List (Cell F)) (next : ℕ) (c' : Cell F) : Prop :=
  next ≤ c'.ref ∨ ∃ c ∈ cells, c'.ref = c.ref ∧ c'.note.kind = c.note.kind ∧
    c'.note.ownerAddress = c.note.ownerAddress ∧ c'.note.commitment = c.note.commitment

/-- A hidden receipt of the wallet that is still in memory is one there too. -/
def HiddenOk (s : CacheState F) (wallet : Address) (notes : ℕ) (h : Cell F) : Prop :=
  notes = s.cachedNotes → h.ref < s.next ∧ ∀ c ∈ s.loadAll, c.ref = h.ref →
    c.note.kind = .betReceipt ∧ c.note.ownerAddress = wallet ∧
      c.note.commitment = h.note.commitment

structure ReconcileOk (s : CacheState F) (r : Reconcile F) : Prop where
  array : r.notes < s.next
  hidden : ∀ receipt hidden, r.stage = .betStatus receipt hidden →
    ∀ h ∈ receipt :: hidden, HiddenOk s r.wallet r.notes h

structure CacheWf (s : CacheState F) : Prop where
  refs : Refs s.loadAll s.next
  memory : s.cachedNotes < s.next
  unused : ∀ i, s.next ≤ i → s.procedures i = none
  reconciles : ∀ i r, s.procedures i = some (.reconcile r) → ReconcileOk s r
  persisted : ∀ w, s.writes.getLast? = some w → w.completed = true → s.persisted = w.notes

/-- What is in memory was saved, or one of the reconciles still has it to save, the `i`-th one if
`changed`. -/
def SavedBut (s : CacheState F) (i : ℕ) (changed : Prop) : Prop :=
  s.notes = s.lastSaved ∨ changed ∨ ∃ j r, j ≠ i ∧ s.procedures j = some (.reconcile r) ∧
    r.notes = s.cachedNotes ∧ r.changed = true

def Saved (s : CacheState F) : Prop :=
  s.notes = s.lastSaved ∨ ∃ j r, s.procedures j = some (.reconcile r) ∧
    r.notes = s.cachedNotes ∧ r.changed = true

structure Evolves (s s' : CacheState F) : Prop where
  next : s.next ≤ s'.next
  memory : s.next ≤ s'.cachedNotes ∨ s'.cachedNotes = s.cachedNotes ∧
    ∀ c ∈ s'.loadAll, SameCell s.loadAll s.next c

omit [Field F] [DecidableEq F] in
theorem SameCell.of_mem {cells : List (Cell F)} {next : ℕ} {c : Cell F} (hc : c ∈ cells) :
    SameCell cells next c :=
  .inr ⟨c, hc, rfl, rfl, rfl, rfl⟩

omit [Field F] [DecidableEq F] in
theorem HiddenOk.evolves {s' : CacheState F} {wallet : Address} {notes : ℕ} {h : Cell F}
    (hok : HiddenOk s wallet notes h) (hnotes : notes < s.next) (hev : Evolves s s') :
    HiddenOk s' wallet notes h := by
  intro heq
  rcases hev.memory with hfresh | ⟨hsame, hcells⟩
  · rw [heq] at hnotes
    exact absurd hfresh (not_le.mpr hnotes)
  · obtain ⟨hlt, hmem⟩ := hok (heq.trans hsame)
    refine ⟨hlt.trans_le hev.next, fun c hc href => ?_⟩
    rcases hcells c hc with hfresh | ⟨c₀, hc₀, href₀, hkind, howner, hcommitment⟩
    · rw [href] at hfresh
      exact absurd hfresh (not_le.mpr hlt)
    · rw [hkind, howner, hcommitment]
      exact hmem c₀ hc₀ (href₀ ▸ href)

omit [Field F] [DecidableEq F] in
theorem ReconcileOk.evolves {s' : CacheState F} {r : Reconcile F} (hr : ReconcileOk s r)
    (hev : Evolves s s') : ReconcileOk s' r where
  array := hr.array.trans_le hev.next
  hidden receipt hidden hstage h hh := (hr.hidden receipt hidden hstage h hh).evolves hr.array hev

omit [Field F] [DecidableEq F] in
theorem Saved.savedBut {i : ℕ} {p : Option (Procedure F)} (h : Saved s)
    (hp : s.procedures i = p) : SavedBut s i (∃ r, p = some (.reconcile r) ∧
      r.notes = s.cachedNotes ∧ r.changed = true) := by
  rcases h with h | ⟨j, r, hj, hnotes, hchanged⟩
  · exact .inl h
  · by_cases hji : j = i
    · subst hji
      exact .inr (.inl ⟨r, hp ▸ hj, hnotes, hchanged⟩)
    · exact .inr (.inr ⟨j, r, hji, hj, hnotes, hchanged⟩)

omit [Field F] [DecidableEq F] in
theorem write_ok {k : ℕ} {cells : List (Cell F)} (h : CacheWf s)
    (hrefs : Refs cells (s.next + k)) (hcells : ∀ c ∈ cells, SameCell s.loadAll s.next c) :
    ((s.alloc k).write cells).notes = notesOf cells ∧
      CacheWf ((s.alloc k).write cells) ∧ Saved ((s.alloc k).write cells) := by
  have hload : ((s.alloc k).write cells).loadAll = cells := Function.update_self ..
  have hnotes : ((s.alloc k).write cells).notes = notesOf cells := congrArg notesOf hload
  have hlast : ((s.alloc k).write cells).writes.getLast? = some ⟨notesOf cells, false⟩ := by
    simp only [CacheState.write, CacheState.saveAll, List.getLast?_append, List.getLast?_singleton,
      Option.some_or, CacheState.setArray, CacheState.alloc, Function.update_self]
  have hev : Evolves s ((s.alloc k).write cells) :=
    ⟨Nat.le_add_right _ _, .inr ⟨rfl, by rw [hload]; exact hcells⟩⟩
  refine ⟨hnotes, ⟨by rw [hload]; exact hrefs,
    h.memory.trans_le (Nat.le_add_right _ _),
    fun i hi => h.unused i (le_trans (Nat.le_add_right _ _) hi),
    fun i r hr => (h.reconciles i r hr).evolves hev, fun w hw hcompleted => ?_⟩, .inl ?_⟩
  · rw [hlast] at hw
    cases hw
    cases hcompleted
  · rw [hnotes, CacheState.lastSaved, hlast]

end Cache

/-! ## Every operation -/

section Operations

variable {C : Circomlib F} {log : List (CacheStep F)} {s : CacheState F}

omit [Field F] [DecidableEq F] in
theorem evolves_of_memory {s' : CacheState F} (hnext : s.next ≤ s'.next)
    (hcached : s'.cachedNotes = s.cachedNotes) (hload : s'.loadAll = s.loadAll) :
    Evolves s s' :=
  ⟨hnext, .inr ⟨hcached, fun _ hc => .of_mem (hload ▸ hc)⟩⟩

omit [Field F] in
theorem flagged_refl {wallet : Address} (notes : List (Note F)) :
    List.Forall₂ (Flagged log s wallet) notes notes :=
  List.forall₂_same.mpr fun _ _ => .inl rfl

theorem notesStep_same {op : CacheOp F} (hadds : op.adds C s = [])
    (hmarks : ∀ c ∈ op.marks s, HasSpent s.notes c) : NotesStep C log s op s.notes :=
  @NotesStep.flags _ _ _ C log s op s.notes 0 hadds hmarks (.inr rfl) (flagged_refl _)

omit [Field F] [DecidableEq F] in
theorem setProcedure_self {i : ℕ} {p : Option (Procedure F)} :
    (s.setProcedure i p).procedures i = p :=
  Function.update_self ..

omit [Field F] [DecidableEq F] in
theorem setProcedure_of_ne {i j : ℕ} {p : Option (Procedure F)} (h : j ≠ i) :
    (s.setProcedure i p).procedures j = s.procedures j := by
  simp only [CacheState.setProcedure, Function.update_of_ne h]

omit [Field F] [DecidableEq F] in
theorem CacheWf.alloc (h : CacheWf s) (k : ℕ) : CacheWf (s.alloc k) where
  refs := h.refs.mono (Nat.le_add_right _ _)
  memory := h.memory.trans_le (Nat.le_add_right _ _)
  unused i hi := h.unused i (le_trans (Nat.le_add_right _ _) hi)
  reconciles i r hr := (h.reconciles i r hr).evolves
    (evolves_of_memory (Nat.le_add_right _ _) rfl rfl)
  persisted := h.persisted

omit [Field F] [DecidableEq F] in
theorem CacheWf.setProcedure {i : ℕ} {p : Option (Procedure F)} (h : CacheWf s) (hi : i < s.next)
    (hp : ∀ r, p = some (.reconcile r) → ReconcileOk s r) : CacheWf (s.setProcedure i p) where
  refs := h.refs
  memory := h.memory
  unused j hj := by
    rw [setProcedure_of_ne (hi.trans_le hj).ne']
    exact h.unused j hj
  reconciles j r hr := by
    have hok : ReconcileOk s r := by
      by_cases hj : j = i
      · subst hj
        rw [setProcedure_self] at hr
        exact hp r hr
      · rw [setProcedure_of_ne hj] at hr
        exact h.reconciles j r hr
    exact hok.evolves (evolves_of_memory le_rfl rfl rfl)
  persisted := h.persisted

omit [Field F] [DecidableEq F] in
theorem CacheWf.saveAll (h : CacheWf s) :
    (s.saveAll s.cachedNotes).notes = s.notes ∧ CacheWf (s.saveAll s.cachedNotes) ∧
      Saved (s.saveAll s.cachedNotes) := by
  have hlast : (s.saveAll s.cachedNotes).writes.getLast? = some ⟨s.notes, false⟩ := by
    simp only [CacheState.saveAll, List.getLast?_append, List.getLast?_singleton, Option.some_or]
    rfl
  refine ⟨rfl, ⟨h.refs, h.memory, h.unused, fun i r hr => (h.reconciles i r hr).evolves
    (evolves_of_memory le_rfl rfl rfl), fun w hw hcompleted => ?_⟩, .inl ?_⟩
  · rw [hlast] at hw
    cases hw
    cases hcompleted
  · rw [CacheState.lastSaved, hlast]
    rfl

omit [Field F] [DecidableEq F] in
/-- A reconcile goes on to the next receipt, or ends. -/
theorem healNext_ok {i a : ℕ} {wallet : Address} {changed : Bool} {hidden : List (Cell F)}
    (h : CacheWf s) (hi : i < s.next) (ha : a < s.next)
    (hmemory : changed = true → a = s.cachedNotes) (hsaved : SavedBut s i (changed = true))
    (hhidden : ∀ x ∈ hidden, HiddenOk s wallet a x) :
    (s.healNext i wallet a changed hidden).notes = s.notes ∧
      CacheWf (s.healNext i wallet a changed hidden) ∧
      Saved (s.healNext i wallet a changed hidden) := by
  cases hidden with
  | cons receipt hidden =>
    refine ⟨rfl, h.setProcedure hi fun r hr => ?_, ?_⟩
    · cases hr
      refine ⟨ha, fun receipt' hidden' hstage => ?_⟩
      cases hstage
      exact hhidden
    · rcases hsaved with hsaved | hchanged | ⟨j, r, hj, hproc, hr⟩
      · exact .inl hsaved
      · exact .inr ⟨i, _, setProcedure_self, hmemory hchanged, hchanged⟩
      · exact .inr ⟨j, r, (setProcedure_of_ne hj).trans hproc, hr⟩
  | nil =>
    have hnone : CacheWf (s.setProcedure i none) := h.setProcedure hi fun r hr => by cases hr
    cases changed with
    | true =>
      rw [hmemory rfl]
      exact hnone.saveAll
    | false =>
      refine ⟨rfl, hnone, ?_⟩
      rcases hsaved with hsaved | hc | ⟨j, r, hj, hproc, hr⟩
      · exact .inl hsaved
      · cases hc
      · exact .inr ⟨j, r, (setProcedure_of_ne hj).trans hproc, hr⟩

theorem heal_ok {i a : ℕ} {wallet : Address} {changed : Bool} (h : CacheWf s) (hi : i < s.next)
    (ha : a < s.next) (hmemory : changed = true → a = s.cachedNotes)
    (hsaved : SavedBut s i (changed = true)) :
    (s.heal i wallet a changed).notes = s.notes ∧ CacheWf (s.heal i wallet a changed) ∧
      Saved (s.heal i wallet a changed) := by
  unfold CacheState.heal
  split
  · exact healNext_ok h hi ha hmemory hsaved (List.forall_mem_nil _)
  · have hwf : CacheWf
        { s with receiptsHealedThisSession := wallet :: s.receiptsHealedThisSession } :=
      ⟨h.refs, h.memory, h.unused, fun j r hr => (h.reconciles j r hr).evolves
        (evolves_of_memory le_rfl rfl rfl), h.persisted⟩
    refine healNext_ok hwf hi ha hmemory hsaved fun x hx heq => ?_
    -- a receipt that is hidden is in the array, where its reference is its own
    obtain ⟨hx, hhidden⟩ := List.mem_filter.mp hx
    subst heq
    refine ⟨h.refs.lt x hx, fun c hc href => ?_⟩
    rw [h.refs.eq_of_ref hc hx href]
    simp only [CacheState.isHidden, Bool.and_eq_true, decide_eq_true_eq] at hhidden
    exact ⟨hhidden.1.1.2, hhidden.1.2, rfl⟩

def StepOk (C : Circomlib F) (log : List (CacheStep F)) (s : CacheState F) (op : CacheOp F)
    (s' : CacheState F) : Prop :=
  NotesStep C log s op s'.notes ∧ CacheWf s' ∧ Saved s'

omit [Field F] [DecidableEq F] in
theorem loadAll_setArray_self (cells : List (Cell F)) :
    (s.setArray s.cachedNotes cells).loadAll = cells :=
  Function.update_self ..

omit [Field F] [DecidableEq F] in
theorem loadAll_setArray_of_ne {a : ℕ} (ha : a ≠ s.cachedNotes) (cells : List (Cell F)) :
    (s.setArray a cells).loadAll = s.loadAll := by
  simp only [CacheState.loadAll, CacheState.setArray, Function.update_of_ne ha.symm]

omit [Field F] [DecidableEq F] in
theorem evolves_setFlags {a : ℕ} {g : Cell F → Cell F} (hg : ∀ c, ∃ spent, g c = c.setSpent spent) :
    Evolves s (s.setArray a ((s.arrays a).map g)) := by
  by_cases ha : a = s.cachedNotes
  · subst ha
    refine ⟨le_rfl, .inr ⟨rfl, fun c hc => ?_⟩⟩
    rw [loadAll_setArray_self] at hc
    obtain ⟨c₀, hc₀, rfl⟩ := List.mem_map.mp hc
    obtain ⟨spent, hspent⟩ := hg c₀
    rw [hspent]
    exact .inr ⟨c₀, hc₀, rfl, rfl, rfl, rfl⟩
  · exact evolves_of_memory le_rfl rfl (loadAll_setArray_of_ne ha _)

omit [Field F] [DecidableEq F] in
theorem CacheWf.setFlags {a : ℕ} {g : Cell F → Cell F} (h : CacheWf s)
    (hg : ∀ c, ∃ spent, g c = c.setSpent spent) :
    CacheWf (s.setArray a ((s.arrays a).map g)) := by
  have hmemory : Refs (s.setArray a ((s.arrays a).map g)).loadAll s.next := by
    by_cases ha : a = s.cachedNotes
    · subst ha
      rw [loadAll_setArray_self]
      refine h.refs.of_map_ref ?_
      rw [List.map_map]
      refine List.map_congr_left fun c _ => ?_
      obtain ⟨spent, hc⟩ := hg c
      rw [Function.comp_apply, hc]
      rfl
    · rw [loadAll_setArray_of_ne ha]
      exact h.refs
  exact ⟨hmemory, h.memory, h.unused,
    fun j r hr => (h.reconciles j r hr).evolves (evolves_setFlags hg), h.persisted⟩

omit [Field F] in
theorem write_flags {cells cells' : List (Cell F)} {wallet : Address}
    (h : List.Forall₂ (fun c c' => Flagged log s wallet c.note c'.note) cells cells') :
    List.Forall₂ (Flagged log s wallet) (notesOf cells) (notesOf cells') :=
  List.forall₂_map_left_iff.mpr (List.forall₂_map_right_iff.mpr h)

omit [Field F] [DecidableEq F] in
theorem any_false_map {l : List (Note F)} {p : Note F → Bool} (h : l.any p = false) :
    ∀ n ∈ l, p n = false := by
  simpa using h

omit [Field F] [DecidableEq F] in
theorem loadAll_split {p : Note F → Bool} (hany : s.notes.any p = true) (g : Cell F → Cell F) :
    ∃ l₁ c l₂, s.loadAll = l₁ ++ c :: l₂ ∧ p c.note = true ∧
      s.notes.find? p = some c.note ∧
      s.loadAll.lookmap (fun c => if p c.note then some (g c) else none) = l₁ ++ g c :: l₂ := by
  rcases lookmap_split (fun c : Cell F => if p c.note then some (g c) else none) s.loadAll with
    ⟨-, hnone⟩ | ⟨l₁, c, d, l₂, hcells, hnone, hc, hl⟩
  · obtain ⟨n, hn, hp⟩ := List.any_eq_true.mp hany
    obtain ⟨c, hc, rfl⟩ := List.mem_map.mp hn
    have hno := hnone c hc
    rw [if_pos hp] at hno
    cases hno
  · have hp : p c.note = true := by
      by_contra hp
      rw [if_neg hp] at hc
      cases hc
    rw [if_pos hp, Option.some.injEq] at hc
    have hnotes : s.notes = notesOf l₁ ++ c.note :: notesOf l₂ := by
      rw [CacheState.notes, hcells]
      exact List.map_append
    refine ⟨l₁, c, l₂, hcells, hp, ?_, by rw [hl, hc]⟩
    refine List.find?_eq_some_iff_append.mpr ⟨hp, _, _, hnotes, fun n hn => ?_⟩
    obtain ⟨x, hx, rfl⟩ := List.mem_map.mp hn
    by_contra hpx
    have hno := hnone x hx
    rw [if_pos (by simpa using hpx)] at hno
    cases hno

omit [Field F] [DecidableEq F] in
theorem sameCell_middle {l₁ l₂ : List (Cell F)} {c d : Cell F} (hcells : s.loadAll = l₁ ++ c :: l₂)
    (hd : SameCell s.loadAll s.next d) :
    ∀ x ∈ l₁ ++ d :: l₂, SameCell s.loadAll s.next x := by
  intro x hx
  rcases List.mem_append.mp hx with hx | hx
  · exact .of_mem (hcells ▸ List.mem_append_left _ hx)
  · rcases List.mem_cons.mp hx with rfl | hx
    · exact hd
    · exact .of_mem (hcells ▸ List.mem_append_right _ (List.mem_cons_of_mem _ hx))

theorem stepOk_markFirst {op : CacheOp F} {p : Note F → Bool} (h : CacheWf s) (hs : Saved s)
    (hadds : op.adds C s = [])
    (hmarks : op.marks s = ((s.notes.find? p).map Note.commitment).toList)
    (hwallet : op.wallet? s = (s.notes.find? p).map Note.ownerAddress) :
    StepOk C log s op (s.markFirst p) := by
  unfold CacheState.markFirst
  split
  next hany =>
    obtain ⟨l₁, c, l₂, hcells, hp, hfind, hl⟩ := loadAll_split hany fun c => c.setSpent true
    rw [hl]
    have hmem : c ∈ s.loadAll := hcells ▸ List.mem_append_right _ List.mem_cons_self
    have hcell := sameCell_middle hcells (d := c.setSpent true) (.inr ⟨c, hmem, rfl, rfl, rfl, rfl⟩)
    have hflags : List.Forall₂ (Flagged log s c.note.ownerAddress) s.notes
        (notesOf (l₁ ++ c.setSpent true :: l₂)) := by
      rw [CacheState.notes, hcells]
      exact write_flags (List.rel_append (List.forall₂_same.mpr fun _ _ => .inl rfl)
        (.cons (.inr ⟨rfl, .inl rfl⟩)
          (List.forall₂_same.mpr fun _ _ => .inl rfl)))
    have hrefs : Refs (l₁ ++ c.setSpent true :: l₂) (s.next + 0) := by
      refine h.refs.of_map_ref ?_
      rw [hcells, List.map_append, List.map_append]
      rfl
    obtain ⟨hn, hwf, hsaved⟩ := write_ok (k := 0) h hrefs hcell
    refine ⟨?_, hwf, hsaved⟩
    change NotesStep C log s op ((s.alloc 0).write (l₁ ++ c.setSpent true :: l₂)).notes
    rw [hn]
    refine .flags hadds (fun x hx => ?_) (.inl (by rw [hwallet, hfind]; rfl)) hflags
    rw [hmarks, hfind] at hx
    refine ⟨(c.setSpent true).note, List.mem_map_of_mem (List.mem_append_right _
      List.mem_cons_self), (List.mem_singleton.mp hx).symm, rfl⟩
  next hany =>
    have hnone : s.notes.find? p = none := by simpa using hany
    refine ⟨notesStep_same hadds fun c hc => ?_, h, hs⟩
    rw [hmarks, hnone] at hc
    cases hc

theorem stepOk_addNote {op : CacheOp F} {n : Note F} (h : CacheWf s)
    (hop : op = .addNote n ∨ ∃ c, op = .replaceNote c n) (hn : Addable s n) :
    StepOk C log s op (s.addNote n) := by
  have hcells : ∀ c ∈ s.loadAll ++ [⟨s.next, n⟩], SameCell s.loadAll s.next c := by
    intro c hc
    rcases List.mem_append.mp hc with hc | hc
    · exact .of_mem hc
    · rw [List.mem_singleton.mp hc]
      exact .inl le_rfl
  have happend : notesOf (s.loadAll ++ [⟨s.next, n⟩]) = s.notes ++ [n] := List.map_append
  obtain ⟨hnotes, hwf, hsaved⟩ := write_ok (k := 1) h (h.refs.append n) hcells
  refine ⟨?_, hwf, hsaved⟩
  unfold CacheState.addNote
  rw [hnotes, happend]
  exact .append hop hn

theorem stepOk_replaceNote {noteId : NoteId F} {n : Note F} (h : CacheWf s) (hn : Addable s n)
    (howner : ∀ m, s.notes.find? (fun m => m.isOf noteId) = some m →
      m.ownerAddress = n.ownerAddress) :
    StepOk C log s (.replaceNote noteId n) (s.replaceNote noteId n) := by
  unfold CacheState.replaceNote
  split
  next hany =>
    obtain ⟨l₁, c, l₂, hcells, hp, hfind, hl⟩ := loadAll_split hany fun _ => ⟨s.next, n⟩
    simp only [decide_eq_true_eq] at hl hp
    rw [hl]
    have hnotes : s.notes = notesOf l₁ ++ c.note :: notesOf l₂ := by
      rw [CacheState.notes, hcells]
      exact List.map_append
    have hafter : notesOf (l₁ ++ ⟨s.next, n⟩ :: l₂) = notesOf l₁ ++ n :: notesOf l₂ :=
      List.map_append
    have hstep : NotesStep C log s (.replaceNote noteId n) (notesOf l₁ ++ n :: notesOf l₂) :=
      .replace hnotes (congrArg (Option.map Note.commitment) hfind) (howner _ hfind) hn
    have hcell := sameCell_middle hcells (d := ⟨s.next, n⟩) (.inl le_rfl)
    obtain ⟨hwritten, hwf, hsaved⟩ := write_ok (k := 1) h
      (Refs.replace (hcells ▸ h.refs) n) hcell
    refine ⟨?_, hwf, hsaved⟩
    rw [hwritten, hafter]
    exact hstep
  next hany => exact stepOk_addNote h (.inr ⟨_, rfl⟩) hn

omit [Field F] [DecidableEq F] in
theorem savedBut_next (h : CacheWf s) (hs : Saved s) (changed : Prop) :
    SavedBut (s.alloc 1) s.next changed := by
  rcases hs with hs | ⟨j, r, hproc, hr⟩
  · exact .inl hs
  · refine .inr (.inr ⟨j, r, fun hj => ?_, hproc, hr⟩)
    rw [hj, h.unused s.next le_rfl] at hproc
    cases hproc

theorem stepOk_reconcile {wallet : Address} (h : CacheWf s) (hs : Saved s) :
    StepOk C log s (.reconcile wallet) (s.reconcile wallet) := by
  have halloc := h.alloc 1
  have hnext : s.next < (s.alloc 1).next := Nat.lt_succ_self _
  have hmem : s.cachedNotes < (s.alloc 1).next := h.memory.trans hnext
  unfold CacheState.reconcile
  split
  next =>
    obtain ⟨hnotes, hwf, hsaved⟩ := @heal_ok _ _ _ _ s.next s.cachedNotes wallet false halloc
      hnext hmem (fun hc => by cases hc) (savedBut_next h hs (false = true))
    refine ⟨?_, hwf, hsaved⟩
    rw [hnotes]
    exact notesStep_same rfl fun c hc => by cases hc
  next candidates hne =>
    refine ⟨notesStep_same rfl (List.forall_mem_nil _),
      halloc.setProcedure hnext fun r hr => ?_, ?_⟩
    · cases hr
      exact ⟨hmem, fun _ _ hstage => by cases hstage⟩
    · rcases savedBut_next h hs False with hsaved | hf | ⟨j, r, hj, hproc, hr⟩
      · exact .inl hsaved
      · exact hf.elim
      · exact .inr ⟨j, r, (setProcedure_of_ne hj).trans hproc, hr⟩

omit [Field F] in
theorem map_spent_of_none {cells : List (Cell F)} {asked spent : List F}
    (h : (notesOf cells).any (CacheState.isSpent asked spent) = false) :
    (cells.map fun c => if CacheState.isSpent asked spent c.note then c.setSpent true else c)
      = cells := by
  refine (List.map_congr_left fun c hc => ?_).trans (List.map_id _)
  rw [if_neg (by simpa using any_false_map h c.note (List.mem_map_of_mem hc))]
  rfl

omit [Field F] in
theorem marks_spentNullifiers {i : ℕ} {r : Reconcile F} {asked spent : List F}
    (hproc : s.procedures i = some (.reconcile r)) (hstage : r.stage = .spentNullifiers asked) :
    (CacheOp.spentNullifiers i spent).marks s = if r.notes = s.cachedNotes then
      (s.notes.filter (CacheState.isSpent asked spent)).map Note.commitment else [] := by
  obtain ⟨wallet, notes, changed, stage⟩ := r
  simp only at hstage
  subst hstage
  simp only [CacheOp.marks, hproc]

omit [Field F] [DecidableEq F] in
theorem lt_of_running {i : ℕ} {p : Procedure F} (h : CacheWf s)
    (hproc : s.procedures i = some p) : i < s.next := by
  by_contra hi
  rw [h.unused i (not_lt.mp hi)] at hproc
  cases hproc

omit [Field F] [DecidableEq F] in
/-- A segment that has nothing to save leaves memory as it is. -/
theorem savedBut_setArray {i a : ℕ} {cells : List (Cell F)} {r : Reconcile F} {changed : Bool}
    (hs : Saved s) (hproc : s.procedures i = some (.reconcile r))
    (hsame : changed = false → (s.setArray a cells).notes = s.notes ∧ r.changed = false) :
    SavedBut (s.setArray a cells) i (changed = true) := by
  cases changed with
  | true => exact .inr (.inl rfl)
  | false =>
    obtain ⟨hnotes, hchanged⟩ := hsame rfl
    rcases hs with hs | ⟨j, r', hj, hr'⟩
    · exact .inl (hnotes.trans hs)
    · refine .inr (.inr ⟨j, r', fun hji => ?_, hj, hr'⟩)
      rw [hji, hproc] at hj
      cases hj
      rw [hchanged] at hr'
      cases hr'.2

theorem markAsked_notesStep {i : ℕ} {r : Reconcile F} {asked spent : List F}
    (hproc : s.procedures i = some (.reconcile r)) (hstage : r.stage = .spentNullifiers asked)
    (howner : ∀ n ∈ notesOf (s.arrays r.notes), n.nullifier ∈ asked → n.ownerAddress = r.wallet) :
    NotesStep C log s (.spentNullifiers i spent) (s.markAsked r.notes asked spent).notes := by
  have hwallet : (CacheOp.spentNullifiers i spent).wallet? s = some r.wallet :=
    congrArg (Option.map Procedure.wallet) hproc
  by_cases ha : r.notes = s.cachedNotes
  · have hload : (s.markAsked r.notes asked spent).loadAll = s.loadAll.map fun c =>
        if CacheState.isSpent asked spent c.note then c.setSpent true else c := by
      rw [ha]
      exact loadAll_setArray_self _
    rw [CacheState.notes, hload]
    refine .flags rfl (fun c hc => ?_) (.inl hwallet) (write_flags
      (List.forall₂_map_right_iff.mpr (List.forall₂_same.mpr fun c hc => ?_)))
    · rw [marks_spentNullifiers hproc hstage, if_pos ha] at hc
      obtain ⟨n, hn, rfl⟩ := List.mem_map.mp hc
      obtain ⟨hn, hspent⟩ := List.mem_filter.mp hn
      obtain ⟨x, hx, rfl⟩ := List.mem_map.mp hn
      refine ⟨_, List.mem_map_of_mem (List.mem_map_of_mem hx), ?_⟩
      rw [if_pos hspent]
      exact ⟨rfl, rfl⟩
    · split
      next hspent =>
        simp only [CacheState.isSpent, decide_eq_true_eq] at hspent
        have hmem : c.note ∈ notesOf (s.arrays r.notes) := ha ▸ List.mem_map_of_mem hc
        exact .inr ⟨howner c.note hmem hspent.2.2.1, .inl rfl⟩
      next => exact .inl rfl
  · have hload : (s.markAsked r.notes asked spent).loadAll = s.loadAll :=
      loadAll_setArray_of_ne ha _
    rw [CacheState.notes, hload]
    refine notesStep_same rfl fun c hc => ?_
    rw [marks_spentNullifiers hproc hstage, if_neg ha] at hc
    cases hc

theorem stepOk_spentNullifiers {i : ℕ} {r : Reconcile F} {asked spent : List F} (h : CacheWf s)
    (hs : Saved s) (hproc : s.procedures i = some (.reconcile r))
    (hstage : r.stage = .spentNullifiers asked)
    (horderly : Orderly C log s (.spentNullifiers i spent)) :
    StepOk C log s (.spentNullifiers i spent) (s.spentNullifiers i r asked spent) := by
  have hwf : CacheWf (s.markAsked r.notes asked spent) := h.setFlags fun c => by
    split
    · exact ⟨true, rfl⟩
    · exact ⟨c.note.spent, rfl⟩
  have hsaved : SavedBut (s.markAsked r.notes asked spent) i ((r.changed ||
      (notesOf (s.arrays r.notes)).any (CacheState.isSpent asked spent)) = true) := by
    refine savedBut_setArray hs hproc fun hnone => ?_
    obtain ⟨hchanged, hany⟩ := Bool.or_eq_false_iff.mp hnone
    refine ⟨?_, hchanged⟩
    by_cases ha : r.notes = s.cachedNotes
    · rw [map_spent_of_none hany, ha, CacheState.notes, loadAll_setArray_self]
      rfl
    · rw [CacheState.notes, loadAll_setArray_of_ne ha]
      rfl
  have hi := lt_of_running h hproc
  have hr := h.reconciles i r hproc
  obtain ⟨hnotes, hok⟩ := @heal_ok _ _ _ _ i r.notes r.wallet _ hwf hi hr.array
    (horderly r asked hproc hstage).1 hsaved
  refine ⟨?_, hok⟩
  unfold CacheState.spentNullifiers
  rw [hnotes]
  exact markAsked_notesStep hproc hstage (horderly r asked hproc hstage).2

theorem healReceipt_notesStep {i : ℕ} {r : Reconcile F} {receipt : Cell F} {hidden : List (Cell F)}
    {status : Option BetStatus} (h : CacheWf s) (hproc : s.procedures i = some (.reconcile r))
    (hstage : r.stage = .betStatus receipt hidden) (ha : r.notes = s.cachedNotes)
    (hmarked : ∀ j, s.Awaiting j → ¬ MarkedSince j receipt.note.commitment log) :
    NotesStep C log s (.betStatus i status) (s.healReceipt r.notes receipt).notes := by
  have hreceipt := ((h.reconciles i r hproc).hidden receipt hidden hstage receipt
    List.mem_cons_self ha).2
  have hwallet : (CacheOp.betStatus i status).wallet? s = some r.wallet :=
    congrArg (Option.map Procedure.wallet) hproc
  have hload : (s.healReceipt r.notes receipt).loadAll = s.loadAll.map fun c =>
      if c.ref = receipt.ref then c.setSpent false else c := by
    rw [ha]
    exact loadAll_setArray_self _
  rw [CacheState.notes, hload]
  refine .flags rfl (fun c hc => by cases hc) (.inl hwallet) (write_flags
    (List.forall₂_map_right_iff.mpr (List.forall₂_same.mpr fun c hc => ?_)))
  split
  next href =>
    obtain ⟨hkind, howner, hcommitment⟩ := hreceipt c hc href
    refine .inr ⟨howner, .inr ⟨hkind, rfl, ?_⟩⟩
    rw [hcommitment]
    exact hmarked
  next => exact .inl rfl

theorem stepOk_betStatus {i : ℕ} {r : Reconcile F} {receipt : Cell F} {hidden : List (Cell F)}
    {status : Option BetStatus} (h : CacheWf s) (hs : Saved s)
    (hproc : s.procedures i = some (.reconcile r))
    (hstage : r.stage = .betStatus receipt hidden)
    (horderly : Orderly C log s (.betStatus i status)) :
    StepOk C log s (.betStatus i status) (s.betStatus i r receipt hidden status) := by
  have hr := h.reconciles i r hproc
  have hi := lt_of_running h hproc
  obtain ⟨hholds, hmarked⟩ := horderly r receipt hidden hproc hstage
  have hrest : ∀ x ∈ hidden, HiddenOk s r.wallet r.notes x := fun x hx =>
    hr.hidden receipt hidden hstage x (List.mem_cons_of_mem _ hx)
  unfold CacheState.betStatus
  split
  next hopen =>
    have ha : r.notes = s.cachedNotes := hholds (by rw [hopen, Bool.or_true])
    have hwf : CacheWf (s.healReceipt r.notes receipt) := h.setFlags fun c => by
      split
      · exact ⟨false, rfl⟩
      · exact ⟨c.note.spent, rfl⟩
    have hev : Evolves s (s.healReceipt r.notes receipt) := evolves_setFlags fun c => by
      split
      · exact ⟨false, rfl⟩
      · exact ⟨c.note.spent, rfl⟩
    obtain ⟨hnotes, hok⟩ := healNext_ok hwf hi hr.array (fun _ => ha) (.inr (.inl rfl))
      fun x hx => (hrest x hx).evolves hr.array hev
    refine ⟨?_, hok⟩
    rw [hnotes]
    exact healReceipt_notesStep h hproc hstage ha (hmarked hopen)
  next hopen =>
    have hsaved : SavedBut s i (r.changed = true) := by
      rcases hs.savedBut hproc with hs | ⟨r', hr', hnotes, hchanged⟩ | hs
      · exact .inl hs
      · cases hr'
        exact .inr (.inl hchanged)
      · exact .inr (.inr hs)
    obtain ⟨hnotes, hok⟩ := healNext_ok h hi hr.array
      (fun hc : r.changed = true => hholds (by rw [hc, Bool.true_or])) hsaved hrest
    refine ⟨?_, hok⟩
    rw [hnotes]
    exact notesStep_same rfl fun c hc => by cases hc

theorem stepOk_recovered {i : ℕ} {wallet : Address} {reads : RecoveryReads F}
    (h : CacheWf s)
    (hproc : s.procedures i = some (.recovery wallet))
    (horderly : Orderly C log s (.recovered i reads)) :
    StepOk C log s (.recovered i reads) (s.recovered i (reads.recovered C wallet)) := by
  have hload : (s.recovered i (reads.recovered C wallet)).loadAll
      = newCells (s.next + 1) (reads.recovered C wallet) :=
    Function.update_self ..
  have hnotes : (s.recovered i (reads.recovered C wallet)).notes = reads.recovered C wallet := by
    rw [CacheState.notes, hload, notesOf_newCells]
  have hlast : (s.recovered i (reads.recovered C wallet)).writes.getLast?
      = some ⟨reads.recovered C wallet, false⟩ := by
    simp only [CacheState.recovered, CacheState.saveAll, CacheState.setProcedure,
      CacheState.setArray, Function.update_self, notesOf_newCells, List.getLast?_append,
      List.getLast?_singleton, Option.some_or]
  have hstep : NotesStep C log s (.recovered i reads)
      (s.recovered i (reads.recovered C wallet)).notes := by
    rw [hnotes]
    exact .recovered hproc horderly
  have hnext : s.next ≤ (s.recovered i (reads.recovered C wallet)).next := Nat.le_add_right _ _
  have hev : Evolves s (s.recovered i (reads.recovered C wallet)) := ⟨hnext, .inl le_rfl⟩
  have hprocs : ∀ j p, (s.recovered i (reads.recovered C wallet)).procedures j = some p →
      s.procedures j = some p := by
    intro j p hp
    by_cases hj : j = i
    · subst hj
      have hnone : (s.recovered j (reads.recovered C wallet)).procedures j = none :=
        setProcedure_self
      rw [hnone] at hp
      cases hp
    · have hsame : (s.recovered i (reads.recovered C wallet)).procedures j = s.procedures j :=
        setProcedure_of_ne hj
      exact hsame ▸ hp
  refine ⟨hstep, ⟨?_, ?_, fun j hj => ?_, fun j r hr =>
    (h.reconciles j r (hprocs j _ hr)).evolves hev, fun w hw hcompleted => ?_⟩, .inl ?_⟩
  · rw [hload]
    refine (refs_newCells _ _).mono (le_of_eq ?_)
    change s.next + 1 + (reads.recovered C wallet).length
      = s.next + ((reads.recovered C wallet).length + 1)
    omega
  · exact Nat.lt_add_of_pos_right (Nat.succ_pos _)
  · cases hp : (s.recovered i (reads.recovered C wallet)).procedures j with
    | none => rfl
    | some p =>
      have hsome := hprocs j p hp
      rw [h.unused j (hnext.trans hj)] at hsome
      cases hsome
  · rw [hlast] at hw
    cases hw
    cases hcompleted
  · rw [hnotes, CacheState.lastSaved, hlast]

theorem stepOk_recover {wallet : Address} (h : CacheWf s) (hs : Saved s) :
    StepOk C log s (.recover wallet)
      ((s.alloc 1).setProcedure s.next (some (.recovery wallet))) := by
  have hwf : CacheWf ((s.alloc 1).setProcedure s.next (some (.recovery wallet))) :=
    (h.alloc 1).setProcedure (Nat.lt_succ_self _) fun r hr => by cases hr
  refine ⟨notesStep_same rfl (List.forall_mem_nil _), hwf, ?_⟩
  rcases savedBut_next h hs False with hsaved | hf | ⟨j, r, hj, hproc, hr⟩
  · exact .inl hsaved
  · exact hf.elim
  · exact .inr ⟨j, r, (setProcedure_of_ne hj).trans hproc, hr⟩

theorem getLast?_set_of_lt {α : Type} {l : List α} {k : ℕ} {a : α} (hk : k + 1 < l.length) :
    (l.set k a).getLast? = l.getLast? := by
  rw [List.getLast?_eq_getElem?, List.getLast?_eq_getElem?, List.length_set,
    List.getElem?_set_ne (by omega)]

theorem stepOk_recoverFailed {i : ℕ} {wallet : Address} (h : CacheWf s) (hs : Saved s)
    (hproc : s.procedures i = some (.recovery wallet)) :
    StepOk C log s (.recoverFailed i) (s.setProcedure i none) := by
  have hwf : CacheWf (s.setProcedure i none) :=
    h.setProcedure (lt_of_running h hproc) fun r hr => by cases hr
  refine ⟨notesStep_same rfl (List.forall_mem_nil _), hwf, ?_⟩
  rcases hs with hs | ⟨j, r, hj, hr⟩
  · exact .inl hs
  · have hne : j ≠ i := by
      rintro rfl
      rw [hproc] at hj
      cases hj
    exact .inr ⟨j, r, (setProcedure_of_ne hne).trans hj, hr⟩

/-- A write that is over leaves what the write started last has left, if that one is over too. -/
theorem stepOk_endWrite {op : CacheOp F} {k : ℕ} {w : CacheWrite F} {persisted : List (Note F)}
    (h : CacheWf s) (hs : Saved s) (hadds : op.adds C s = []) (hmarks : op.marks s = [])
    (hw : s.writes[k]? = some w) (hself : k + 1 = s.writes.length → persisted = w.notes)
    (hlast : k + 1 < s.writes.length → ∀ l, s.writes.getLast? = some l → l.completed = true →
      persisted = l.notes) :
    StepOk C log s op (s.endWrite k w persisted) := by
  have hk : k < s.writes.length := (List.getElem?_eq_some_iff.mp hw).1
  have hsaved : (s.endWrite k w persisted).lastSaved = s.lastSaved ∧
      ∀ l, (s.endWrite k w persisted).writes.getLast? = some l → l.completed = true →
        persisted = l.notes := by
    by_cases hlt : k + 1 < s.writes.length
    · have hset : (s.endWrite k w persisted).writes.getLast? = s.writes.getLast? :=
        getLast?_set_of_lt hlt
      refine ⟨?_, fun l hl => hlast hlt l (hset ▸ hl)⟩
      obtain ⟨l, hl⟩ : ∃ l, s.writes.getLast? = some l :=
        ⟨_, List.getLast?_eq_some_getLast (List.ne_nil_of_length_pos (by omega))⟩
      simp only [CacheState.lastSaved, hset, hl]
    · have hk' : s.writes.length - 1 = k := by omega
      have hset : (s.endWrite k w persisted).writes.getLast?
          = some { w with completed := true } := by
        rw [CacheState.endWrite, List.getLast?_eq_getElem?, List.length_set, hk',
          List.getElem?_set_self hk]
      have hget : s.writes.getLast? = some w := by
        rw [List.getLast?_eq_getElem?, hk', hw]
      refine ⟨by simp only [CacheState.lastSaved, hset, hget], fun l hl _ => ?_⟩
      rw [hset] at hl
      cases hl
      exact hself (by omega)
  refine ⟨notesStep_same hadds fun c hc => ?_, ⟨h.refs, h.memory, h.unused,
    fun j r hr => (h.reconciles j r hr).evolves (evolves_of_memory le_rfl rfl rfl),
    hsaved.2⟩, ?_⟩
  · rw [hmarks] at hc
    cases hc
  · rcases hs with hs | hs
    · exact .inl (hs.trans hsaved.1.symm)
    · exact .inr hs

theorem stepOk {op : CacheOp F} {s' : CacheState F} (h : CacheWf s) (hs : Saved s)
    (hstep : s.step C op = some s') (horderly : Orderly C log s op) : StepOk C log s op s' := by
  cases op with
  | addNote n =>
    cases hstep
    exact stepOk_addNote h (.inl rfl) horderly
  | replaceNote noteId n =>
    cases hstep
    exact stepOk_replaceNote h horderly.1 horderly.2
  | markNoteSpent commitment =>
    cases hstep
    exact stepOk_markFirst h hs rfl rfl rfl
  | markBetReceiptSpent bet =>
    cases hstep
    exact stepOk_markFirst h hs rfl rfl rfl
  | reconcile wallet =>
    cases hstep
    exact stepOk_reconcile h hs
  | recover wallet =>
    cases hstep
    exact stepOk_recover h hs
  | spentNullifiers i spent =>
    simp only [CacheState.step] at hstep
    split at hstep
    next r hproc =>
      split at hstep
      next asked hstage =>
        cases hstep
        exact stepOk_spentNullifiers h hs hproc hstage horderly
      next => cases hstep
    next => cases hstep
  | betStatus i status =>
    simp only [CacheState.step] at hstep
    split at hstep
    next r hproc =>
      split at hstep
      next receipt hidden hstage =>
        cases hstep
        exact stepOk_betStatus h hs hproc hstage horderly
      next => cases hstep
    next => cases hstep
  | recovered i reads =>
    simp only [CacheState.step] at hstep
    split at hstep
    next wallet hproc =>
      cases hstep
      exact stepOk_recovered h hproc horderly
    next => cases hstep
  | recoverFailed i =>
    simp only [CacheState.step] at hstep
    split at hstep
    next wallet hproc =>
      cases hstep
      exact stepOk_recoverFailed h hs hproc
    next => cases hstep
  | written k =>
    simp only [CacheState.step] at hstep
    split at hstep
    next w hw =>
      split at hstep
      next => cases hstep
      next =>
        cases hstep
        refine stepOk_endWrite h hs rfl rfl hw (fun _ => rfl) fun _ l hl hcompleted => ?_
        rcases horderly with ⟨l', hl', hno⟩ | hsame
        · rw [hl] at hl'
          cases hl'
          rw [hno] at hcompleted
          cases hcompleted
        · exact (hsame w hw).trans (h.persisted l hl hcompleted)
    next => cases hstep
  | writeFailed k =>
    simp only [CacheState.step] at hstep
    split at hstep
    next w hw =>
      split at hstep
      next => cases hstep
      next =>
        cases hstep
        refine stepOk_endWrite h hs rfl rfl hw (fun hk => ?_) fun _ l hl hcompleted =>
          h.persisted l hl hcompleted
        rcases horderly with hlt | hsame
        · omega
        · exact (hsame w hw).symm
    next => cases hstep

end Operations

/-! ## Every run -/

section Runs

variable {C : Circomlib F} {log : List (CacheStep F)} {s : CacheState F}

omit [Field F] [DecidableEq F] in
theorem hydrated_ok (persisted : List (Note F)) :
    CacheWf (CacheState.hydrated persisted) ∧ Saved (CacheState.hydrated persisted) := by
  have hload : (CacheState.hydrated persisted).loadAll = newCells 1 persisted := rfl
  have hnotes : (CacheState.hydrated persisted).notes = persisted := by
    rw [CacheState.notes, hload, notesOf_newCells]
  have hrefs : Refs (CacheState.hydrated persisted).loadAll (persisted.length + 1) := by
    rw [hload]
    exact (refs_newCells 1 persisted).mono (le_of_eq (Nat.add_comm _ _))
  refine ⟨⟨hrefs, Nat.succ_pos _, fun _ _ => rfl, ?_, ?_⟩,
    .inl hnotes⟩
  · intro i r hr
    cases hr
  · intro w hw
    cases hw

structure RunOk (C : Circomlib F) (log : List (CacheStep F)) (s : CacheState F) : Prop where
  wf : CacheWf s
  saved : Saved s
  added : ∀ i c, AddedSince C i c log → Has s.notes c
  marked : ∀ i c, MarkedSince i c log → HasSpent s.notes c

theorem RunOk.snoc {op : CacheOp F} {s' : CacheState F} (h : RunOk C log s)
    (hstep : s.step C op = some s') (horderly : Orderly C log s op) :
    RunOk C (log ++ [⟨s, op⟩]) s' := by
  obtain ⟨hnotes, hwf, hsaved⟩ := stepOk h.wf h.saved hstep horderly
  refine ⟨hwf, hsaved, fun i c hsince => ?_, fun i c hsince => ?_⟩
  · generalize hlog : log ++ [(⟨s, op⟩ : CacheStep F)] = log' at hsince
    cases hsince with
    | now hawaiting hdoes =>
      obtain ⟨-, hx⟩ := List.append_inj' hlog rfl
      cases hx
      exact hnotes.adds hdoes
    | later hlater hawaiting hkept =>
      obtain ⟨rfl, hx⟩ := List.append_inj' hlog rfl
      cases hx
      exact hnotes.has hawaiting hlater (h.added i c hlater) hkept
  · generalize hlog : log ++ [(⟨s, op⟩ : CacheStep F)] = log' at hsince
    cases hsince with
    | now hawaiting hdoes =>
      obtain ⟨-, hx⟩ := List.append_inj' hlog rfl
      cases hx
      exact hnotes.marks hdoes
    | later hlater hawaiting hkept =>
      obtain ⟨rfl, hx⟩ := List.append_inj' hlog rfl
      cases hx
      exact hnotes.hasSpent hawaiting hlater (h.marked i c hlater) hkept

theorem CacheRun.ok {persisted : List (Note F)}
    (hrun : CacheRun C (CacheState.hydrated persisted) log s) : RunOk C log s := by
  induction hrun with
  | nil =>
    obtain ⟨hwf, hsaved⟩ := hydrated_ok persisted
    refine ⟨hwf, hsaved, fun i c h => ?_, fun i c h => ?_⟩
    all_goals
      generalize hlog : ([] : List (CacheStep F)) = log at h
      cases h <;> simp at hlog
  | snoc _ hstep horderly ih => exact ih.snoc hstep horderly

/-- Once nothing awaits and every write has completed, what is persisted is what is in memory. -/
theorem RunOk.persisted (h : RunOk C log s) (hquiet : s.Quiet) : s.persisted = s.notes := by
  have hnotes : s.notes = s.lastSaved := by
    rcases h.saved with hsaved | ⟨j, r, hproc, -⟩
    · exact hsaved
    · exact absurd (by rw [CacheState.Awaiting, hproc]; rfl) (hquiet.procedures j)
  rw [hnotes, CacheState.lastSaved]
  split
  next w hw => exact h.wf.persisted w hw (hquiet.writes w (List.mem_of_getLast? hw))
  next => rfl

end Runs

/-! ## Runs that lose an update, and one that does not -/

end Polyshield.Wallet

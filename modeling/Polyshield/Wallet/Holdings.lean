import Polyshield.Lib.Related
import Polyshield.Wallet.Lands

/-!
# The cash notes of the cache

What the writers do to the cash notes: a commitment marks the one note that has
it, receipts are written without them, and recording an operation marks what it
ends and adds what it makes.
-/

namespace Polyshield.Wallet

variable {F Proof Sig : Type}

/-! ## The cash notes of the cache -/

def cashNotes (cache : List (Note F)) : List (Note F) :=
  cache.filter fun n => n.kind ≠ .betReceipt

/-- A cash note is found under its commitment, and a receipt under its bet. -/
def Note.Keyed (ses : Session F Proof Sig) (n : Note F) : Prop :=
  (n.IsCash ses ∧ ∃ c, n.id = .commitment c ∧ n.commitment = .commitment c) ∨
    (n.kind = .betReceipt ∧ ∃ bet, n.id = .receipt bet ∧ n.commitment = .receipt bet)

theorem mem_cashNotes {cache : List (Note F)} {n : Note F} :
    n ∈ cashNotes cache ↔ n ∈ cache ∧ n.kind ≠ .betReceipt := by
  simp [cashNotes]

section Cash

variable {ses : Session F Proof Sig} {cache : List (Note F)}

theorem Note.Keyed.cash {n : Note F} (h : n.Keyed ses) (hkind : n.kind ≠ .betReceipt) :
    n.IsCash ses ∧ n.id = n.commitment := by
  rcases h with ⟨hcash, c, hid, hcom⟩ | ⟨hk, -⟩
  · exact ⟨hcash, hid.trans hcom.symm⟩
  · exact absurd hk hkind

@[simp] theorem cashNotes_append (cache rest : List (Note F)) :
    cashNotes (cache ++ rest) = cashNotes cache ++ cashNotes rest := List.filter_append ..

theorem cashNotes_addNote {n : Note F} (h : n.kind ≠ .betReceipt) :
    cashNotes (addNote cache n) = cashNotes cache ++ [n] := by
  simp [addNote, cashNotes, h]

theorem cashNotes_addNote_receipt {n : Note F} (h : n.kind = .betReceipt) :
    cashNotes (addNote cache n) = cashNotes cache := by
  simp [addNote, cashNotes, h]

theorem cashNotes_lookmap {f : Note F → Option (Note F)}
    (h : ∀ a ∈ cache, ∀ b, f a = some b → a.kind = .betReceipt ∧ b.kind = .betReceipt) :
    cashNotes (cache.lookmap f) = cashNotes cache := by
  induction cache with
  | nil => rfl
  | cons a cache ih =>
    have ih := ih fun a ha => h a (List.mem_cons_of_mem _ ha)
    cases ha : f a with
    | none =>
      rw [List.lookmap_cons_none _ _ ha]
      unfold cashNotes at ih ⊢
      rw [List.filter_cons, List.filter_cons, ih]
    | some b =>
      obtain ⟨hka, hkb⟩ := h a List.mem_cons_self b ha
      rw [List.lookmap_cons_some _ _ ha]
      simp [cashNotes, hka, hkb]

theorem keyed_lookmap {f : Note F → Option (Note F)} (hkeyed : ∀ n ∈ cache, n.Keyed ses)
    (hf : ∀ a b, a.Keyed ses → f a = some b → b.Keyed ses) :
    ∀ n ∈ cache.lookmap f, n.Keyed ses := by
  intro n hn
  rcases mem_lookmap hn with hn | ⟨a, ha, hfa⟩
  · exact hkeyed n hn
  · exact hf a n (hkeyed a ha) hfa

theorem keyed_addNote {n : Note F} (hkeyed : ∀ n ∈ cache, n.Keyed ses) (hn : n.Keyed ses) :
    ∀ m ∈ addNote cache n, m.Keyed ses := by
  intro m hm
  rcases List.mem_append.mp hm with hm | hm
  · exact hkeyed m hm
  · obtain rfl := List.mem_singleton.mp hm
    exact hn

variable [DecidableEq F]

theorem cashNotes_markBetReceiptSpent (bet : F) :
    cashNotes (markBetReceiptSpent cache bet) = cashNotes cache := by
  refine cashNotes_lookmap fun a _ b hab => ?_
  split at hab
  next h =>
    obtain rfl := Option.some.inj hab
    exact ⟨h.1, h.1⟩
  · cases hab

theorem keyed_markBetReceiptSpent (hkeyed : ∀ n ∈ cache, n.Keyed ses) (bet : F) :
    ∀ n ∈ markBetReceiptSpent cache bet, n.Keyed ses := by
  refine keyed_lookmap hkeyed fun a b ha hab => ?_
  split at hab
  · obtain rfl := Option.some.inj hab
    exact ha
  · cases hab

theorem keyed_markNoteSpent (hkeyed : ∀ n ∈ cache, n.Keyed ses) (c : NoteId F) :
    ∀ n ∈ markNoteSpent cache c, n.Keyed ses := by
  refine keyed_lookmap hkeyed fun a b ha hab => ?_
  split at hab
  · obtain rfl := Option.some.inj hab
    exact ha
  · cases hab

theorem cashNotes_markNoteSpent (hkeyed : ∀ n ∈ cache, n.Keyed ses) (c : F) :
    cashNotes (markNoteSpent cache (.commitment c))
      = markNoteSpent (cashNotes cache) (.commitment c) := by
  induction cache with
  | nil => rfl
  | cons a cache ih =>
    have ih := ih fun n hn => hkeyed n (List.mem_cons_of_mem _ hn)
    unfold cashNotes markNoteSpent at ih ⊢
    rw [List.lookmap_cons]
    by_cases ha : a.isOf (.commitment c)
    · have hkind : a.kind ≠ .betReceipt := by
        intro hk
        rcases hkeyed a List.mem_cons_self with h | ⟨-, bet, hid, hcom⟩
        · exact h.1.1 hk
        · rcases ha with ha | ha
          · cases ha.symm.trans hcom
          · cases ha.symm.trans hid
      have hkind' : a.markSpent.kind ≠ .betReceipt := hkind
      rw [if_pos ha]
      simp [hkind, hkind', ha]
    · rw [if_neg ha]
      by_cases hkind : a.kind = .betReceipt
      · rw [List.filter_cons_of_neg (by simpa using hkind),
          List.filter_cons_of_neg (by simpa using hkind), ih]
      · rw [List.filter_cons_of_pos (by simpa using hkind),
          List.filter_cons_of_pos (by simpa using hkind), List.lookmap_cons, if_neg ha, ih]

theorem cashNotes_replaceNote (hkeyed : ∀ n ∈ cache, n.Keyed ses) {bet : F} {next : Note F}
    (hnext : next.kind = .betReceipt) :
    cashNotes (replaceNote cache (.receipt bet) next) = cashNotes cache := by
  unfold replaceNote
  split
  · refine cashNotes_lookmap fun a ha b hab => ?_
    split at hab
    next hof =>
      obtain rfl := Option.some.inj hab
      refine ⟨?_, hnext⟩
      rcases hkeyed a ha with ⟨-, c, hid, hcom⟩ | h
      · rcases hof with hof | hof
        · cases hof.symm.trans hcom
        · cases hof.symm.trans hid
      · exact h.1
    · cases hab
  · exact cashNotes_addNote_receipt hnext

theorem keyed_replaceNote (hkeyed : ∀ n ∈ cache, n.Keyed ses) {noteId : NoteId F} {next : Note F}
    (hnext : next.Keyed ses) : ∀ n ∈ replaceNote cache noteId next, n.Keyed ses := by
  unfold replaceNote
  split
  · refine keyed_lookmap hkeyed fun a b _ hab => ?_
    split at hab
    · obtain rfl := Option.some.inj hab
      exact hnext
    · cases hab
  · exact keyed_addNote hkeyed hnext

end Cash

/-! ## Marking -/

/-- The note as it was, or marked where that is sound. -/
def Note.Marks (sound : Note F → Prop) (n₀ n : Note F) : Prop :=
  n = n₀ ∨ sound n₀ ∧ n = n₀.markSpent

section Marks

variable {sound : Note F → Prop} {l l' : List (Note F)} {n₀ n : Note F}

theorem Note.Marks.commitment (h : n₀.Marks sound n) : n.commitment = n₀.commitment := by
  rcases h with rfl | ⟨-, rfl⟩ <;> rfl

theorem Note.Marks.nullifier (h : n₀.Marks sound n) : n.nullifier = n₀.nullifier := by
  rcases h with rfl | ⟨-, rfl⟩ <;> rfl

theorem Note.Marks.spent (h : n₀.Marks sound n) (hspent : n₀.spent = true) : n.spent = true := by
  rcases h with rfl | ⟨-, rfl⟩
  · exact hspent
  · rfl

theorem map_commitment_of_marks (h : List.Forall₂ (Note.Marks sound) l l') :
    l'.map Note.commitment = l.map Note.commitment :=
  (Related.map_eq (fun _ _ hab => hab.commitment.symm) h).symm

theorem marks_refl (l : List (Note F)) : List.Forall₂ (Note.Marks sound) l l :=
  List.forall₂_same.mpr fun _ _ => .inl rfl

theorem marks_trans {l'' : List (Note F)}
    (h : List.Forall₂ (Note.Marks sound) l l') (h' : List.Forall₂ (Note.Marks sound) l' l'') :
    List.Forall₂ (Note.Marks sound) l l'' := by
  induction h generalizing l'' with
  | nil => exact h'
  | cons hab _ ih =>
    cases h' with
    | cons hbc htail =>
      refine .cons ?_ (ih htail)
      rcases hab with rfl | ⟨ha, rfl⟩
      · exact hbc
      · rcases hbc with rfl | ⟨-, rfl⟩ <;> exact .inr ⟨ha, rfl⟩

variable [DecidableEq F]

theorem marks_markNoteSpent {c : NoteId F} (h : ∀ n ∈ l, n.isOf c → sound n) :
    List.Forall₂ (Note.Marks sound) l (markNoteSpent l c) := by
  induction l with
  | nil => exact .nil
  | cons a l ih =>
    unfold markNoteSpent at ih ⊢
    rw [List.lookmap_cons]
    by_cases ha : a.isOf c
    · rw [if_pos ha]
      exact .cons (.inr ⟨h a List.mem_cons_self ha, rfl⟩) (marks_refl l)
    · rw [if_neg ha]
      exact .cons (.inl rfl) (ih fun n hn => h n (List.mem_cons_of_mem _ hn))

theorem spent_markNoteSpent (hid : ∀ n ∈ l, n.id = n.commitment)
    (hnodup : (l.map Note.commitment).Nodup) {c : NoteId F} (hn : n ∈ markNoteSpent l c)
    (hc : n.commitment = c) : n.spent = true := by
  induction l with
  | nil => cases hn
  | cons a l ih =>
    rw [List.map_cons, List.nodup_cons] at hnodup
    unfold markNoteSpent at ih hn
    rw [List.lookmap_cons] at hn
    by_cases ha : a.commitment = c
    · rw [if_pos (.inl ha)] at hn
      rcases List.mem_cons.mp hn with rfl | hn
      · rfl
      · exact absurd (List.mem_map.mpr ⟨n, hn, hc.trans ha.symm⟩) hnodup.1
    · have hof : ¬a.isOf c := by
        rintro (h | h)
        · exact ha h
        · exact ha ((hid a List.mem_cons_self).symm.trans h)
      rw [if_neg hof] at hn
      rcases List.mem_cons.mp hn with rfl | hn
      · exact absurd hc ha
      · exact ih (fun n hn => hid n (List.mem_cons_of_mem _ hn)) hnodup.2 hn

end Marks

/-! ## Recording -/

section Record

variable [DecidableEq F]

def markAll (l ends : List (Note F)) : List (Note F) :=
  ends.foldl (fun cache n => markNoteSpent cache n.commitment) l

section MarkAll

variable {l ends : List (Note F)}

theorem marks_markAll :
    List.Forall₂ (Note.Marks fun n => ∃ e ∈ ends, n.isOf e.commitment) l (markAll l ends) := by
  suffices h : ∀ (sound : Note F → Prop), (∀ n, ∀ e ∈ ends, n.isOf e.commitment → sound n) →
      List.Forall₂ (Note.Marks sound) l (markAll l ends) from
    h _ fun n e he hof => ⟨e, he, hof⟩
  intro sound h
  induction ends generalizing l with
  | nil => exact marks_refl l
  | cons e ends ih =>
    refine marks_trans (marks_markNoteSpent fun n _ => h n e List.mem_cons_self) ?_
    exact ih fun n e he => h n e (List.mem_cons_of_mem _ he)

theorem id_markNoteSpent (hid : ∀ n ∈ l, n.id = n.commitment) (c : NoteId F) :
    ∀ n ∈ markNoteSpent l c, n.id = n.commitment := by
  intro n hn
  rcases mem_lookmap hn with hn | ⟨a, ha, hfa⟩
  · exact hid n hn
  · split at hfa
    · obtain rfl := Option.some.inj hfa
      exact hid a ha
    · cases hfa

theorem spent_markAll (hid : ∀ n ∈ l, n.id = n.commitment)
    (hnodup : (l.map Note.commitment).Nodup) {n e : Note F} (hn : n ∈ markAll l ends)
    (he : e ∈ ends) (hc : n.commitment = e.commitment) : n.spent = true := by
  induction ends generalizing l with
  | nil => cases he
  | cons e' ends ih =>
    have hmarks : List.Forall₂ (Note.Marks fun _ => True) l (markNoteSpent l e'.commitment) :=
      marks_markNoteSpent fun _ _ _ => trivial
    have hnodup' : ((markNoteSpent l e'.commitment).map Note.commitment).Nodup := by
      rwa [map_commitment_of_marks hmarks]
    rcases List.mem_cons.mp he with rfl | he
    · -- It is marked first, and stays so.
      have hn' : n ∈ markAll (markNoteSpent l e.commitment) ends := hn
      obtain ⟨n₀, hn₀, hm⟩ := Related.exists_of_mem_right marks_markAll hn'
      exact hm.spent (spent_markNoteSpent hid hnodup hn₀ (hm.commitment.symm.trans hc))
    · exact ih (id_markNoteSpent hid _) hnodup' hn he

theorem cashNotes_markAll {ses : Session F Proof Sig} {cache : List (Note F)}
    (ends : List (Note F)) (hkeyed : ∀ n ∈ cache, n.Keyed ses)
    (hends : ∀ e ∈ ends, ∃ c, e.commitment = .commitment c) :
    cashNotes (markAll cache ends) = markAll (cashNotes cache) ends := by
  induction ends generalizing cache with
  | nil => rfl
  | cons e ends ih =>
    obtain ⟨c, hc⟩ := hends e List.mem_cons_self
    show cashNotes (markAll (markNoteSpent cache e.commitment) ends)
      = markAll (markNoteSpent (cashNotes cache) e.commitment) ends
    rw [ih (keyed_markNoteSpent hkeyed _) fun e he => hends e (List.mem_cons_of_mem _ he), hc,
      cashNotes_markNoteSpent hkeyed]

theorem keyed_markAll {ses : Session F Proof Sig} {cache : List (Note F)}
    (ends : List (Note F)) (hkeyed : ∀ n ∈ cache, n.Keyed ses) :
    ∀ n ∈ markAll cache ends, n.Keyed ses := by
  induction ends generalizing cache with
  | nil => exact hkeyed
  | cons e ends ih => exact ih (keyed_markNoteSpent hkeyed _)

end MarkAll

variable [Field F]

/-- An operation whose notes are cash notes of the wallet and whose receipts are receipts. -/
structure Operation.Sound (C : Circomlib F) (ses : Session F Proof Sig) (v : VaultState F)
    (op : Operation F Proof Sig) : Prop where
  admits : op.Admits C ses
  ends : ∀ n ∈ op.ends, n.IsCash ses ∧ n.Backed C ses v
  receipts : ∀ n ∈ op.receipts, n.kind = .betReceipt ∧ n.Keyed ses

section Sound

variable {C : Circomlib F} {ses : Session F Proof Sig} {v : VaultState F}
  {op : Operation F Proof Sig} {cache : List (Note F)}

theorem Note.Backed.commitment {n : Note F} (h : n.Backed C ses v) :
    ∃ c, n.commitment = .commitment c := by
  obtain ⟨c, -, hc⟩ := h
  exact ⟨_, hc.commitment⟩

omit [DecidableEq F] in
theorem Note.Fresh.keyed {n : Note F} (h : n.Fresh C ses) : n.Keyed ses :=
  .inl ⟨h.cash, _, h.id.trans h.commitment, h.commitment⟩

theorem Operation.Sound.fresh (h : op.Sound C ses v) {m : Note F} (hm : m ∈ op.made C ses) :
    m.Fresh C ses := by
  cases op with
  | deposit depositIndex amount =>
    obtain rfl := Option.some.inj hm
    exact fresh_depositNote ..
  | bet b =>
    obtain rfl := Option.some.inj hm
    exact fresh_output ..
  | merge first others =>
    obtain rfl := Option.some.inj hm
    exact fresh_mergedNote ..
  | withdraw spendNote effectiveWithdrawal =>
    obtain ⟨-, hm⟩ := Option.ite_none_right_eq_some.mp hm
    obtain rfl := Option.some.inj hm
    exact fresh_nextNote ..
  | credit sub receipt =>
    obtain rfl := Option.some.inj hm
    exact fresh_creditedNote (h.ends _ (List.mem_singleton_self _)).1 h.admits

theorem withdrawal_record (spendNote : Note F) (effectiveWithdrawal : ℤ) :
    (Operation.withdrawal spendNote effectiveWithdrawal).record C ses cache
      = markAll cache [spendNote]
        ++ ((Operation.withdrawal spendNote effectiveWithdrawal).remainder C ses).toList := by
  unfold Withdrawal.record
  dsimp only [Operation.withdrawal]
  cases Withdrawal.remainder C ses ⟨[], spendNote, effectiveWithdrawal⟩ with
  | none => exact (List.append_nil _).symm
  | some next => rfl

theorem keyed_applyCredit {sub : Submission F Proof Sig} {receipt : Note F}
    (h : (Operation.credit sub receipt).Sound C ses v) (hkeyed : ∀ n ∈ cache, n.Keyed ses) :
    ∀ n ∈ applyCredit C cache sub receipt, n.Keyed ses := by
  obtain ⟨hkind, hreceipt⟩ := h.receipts receipt (List.mem_singleton_self _)
  have hspent := keyed_markNoteSpent hkeyed sub.note.commitment
  have hmade : (creditedNote C sub receipt).Keyed ses := (h.fresh rfl).keyed
  have hadded : ∀ n ∈ addNote (if sub.retires then
      markBetReceiptSpent (markNoteSpent cache sub.note.commitment) receipt.bet
        else markNoteSpent cache sub.note.commitment) (creditedNote C sub receipt),
      n.Keyed ses := by
    refine keyed_addNote ?_ hmade
    split
    · exact keyed_markBetReceiptSpent hspent _
    · exact hspent
  unfold applyCredit
  cases sub.call with
  | partialFill inputs att sig => exact keyed_replaceNote hadded hreceipt
  | settle | cancel | close => exact hadded

theorem cashNotes_applyCredit {sub : Submission F Proof Sig} {receipt : Note F}
    (h : (Operation.credit sub receipt).Sound C ses v) (hkeyed : ∀ n ∈ cache, n.Keyed ses) :
    cashNotes (applyCredit C cache sub receipt)
      = cashNotes (markNoteSpent cache sub.note.commitment) ++ [creditedNote C sub receipt] := by
  obtain ⟨hkind, hreceipt⟩ := h.receipts receipt (List.mem_singleton_self _)
  have hspent := keyed_markNoteSpent hkeyed sub.note.commitment
  have hmade := h.fresh (m := creditedNote C sub receipt) rfl
  have hretired : ∀ n ∈ (if sub.retires then
      markBetReceiptSpent (markNoteSpent cache sub.note.commitment) receipt.bet
        else markNoteSpent cache sub.note.commitment), n.Keyed ses := by
    split
    · exact keyed_markBetReceiptSpent hspent _
    · exact hspent
  have hadded : cashNotes (addNote (if sub.retires then
      markBetReceiptSpent (markNoteSpent cache sub.note.commitment) receipt.bet
        else markNoteSpent cache sub.note.commitment) (creditedNote C sub receipt))
      = cashNotes (markNoteSpent cache sub.note.commitment) ++ [creditedNote C sub receipt] := by
    rw [cashNotes_addNote hmade.cash.1]
    split
    · rw [cashNotes_markBetReceiptSpent]
    · rfl
  unfold applyCredit
  cases sub.call with
  | settle | cancel | close => exact hadded
  | partialFill inputs att sig =>
    rcases hreceipt with ⟨hcash, -⟩ | ⟨-, bet, hid, -⟩
    · exact absurd hkind hcash.1
    · rw [hid]
      refine (cashNotes_replaceNote (keyed_addNote hretired hmade.keyed) ?_).trans hadded
      exact hkind

/-- Recording an operation marks what it ends and adds what it makes. -/
theorem Operation.Sound.cashNotes_record (h : op.Sound C ses v)
    (hkeyed : ∀ n ∈ cache, n.Keyed ses) :
    cashNotes (op.record C ses cache)
      = markAll (cashNotes cache) op.ends ++ (op.made C ses).toList := by
  have hends := cashNotes_markAll op.ends hkeyed fun e he => (h.ends e he).2.commitment
  have hmade : cashNotes (op.made C ses).toList = (op.made C ses).toList :=
    List.filter_eq_self.mpr fun m hm =>
      decide_eq_true (h.fresh (Option.mem_toList.mp hm)).cash.1
  rw [← hends, ← hmade, ← cashNotes_append]
  cases op with
  | deposit depositIndex amount => rfl
  | bet b => exact cashNotes_addNote_receipt rfl
  | merge first others => rfl
  | withdraw spendNote effectiveWithdrawal =>
    exact congrArg cashNotes (withdrawal_record spendNote effectiveWithdrawal)
  | credit sub receipt =>
    rw [cashNotes_append, hmade]
    exact cashNotes_applyCredit h hkeyed

theorem Operation.Sound.keyed_record (h : op.Sound C ses v) (hkeyed : ∀ n ∈ cache, n.Keyed ses) :
    ∀ n ∈ op.record C ses cache, n.Keyed ses := by
  have hfresh := fun m hm => (h.fresh (m := m) hm).keyed
  cases op with
  | deposit depositIndex amount => exact keyed_addNote hkeyed (hfresh _ rfl)
  | bet b =>
    refine keyed_addNote (keyed_addNote (keyed_markNoteSpent hkeyed _) (hfresh _ rfl)) ?_
    exact .inr ⟨rfl, _, rfl, rfl⟩
  | merge first others => exact keyed_addNote (keyed_markAll _ hkeyed) (hfresh _ rfl)
  | withdraw spendNote effectiveWithdrawal =>
    intro n hn
    have hrecord : (Operation.withdraw spendNote effectiveWithdrawal).record C ses cache = _ :=
      withdrawal_record spendNote effectiveWithdrawal
    rw [hrecord] at hn
    rcases List.mem_append.mp hn with hn | hn
    · exact keyed_markAll _ hkeyed n hn
    · exact hfresh n (Option.mem_toList.mp hn)
  | credit sub receipt => exact keyed_applyCredit h hkeyed

end Sound

end Record

end Polyshield.Wallet

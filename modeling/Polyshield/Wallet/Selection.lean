import Polyshield.Lib.Greedy
import Polyshield.Wallet.Notes

/-!
# Selection of the notes to merge

`selectNotesForAmount`: up to four free notes that cover an amount, the largest
first, with at most one of a lineage that has an open position. A consolidation
goes on with the lineage of its first input and ends the others, so that one
note comes first.
-/

namespace Polyshield.Wallet

variable {F : Type}

def maxConsolidateInputs : ℕ := 4

structure NoteSelection (F : Type) where
  notes : List (Note F)
  total : ℤ

structure SelectionOptions where
  openPositionDeposits : Option (Finset ℕ)
  preferredSlot0DepositIndex : Option ℕ

def sumBalances (notes : List (Note F)) : ℤ := (notes.map Note.balance).sum

def tryAdd (amount : ℤ) (s : NoteSelection F) (n : Note F) : NoteSelection F :=
  if amount ≤ s.total ∨ maxConsolidateInputs ≤ s.notes.length then s
  else ⟨s.notes ++ [n], s.total + n.balance⟩

/-- The set that is given, or else the lineages of the wallet's open receipts. -/
def openDeposits (cache : List (Note F)) (hidden : F → Bool) (wallet : Address)
    (opts : SelectionOptions) : Finset ℕ :=
  opts.openPositionDeposits.getD
    ((getOpenBetReceipts cache hidden wallet).map Note.depositIndex).toFinset

/-- `clear`: the notes of the lineages without an open position. -/
def clearNotes (all : List (Note F)) (openDeposits : Finset ℕ) : List (Note F) :=
  all.filter fun n => n.depositIndex ∉ openDeposits

/-- `open`: those of the lineages with one. -/
def openNotes (all : List (Note F)) (openDeposits : Finset ℕ) : List (Note F) :=
  all.filter fun n => n.depositIndex ∈ openDeposits

/-- The notes to pick from: the clear ones, and the largest open one where they do not suffice. -/
def selectionPool (all : List (Note F)) (openDeposits : Finset ℕ) (amount : ℤ) : List (Note F) :=
  match (openNotes all openDeposits).head? with
  | some largest =>
    if amount ≤ sumBalances ((clearNotes all openDeposits).take maxConsolidateInputs) then
      clearNotes all openDeposits
    else sortByBalance (clearNotes all openDeposits ++ [largest])
  | none => clearNotes all openDeposits

/-- What the selection picks from. -/
def pickFrom (all : List (Note F)) (openDeposits : Finset ℕ) (amount : ℤ) : List (Note F) :=
  if openDeposits.Nonempty then selectionPool all openDeposits amount else all

/-- `picked.unshift(picked.splice(idx, 1)[0])` for the first note of the lineage. -/
def slot0First (slot0Deposit : Option ℕ) (picked : List (Note F)) : List (Note F) :=
  match slot0Deposit with
  | some deposit =>
    match picked.find? fun n => n.depositIndex = deposit with
    | some n => n :: picked.eraseP fun n => n.depositIndex = deposit
    | none => picked
  | none => picked

def cannotCombine (reachable amount : ℤ) : String :=
  "This amount can't be combined in one step without stranding an open position " ++
    "(reachable safely in one merge: " ++ toString reachable ++ ", need " ++ toString amount ++
    "). Use \"Settle & Withdraw\" to clear your open positions, or withdraw a smaller amount."

def selectNotesForAmount (cache : List (Note F)) (hidden : F → Bool) (wallet : Address)
    (amount : ℤ) (opts : SelectionOptions) : Except String (NoteSelection F) :=
  let all := sortByBalance (getFreeNotes cache wallet)
  if all = [] then .error "No spendable notes."
  else
    let openDeposits := openDeposits cache hidden wallet opts
    let picked := (pickFrom all openDeposits amount).foldl (tryAdd amount) ⟨[], 0⟩
    if picked.total < amount then
      .error (cannotCombine
        (if openDeposits.Nonempty then picked.total
          else sumBalances (all.take maxConsolidateInputs)) amount)
    else
      let usedOpen := picked.notes.find? fun n => n.depositIndex ∈ openDeposits
      .ok ⟨slot0First ((usedOpen.map Note.depositIndex).or opts.preferredSlot0DepositIndex)
        picked.notes, picked.total⟩

/-! ## What may be merged -/

/-- Up to four of the free notes, of which at most one is of a lineage with an open position. -/
structure Mergeable (free : List (Note F)) (openDeposits : Finset ℕ) (s : List (Note F)) :
    Prop where
  nodup : s.Nodup
  free : s ⊆ free
  length_le : s.length ≤ maxConsolidateInputs
  open_le_one : (s.filter fun n => n.depositIndex ∈ openDeposits).length ≤ 1

/-- The only note of an open lineage is the first. -/
def OpenFirst (openDeposits : Finset ℕ) (s : List (Note F)) : Prop :=
  ∀ i n, s[i]? = some n → n.depositIndex ∈ openDeposits → i = 0

theorem sumBalances_eq_weight (s : List (Note F)) :
    sumBalances s = Greedy.weight Note.balance s := rfl

theorem sumBalances_perm {s t : List (Note F)} (h : s.Perm t) : sumBalances s = sumBalances t :=
  Greedy.weight_perm Note.balance h

theorem foldl_tryAdd (amount : ℤ) (l s : List (Note F)) :
    l.foldl (tryAdd amount) ⟨s, sumBalances s⟩ =
      ⟨l.foldl (Greedy.add Note.balance amount maxConsolidateInputs) s,
        sumBalances (l.foldl (Greedy.add Note.balance amount maxConsolidateInputs) s)⟩ := by
  induction l generalizing s with
  | nil => rfl
  | cons n l ih =>
    rw [List.foldl_cons, List.foldl_cons, tryAdd, Greedy.add, ← sumBalances_eq_weight]
    by_cases hstop : amount ≤ sumBalances s ∨ maxConsolidateInputs ≤ s.length
    · rw [if_pos hstop, if_pos hstop, ih]
    · rw [if_neg hstop, if_neg hstop, ← ih]
      congr 2
      simp [sumBalances]

theorem Mergeable.perm {free : List (Note F)} {openDeposits : Finset ℕ} {s t : List (Note F)}
    (h : Mergeable free openDeposits s) (hperm : t.Perm s) : Mergeable free openDeposits t where
  nodup := hperm.nodup_iff.mpr h.nodup
  free := fun _ hn => h.free (hperm.mem_iff.mp hn)
  length_le := hperm.length_eq.trans_le h.length_le
  open_le_one := (hperm.filter _).length_eq.trans_le h.open_le_one

theorem Mergeable.openNotes_length {free : List (Note F)} {openDeposits : Finset ℕ}
    {s : List (Note F)} (h : Mergeable free openDeposits s) :
    (openNotes s openDeposits).length ≤ 1 := h.open_le_one

section Pool

variable {all : List (Note F)} {openDeposits : Finset ℕ} {amount : ℤ}

theorem mem_clearNotes {n : Note F} :
    n ∈ clearNotes all openDeposits ↔ n ∈ all ∧ n.depositIndex ∉ openDeposits := by
  simp [clearNotes]

theorem mem_openNotes {n : Note F} :
    n ∈ openNotes all openDeposits ↔ n ∈ all ∧ n.depositIndex ∈ openDeposits := by
  simp [openNotes]

theorem openNotes_clearNotes : openNotes (clearNotes all openDeposits) openDeposits = [] := by
  simp [openNotes, clearNotes, List.filter_filter]

theorem openNotes_append_clearNotes_perm (s : List (Note F)) (openDeposits : Finset ℕ) :
    (openNotes s openDeposits ++ clearNotes s openDeposits).Perm s := by
  simpa [openNotes, clearNotes] using
    List.filter_append_perm (fun n : Note F => decide (n.depositIndex ∈ openDeposits)) s

/-- The pool is the clear notes, or these with the largest open one. -/
theorem selectionPool_cases (all : List (Note F)) (openDeposits : Finset ℕ) (amount : ℤ) :
    (selectionPool all openDeposits amount = clearNotes all openDeposits ∧
      (openNotes all openDeposits = [] ∨
        amount ≤ sumBalances ((clearNotes all openDeposits).take maxConsolidateInputs))) ∨
    ∃ largest rest, openNotes all openDeposits = largest :: rest ∧
      selectionPool all openDeposits amount =
        sortByBalance (clearNotes all openDeposits ++ [largest]) := by
  cases hopen : openNotes all openDeposits with
  | nil => exact .inl ⟨by simp [selectionPool, hopen], .inl rfl⟩
  | cons largest rest =>
    by_cases hcovers :
        amount ≤ sumBalances ((clearNotes all openDeposits).take maxConsolidateInputs)
    · exact .inl ⟨by simp [selectionPool, hopen, hcovers], .inr hcovers⟩
    · exact .inr ⟨largest, rest, rfl, by simp [selectionPool, hopen, hcovers]⟩

theorem falling_selectionPool (hall : Greedy.Falling Note.balance all) :
    Greedy.Falling Note.balance (selectionPool all openDeposits amount) := by
  rcases selectionPool_cases all openDeposits amount with ⟨heq, -⟩ | ⟨largest, rest, -, heq⟩
  · rw [heq]; exact List.Pairwise.filter _ hall
  · rw [heq]; exact sortByBalance_pairwise _

/-- The pool has no more than one note of an open lineage. -/
theorem mergeable_of_sublist_pool (hnodup : all.Nodup) {s : List (Note F)}
    (hs : s.Sublist (selectionPool all openDeposits amount))
    (hlen : s.length ≤ maxConsolidateInputs) : Mergeable all openDeposits s := by
  suffices hpool : (selectionPool all openDeposits amount).Nodup ∧
      selectionPool all openDeposits amount ⊆ all ∧
      (openNotes (selectionPool all openDeposits amount) openDeposits).length ≤ 1 from
    ⟨hs.nodup hpool.1, fun _ hn => hpool.2.1 (hs.subset hn), hlen,
      (hs.filter _).length_le.trans hpool.2.2⟩
  rcases selectionPool_cases all openDeposits amount with ⟨heq, -⟩ | ⟨largest, rest, hopen, heq⟩
  · rw [heq, openNotes_clearNotes]
    exact ⟨hnodup.filter _, List.filter_subset_self .., by simp⟩
  · have hlargest : largest ∈ openNotes all openDeposits := by simp [hopen]
    rw [mem_openNotes] at hlargest
    have hperm := sortByBalance_perm (clearNotes all openDeposits ++ [largest])
    rw [heq]
    refine ⟨?_, fun n hn => ?_, ?_⟩
    · rw [hperm.nodup_iff, List.nodup_append]
      refine ⟨hnodup.filter _, List.nodup_singleton _, fun a ha b hb hab => ?_⟩
      rw [hab, List.mem_singleton.mp hb, mem_clearNotes] at ha
      exact ha.2 hlargest.2
    · rw [hperm.mem_iff, List.mem_append, List.mem_singleton] at hn
      rcases hn with hn | rfl
      · exact (mem_clearNotes.mp hn).1
      · exact hlargest.1
    · have hfilter := (hperm.filter fun n => decide (n.depositIndex ∈ openDeposits)).length_eq
      rw [List.filter_append] at hfilter
      have hnil := @openNotes_clearNotes F all openDeposits
      unfold openNotes at hnil ⊢
      rw [hfilter, hnil, List.nil_append]
      exact List.length_filter_le ..

theorem le_balance_of_openNotes (hall : Greedy.Falling Note.balance all) {largest n : Note F}
    {rest : List (Note F)} (hopen : openNotes all openDeposits = largest :: rest)
    (hn : n ∈ openNotes all openDeposits) : n.balance ≤ largest.balance := by
  have hfalling : Greedy.Falling Note.balance (openNotes all openDeposits) :=
    List.Pairwise.filter _ hall
  rw [hopen] at hn hfalling
  rcases List.mem_cons.mp hn with rfl | hn
  · exact le_rfl
  · exact (List.pairwise_cons.mp hfalling).1 n hn

/-- Whatever can be merged, the pool has as good a selection. -/
theorem exists_subperm_pool (hall : Greedy.Falling Note.balance all) {s : List (Note F)}
    (hs : Mergeable all openDeposits s) (hsum : amount ≤ sumBalances s) :
    ∃ t, t.Subperm (selectionPool all openDeposits amount) ∧ t.length ≤ maxConsolidateInputs ∧
      amount ≤ sumBalances t := by
  have hclear : (clearNotes s openDeposits).Subperm (clearNotes all openDeposits) := by
    refine List.subperm_of_subset (hs.nodup.filter _) fun n hn => ?_
    rw [mem_clearNotes] at hn ⊢
    exact ⟨hs.free hn.1, hn.2⟩
  have hperm := openNotes_append_clearNotes_perm s openDeposits
  have hlen : (openNotes s openDeposits).length + (clearNotes s openDeposits).length
      ≤ maxConsolidateInputs := by
    rw [← List.length_append, hperm.length_eq]; exact hs.length_le
  have hweight : sumBalances (openNotes s openDeposits) + sumBalances (clearNotes s openDeposits)
      = sumBalances s := by
    rw [sumBalances_eq_weight, sumBalances_eq_weight, ← Greedy.weight_append,
      Greedy.weight_perm _ hperm, sumBalances_eq_weight]
  have hmem : ∀ n ∈ openNotes s openDeposits, n ∈ openNotes all openDeposits := fun n hn =>
    mem_openNotes.mpr ⟨hs.free (mem_openNotes.mp hn).1, (mem_openNotes.mp hn).2⟩
  -- The open note of the selection, if it has one, is exchanged for the largest.
  cases hsel : openNotes s openDeposits with
  | nil =>
    rw [hsel] at hlen hweight
    simp only [List.length_nil, sumBalances, List.map_nil, List.sum_nil] at hlen hweight hsum
    refine ⟨clearNotes s openDeposits, ?_, by omega, by rw [sumBalances]; omega⟩
    rcases selectionPool_cases all openDeposits amount with ⟨heq, -⟩ | ⟨largest, rest, -, heq⟩
    · rwa [heq]
    · rw [heq]
      exact hclear.trans ((List.sublist_append_left ..).subperm.trans
        (sortByBalance_perm _).symm.subperm)
  | cons n others =>
    have hone := hs.openNotes_length
    rw [hsel] at hone hlen hweight hmem
    obtain rfl : others = [] := List.eq_nil_of_length_eq_zero (by simpa using hone)
    rcases selectionPool_cases all openDeposits amount with
      ⟨heq, hnone | hcovers⟩ | ⟨largest, rest, hopen, heq⟩
    · simpa [hnone] using hmem n
    · exact ⟨_, by rw [heq]; exact (List.take_sublist ..).subperm, List.length_take_le .., hcovers⟩
    · have hle := le_balance_of_openNotes hall hopen (hmem n (by simp))
      refine ⟨clearNotes s openDeposits ++ [largest], ?_, ?_, ?_⟩
      · rw [heq]
        exact ((List.subperm_append_right _).mpr hclear).trans (sortByBalance_perm _).symm.subperm
      · simp only [List.length_append, List.length_cons, List.length_nil] at hlen ⊢
        omega
      · simp only [sumBalances, List.map_append, List.map_cons, List.map_nil, List.sum_append,
          List.sum_cons, List.sum_nil] at hweight ⊢ hsum
        omega

end Pool

/-! ## The note that comes first -/

theorem slot0First_perm (slot0Deposit : Option ℕ) (picked : List (Note F)) :
    (slot0First slot0Deposit picked).Perm picked := by
  unfold slot0First
  split
  next deposit =>
    split
    next n hn =>
      obtain ⟨hp, before, after, hsplit, hbefore⟩ := List.find?_eq_some_iff_append.mp hn
      have hfalse : ∀ a ∈ before, ¬(decide (a.depositIndex = deposit) = true) := by
        simpa using hbefore
      rw [hsplit, List.eraseP_append_right _ hfalse, List.eraseP_cons_of_pos (by exact hp)]
      exact List.perm_middle.symm
    · exact List.Perm.refl _
  · exact List.Perm.refl _

theorem openFirst_cons {openDeposits : Finset ℕ} {n : Note F} {rest : List (Note F)}
    (hone : (openNotes (n :: rest) openDeposits).length ≤ 1) (hn : n.depositIndex ∈ openDeposits) :
    OpenFirst openDeposits (n :: rest) := by
  intro i m him hm
  cases i with
  | zero => rfl
  | succ i =>
    have hrest : m ∈ openNotes rest openDeposits :=
      mem_openNotes.mpr ⟨List.mem_of_getElem? (by simpa using him), hm⟩
    have hpos := List.length_pos_of_mem hrest
    rw [openNotes, List.filter_cons_of_pos (by simpa using hn), List.length_cons] at hone
    rw [openNotes] at hpos
    omega

/-- The picked note of an open lineage is put first. -/
theorem openFirst_slot0First {openDeposits : Finset ℕ} {picked : List (Note F)}
    (hone : (openNotes picked openDeposits).length ≤ 1) (preferred : Option ℕ) :
    OpenFirst openDeposits (slot0First
      (((picked.find? fun n => n.depositIndex ∈ openDeposits).map Note.depositIndex).or preferred)
      picked) := by
  cases hused : picked.find? fun n => n.depositIndex ∈ openDeposits with
  | none =>
    intro i n hin hn
    have hmem := (slot0First_perm _ _).mem_iff.mp (List.mem_of_getElem? hin)
    exact absurd hn (by simpa using List.find?_eq_none.mp hused n hmem)
  | some used =>
    have hopen : used.depositIndex ∈ openDeposits := by simpa using List.find?_some hused
    cases hfirst : picked.find? fun n => n.depositIndex = used.depositIndex with
    | none => simpa using List.find?_eq_none.mp hfirst used (List.mem_of_find?_eq_some hused)
    | some n =>
      have hn : n.depositIndex = used.depositIndex := by simpa using List.find?_some hfirst
      have hperm := slot0First_perm (some used.depositIndex) picked
      rw [Option.map_some, Option.some_or]
      simp only [slot0First, hfirst] at hperm ⊢
      refine openFirst_cons ?_ (by rwa [hn])
      rw [openNotes, (hperm.filter _).length_eq]
      exact hone

/-! ## The selection -/

section PickFrom

variable {all : List (Note F)} {openDeposits : Finset ℕ} {amount : ℤ}

theorem falling_pickFrom (hall : Greedy.Falling Note.balance all) :
    Greedy.Falling Note.balance (pickFrom all openDeposits amount) := by
  unfold pickFrom
  split
  · exact falling_selectionPool hall
  · exact hall

theorem mergeable_of_sublist_pickFrom (hnodup : all.Nodup) {s : List (Note F)}
    (hs : s.Sublist (pickFrom all openDeposits amount))
    (hlen : s.length ≤ maxConsolidateInputs) : Mergeable all openDeposits s := by
  unfold pickFrom at hs
  split at hs
  · exact mergeable_of_sublist_pool hnodup hs hlen
  next hempty =>
    rw [Finset.not_nonempty_iff_eq_empty] at hempty
    exact ⟨hs.nodup hnodup, hs.subset, hlen, by simp [hempty]⟩

theorem exists_subperm_pickFrom (hall : Greedy.Falling Note.balance all) {s : List (Note F)}
    (hs : Mergeable all openDeposits s) (hsum : amount ≤ sumBalances s) :
    ∃ t, t.Subperm (pickFrom all openDeposits amount) ∧ t.length ≤ maxConsolidateInputs ∧
      amount ≤ sumBalances t := by
  unfold pickFrom
  split
  · exact exists_subperm_pool hall hs hsum
  · exact ⟨s, List.subperm_of_subset hs.nodup hs.free, hs.length_le, hsum⟩

theorem mem_of_mem_pickFrom {n : Note F} (hn : n ∈ pickFrom all openDeposits amount) : n ∈ all := by
  unfold pickFrom at hn
  split at hn
  · rcases selectionPool_cases all openDeposits amount with ⟨heq, -⟩ | ⟨largest, rest, hopen, heq⟩
    · rw [heq] at hn
      exact (mem_clearNotes.mp hn).1
    · rw [heq, mem_sortByBalance, List.mem_append] at hn
      rcases hn with hn | hn
      · exact (mem_clearNotes.mp hn).1
      · rw [List.mem_singleton.mp hn]
        exact (mem_openNotes.mp (hopen ▸ List.mem_cons_self)).1
  · exact hn

end PickFrom

/-- What is picked: a prefix of the pool within the limit. -/
def picked (all : List (Note F)) (openDeposits : Finset ℕ) (amount : ℤ) : List (Note F) :=
  (pickFrom all openDeposits amount).foldl
    (Greedy.add Note.balance amount maxConsolidateInputs) []

theorem picked_sublist (all : List (Note F)) (openDeposits : Finset ℕ) (amount : ℤ) :
    (picked all openDeposits amount).Sublist (pickFrom all openDeposits amount) ∧
      (picked all openDeposits amount).length ≤ maxConsolidateInputs := by
  obtain ⟨n, -, heq, hlen, -⟩ := Greedy.foldl_add_eq Note.balance amount maxConsolidateInputs
    (pickFrom all openDeposits amount) []
  rw [picked, heq, List.nil_append]
  refine ⟨List.take_sublist .., (List.length_take_le ..).trans ?_⟩
  simpa using hlen (by simp)

theorem selectNotesForAmount_eq (cache : List (Note F)) (hidden : F → Bool) (wallet : Address)
    (amount : ℤ) (opts : SelectionOptions) :
    let all := sortByBalance (getFreeNotes cache wallet)
    let deposits := openDeposits cache hidden wallet opts
    let notes := picked all deposits amount
    (all = [] ∧ ∃ e, selectNotesForAmount cache hidden wallet amount opts = .error e) ∨
    (sumBalances notes < amount ∧
      ∃ e, selectNotesForAmount cache hidden wallet amount opts = .error e) ∨
    (amount ≤ sumBalances notes ∧ selectNotesForAmount cache hidden wallet amount opts =
      .ok ⟨slot0First (((notes.find? fun n => n.depositIndex ∈ deposits).map Note.depositIndex).or
        opts.preferredSlot0DepositIndex) notes, sumBalances notes⟩) := by
  intro all deposits notes
  have hloop : (pickFrom all deposits amount).foldl (tryAdd amount) ⟨[], 0⟩ =
      ⟨notes, sumBalances notes⟩ := foldl_tryAdd amount _ []
  by_cases hall : all = []
  · exact .inl ⟨hall, _, if_pos hall⟩
  · have heq : selectNotesForAmount cache hidden wallet amount opts =
        if sumBalances notes < amount then
          .error (cannotCombine (if deposits.Nonempty then sumBalances notes
            else sumBalances (all.take maxConsolidateInputs)) amount)
        else .ok ⟨slot0First (((notes.find? fun n => n.depositIndex ∈ deposits).map
          Note.depositIndex).or opts.preferredSlot0DepositIndex) notes, sumBalances notes⟩ := by
      refine (if_neg hall).trans ?_
      simp only [deposits, all] at hloop
      simp only [hloop]
      rfl
    rcases lt_or_ge (sumBalances notes) amount with hlt | hge
    · exact .inr (.inl ⟨hlt, _, heq.trans (if_pos hlt)⟩)
    · exact .inr (.inr ⟨hge, heq.trans (if_neg (not_lt.mpr hge))⟩)

theorem sumBalances_take_of_perm {s t : List (Note F)} (hs : Greedy.Falling Note.balance s)
    (ht : Greedy.Falling Note.balance t) (hperm : s.Perm t) (k : ℕ) :
    sumBalances (s.take k) = sumBalances (t.take k) := by
  have hmap : s.map Note.balance = t.map Note.balance := by
    have hs' : (s.map Note.balance).Pairwise fun a b => b ≤ a := List.pairwise_map.mpr hs
    have ht' : (t.map Note.balance).Pairwise fun a b => b ≤ a := List.pairwise_map.mpr ht
    exact (hperm.map _).eq_of_pairwise (fun _ _ _ _ hab hba => le_antisymm hba hab) hs' ht'
  rw [sumBalances, sumBalances, List.map_take, List.map_take, hmap]

/-- Where four clear notes cover the amount, only clear notes are selected. -/
theorem selectNotesForAmount_clear {cache : List (Note F)} {hidden : F → Bool} {wallet : Address}
    {amount : ℤ} {opts : SelectionOptions} {sel : NoteSelection F}
    (h : selectNotesForAmount cache hidden wallet amount opts = .ok sel)
    (hcovers : amount ≤ sumBalances ((clearNotes (sortByBalance (getFreeNotes cache wallet))
      (openDeposits cache hidden wallet opts)).take maxConsolidateInputs)) :
    ∀ n ∈ sel.notes, n.depositIndex ∉ openDeposits cache hidden wallet opts := by
  have hpicked : ∀ n ∈ picked (sortByBalance (getFreeNotes cache wallet))
      (openDeposits cache hidden wallet opts) amount,
      n.depositIndex ∉ openDeposits cache hidden wallet opts := by
    intro n hn
    have hpool := (picked_sublist _ _ _).1.subset hn
    unfold pickFrom at hpool
    split at hpool
    · unfold selectionPool at hpool
      split at hpool
      · rw [if_pos hcovers] at hpool
        exact (mem_clearNotes.mp hpool).2
      · exact (mem_clearNotes.mp hpool).2
    next hempty =>
      rw [Finset.not_nonempty_iff_eq_empty.mp hempty]
      exact Finset.notMem_empty _
  rcases selectNotesForAmount_eq cache hidden wallet amount opts with
    ⟨-, e, heq⟩ | ⟨-, e, heq⟩ | ⟨-, heq⟩
  · rw [heq] at h
    cases h
  · rw [heq] at h
    cases h
  · rw [heq] at h
    cases h
    exact fun n hn => hpicked n ((slot0First_perm _ _).mem_iff.mp hn)

section Spec

variable {cache : List (Note F)} {hidden : F → Bool} {wallet : Address} {amount : ℤ}
  {opts : SelectionOptions}

theorem mergeable_sortByBalance {free s : List (Note F)} {openDeposits : Finset ℕ} :
    Mergeable (sortByBalance free) openDeposits s ↔ Mergeable free openDeposits s := by
  have hperm := sortByBalance_perm free
  constructor
  · intro h
    exact ⟨h.nodup, fun _ hn => hperm.mem_iff.mp (h.free hn), h.length_le, h.open_le_one⟩
  · intro h
    exact ⟨h.nodup, fun _ hn => hperm.mem_iff.mpr (h.free hn), h.length_le, h.open_le_one⟩

/-- The selected notes are the shortest prefix of the pool that covers the amount. -/
theorem selectNotesForAmount_firstCover {sel : NoteSelection F}
    (h : selectNotesForAmount cache hidden wallet amount opts = .ok sel) :
    ∃ n ≤ maxConsolidateInputs,
      Greedy.FirstCover Note.balance amount (pickFrom (sortByBalance (getFreeNotes cache wallet))
        (openDeposits cache hidden wallet opts) amount) n ∧
      sel.notes.Perm ((pickFrom (sortByBalance (getFreeNotes cache wallet))
        (openDeposits cache hidden wallet opts) amount).take n) := by
  rcases selectNotesForAmount_eq cache hidden wallet amount opts with
    ⟨-, e, heq⟩ | ⟨-, e, heq⟩ | ⟨hge, heq⟩
  · rw [heq] at h
    cases h
  · rw [heq] at h
    cases h
  · rw [heq] at h
    cases h
    obtain ⟨n, hn, hcover, htake⟩ := Greedy.exists_firstCover hge
    exact ⟨n, hn, hcover, htake ▸ slot0First_perm _ _⟩

theorem selectNotesForAmount_ok
    (hone : ((getFreeNotes cache wallet).map Note.depositIndex).Nodup) {sel : NoteSelection F}
    (h : selectNotesForAmount cache hidden wallet amount opts = .ok sel) :
    Mergeable (getFreeNotes cache wallet) (openDeposits cache hidden wallet opts) sel.notes ∧
      sel.total = sumBalances sel.notes ∧ amount ≤ sumBalances sel.notes ∧
      OpenFirst (openDeposits cache hidden wallet opts) sel.notes := by
  have hnodup : (sortByBalance (getFreeNotes cache wallet)).Nodup :=
    (sortByBalance_perm _).nodup_iff.mpr (List.Nodup.of_map _ hone)
  obtain ⟨hsub, hlen⟩ := picked_sublist (sortByBalance (getFreeNotes cache wallet))
    (openDeposits cache hidden wallet opts) amount
  have hpicked := mergeable_of_sublist_pickFrom hnodup hsub hlen
  rcases selectNotesForAmount_eq cache hidden wallet amount opts with
    ⟨-, e, heq⟩ | ⟨-, e, heq⟩ | ⟨hge, heq⟩
  · rw [heq] at h
    cases h
  · rw [heq] at h
    cases h
  · rw [heq] at h
    cases h
    exact ⟨mergeable_sortByBalance.mp (hpicked.perm (slot0First_perm _ _)),
      (sumBalances_perm (slot0First_perm _ _)).symm,
      hge.trans_eq (sumBalances_perm (slot0First_perm _ _)).symm,
      openFirst_slot0First hpicked.open_le_one _⟩

/-- It fails only where no selection covers the amount. -/
theorem selectNotesForAmount_error (hamount : 0 < amount) {e : String}
    (h : selectNotesForAmount cache hidden wallet amount opts = .error e) {s : List (Note F)}
    (hs : Mergeable (getFreeNotes cache wallet) (openDeposits cache hidden wallet opts) s) :
    sumBalances s < amount := by
  have hall : Greedy.Falling Note.balance (sortByBalance (getFreeNotes cache wallet)) :=
    sortByBalance_pairwise _
  have hs' := mergeable_sortByBalance.mpr hs
  rcases selectNotesForAmount_eq cache hidden wallet amount opts with
    ⟨hnil, -⟩ | ⟨hlt, -⟩ | ⟨-, heq⟩
  · have hfree := hs'.free
    rw [hnil, List.subset_nil] at hfree
    simpa [hfree, sumBalances] using hamount
  · by_contra hcovers
    obtain ⟨t, ht, htlen, hsum⟩ := exists_subperm_pickFrom hall hs' (not_lt.mp hcovers)
    exact absurd hsum (not_le.mpr ((falling_pickFrom hall).lt_goal hlt ht htlen))
  · rw [heq] at h
    cases h

end Spec

/-- What the selection returns can be merged, covers the amount and leaves every open lineage
going; it fails only where no selection does. -/
theorem selectNotesForAmount_sound_complete (cache : List (Note F)) (hidden : F → Bool)
    (wallet : Address) (amount : ℤ) (opts : SelectionOptions)
    (hone : ((getFreeNotes cache wallet).map Note.depositIndex).Nodup) (hamount : 0 < amount) :
    (∀ sel, selectNotesForAmount cache hidden wallet amount opts = .ok sel →
      Mergeable (getFreeNotes cache wallet) (openDeposits cache hidden wallet opts) sel.notes ∧
      sel.total = sumBalances sel.notes ∧ amount ≤ sumBalances sel.notes ∧
      OpenFirst (openDeposits cache hidden wallet opts) sel.notes) ∧
    (∀ e, selectNotesForAmount cache hidden wallet amount opts = .error e → ∀ s,
      Mergeable (getFreeNotes cache wallet) (openDeposits cache hidden wallet opts) s →
      sumBalances s < amount) := by
  constructor
  · intro sel hsel
    exact selectNotesForAmount_ok hone hsel
  · intro e he s hs
    exact selectNotesForAmount_error hamount he hs

def cashNote (depositIndex : ℕ) (balance : ℤ) : Note ℕ where
  id := .commitment depositIndex
  kind := .deposit
  ownerAddress := 1
  depositIndex
  balance
  nonce := 1
  commitment := .commitment depositIndex
  nullifier := depositIndex
  spent := false
  marketId := none
  side := none
  expectedShares := none
  nullifierOfBet := none
  positionId := none
  conditionId := none
  rawConditionId := none
  betAmount := none
  protocolFee := none
  derivationVersion := none

def openReceipt (depositIndex : ℕ) : Note ℕ :=
  { cashNote depositIndex 0 with
    id := .receipt depositIndex
    kind := .betReceipt
    commitment := .receipt depositIndex
    nullifierOfBet := some depositIndex }

theorem selectNotesForAmount_open_lineage :
    let cache := [cashNote 0 30, cashNote 1 80, openReceipt 1]
    (∀ sel, selectNotesForAmount cache (fun _ => false) 1 90 ⟨none, none⟩ = .ok sel →
      Mergeable [cashNote 0 30, cashNote 1 80] {1} sel.notes ∧ sel.total = sumBalances sel.notes ∧
      90 ≤ sumBalances sel.notes ∧ OpenFirst {1} sel.notes) ∧
    (∀ e, selectNotesForAmount cache (fun _ => false) 1 90 ⟨none, none⟩ = .error e → ∀ s,
      Mergeable [cashNote 0 30, cashNote 1 80] {1} s → sumBalances s < 90) :=
  selectNotesForAmount_sound_complete [cashNote 0 30, cashNote 1 80, openReceipt 1]
    (fun _ => false) 1 90 ⟨none, none⟩ (by decide) (by decide)

end Polyshield.Wallet

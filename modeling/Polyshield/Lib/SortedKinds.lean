import Mathlib.Data.List.Sort

/-!
# Lists split by kind and merged again

A sorted list is read as one list for each kind of its elements. The lists put
together and sorted are the elements of some kind, in the order of the list.
-/

namespace Polyshield

variable {α κ : Type*} [DecidableEq κ]

/-- The lists of the kinds, put together, are what is of some kind. -/
theorem flatMap_filter_perm (kind : α → Option κ) (l : List α) {kinds : List κ}
    (hkinds : kinds.Nodup) :
    (kinds.flatMap fun k => l.filter fun x => kind x = some k).Perm
      (l.filter fun x => ∃ k ∈ kinds, kind x = some k) := by
  induction kinds with
  | nil => simp
  | cons k kinds ih =>
    obtain ⟨hk, hkinds⟩ := List.nodup_cons.mp hkinds
    rw [List.flatMap_cons]
    refine ((ih hkinds).append_left _).trans ?_
    -- Split the whole list by the first kind.
    refine List.Perm.trans ?_ (List.filter_append_perm (fun x => decide (kind x = some k))
      (l.filter fun x => ∃ k' ∈ k :: kinds, kind x = some k'))
    rw [List.filter_filter, List.filter_filter]
    refine List.Perm.append (.of_eq (List.filter_congr fun x _ => ?_))
      (.of_eq (List.filter_congr fun x _ => ?_))
    · rw [Bool.eq_iff_iff]
      simp only [List.mem_cons, decide_eq_true_eq, Bool.and_eq_true]
      exact ⟨fun hx => ⟨hx, k, .inl rfl, hx⟩, fun hx => hx.1⟩
    · rw [Bool.eq_iff_iff]
      simp only [List.mem_cons, decide_eq_true_eq, Bool.and_eq_true, Bool.not_eq_true',
        decide_eq_false_iff_not]
      constructor
      · rintro ⟨k', hmem, hx⟩
        refine ⟨fun heq => hk ?_, k', .inr hmem, hx⟩
        rwa [Option.some.inj (heq.symm.trans hx)]
      · rintro ⟨hne, k', rfl | hmem, hx⟩
        · exact absurd hx hne
        · exact ⟨k', hmem, hx⟩

theorem mergeSort_kinds {le : α → α → Bool} (trans : ∀ a b c, le a b → le b c → le a c)
    (total : ∀ a b, le a b || le b a) (kind : α → Option κ) {l : List α}
    (hsorted : l.Pairwise fun a b => le a b)
    (hplace : ∀ a ∈ l, ∀ b ∈ l, le a b → le b a → a = b) {kinds : List κ}
    (hkinds : kinds.Nodup) :
    (kinds.flatMap fun k => l.filter fun x => kind x = some k).mergeSort le
      = l.filter fun x => ∃ k ∈ kinds, kind x = some k := by
  have hperm := (List.mergeSort_perm _ le).trans (flatMap_filter_perm kind l hkinds)
  refine hperm.eq_of_pairwise (fun a b ha hb => ?_) (List.pairwise_mergeSort trans total _)
    (hsorted.filter _)
  exact hplace a (List.mem_of_mem_filter (hperm.subset ha)) b (List.mem_of_mem_filter hb)

end Polyshield

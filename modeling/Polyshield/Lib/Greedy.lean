import Mathlib.Algebra.BigOperators.Group.List.Basic
import Mathlib.Algebra.Order.Monoid.Defs
import Mathlib.Data.List.Basic

/-!
# Greedy selection by weight

A list in the order of falling weights, and the elements that a greedy pass takes
from it: elements are added until the weight taken reaches `goal` or `limit` of
them are taken. What it takes is a prefix, and no selection of as many elements
weighs more than the prefix of its length.
-/

namespace Polyshield.Greedy

variable {α : Type*} {M : Type*} [AddCommMonoid M] [LinearOrder M]

def weight (w : α → M) (l : List α) : M := (l.map w).sum

section Weight

variable (w : α → M)

omit [LinearOrder M] in
@[simp] theorem weight_nil : weight w [] = 0 := rfl

omit [LinearOrder M] in
@[simp] theorem weight_cons (a : α) (l : List α) : weight w (a :: l) = w a + weight w l := by
  simp [weight]

omit [LinearOrder M] in
theorem weight_append (l m : List α) : weight w (l ++ m) = weight w l + weight w m := by
  simp [weight]

omit [LinearOrder M] in
theorem weight_perm {l m : List α} (h : l.Perm m) : weight w l = weight w m :=
  (h.map w).sum_eq

end Weight

/-- The weights fall along the list. -/
def Falling (w : α → M) (l : List α) : Prop := l.Pairwise fun a b => w b ≤ w a

section Domination

variable {w : α → M} [IsOrderedAddMonoid M]

theorem Falling.take_tail_le {a : α} {l : List α} (h : Falling w (a :: l)) {n : ℕ}
    (hn : n ≤ l.length) : weight w (l.take n) ≤ weight w ((a :: l).take n) := by
  induction l generalizing a n with
  | nil => simp at hn; simp [hn]
  | cons b l ih =>
    cases n with
    | zero => simp
    | succ n =>
      rw [Falling, List.pairwise_cons] at h
      rw [List.take_succ_cons, List.take_succ_cons, weight_cons, weight_cons]
      exact add_le_add (h.1 b (by simp)) (ih h.2 (by simpa using hn))

/-- No selection weighs more than the prefix with as many elements. -/
theorem Falling.weight_le {l : List α} (h : Falling w l) {s : List α} (hs : s.Subperm l) :
    weight w s ≤ weight w (l.take s.length) := by
  classical
  induction l generalizing s with
  | nil => simp [List.subperm_nil.mp hs]
  | cons a l ih =>
    have htail : Falling w l := (List.pairwise_cons.mp h).2
    by_cases ha : a ∈ s
    · have hperm := List.perm_cons_erase ha
      have hrest : (s.erase a).Subperm l :=
        (List.subperm_cons a).mp ((hperm.symm.subperm).trans hs)
      have hlen : s.length = (s.erase a).length + 1 := by
        rw [hperm.length_eq, List.length_cons]
      rw [weight_perm w hperm, hlen, List.take_succ_cons, weight_cons, weight_cons]
      exact add_le_add_right (ih htail hrest) (w a)
    · have hrest : s.Subperm l := by
        have := hs.erase a
        rwa [List.erase_of_not_mem ha, List.erase_cons_head] at this
      exact (ih htail hrest).trans (h.take_tail_le hrest.length_le)

end Domination

/-- One element of the pass. -/
def add (w : α → M) (goal : M) (limit : ℕ) (s : List α) (a : α) : List α :=
  if goal ≤ weight w s ∨ limit ≤ s.length then s else s ++ [a]

section Pass

variable (w : α → M) (goal : M) (limit : ℕ)

/-- Once it has stopped, the pass takes nothing more. -/
theorem foldl_add_of_stop (l : List α) {s : List α} (h : goal ≤ weight w s ∨ limit ≤ s.length) :
    l.foldl (add w goal limit) s = s := by
  induction l with
  | nil => rfl
  | cons a l ih => rw [List.foldl_cons, add, if_pos h, ih]

/-- The pass takes a prefix, and stops at the first one that reaches the goal or the limit. -/
theorem foldl_add_eq (l s : List α) : ∃ n ≤ l.length,
    l.foldl (add w goal limit) s = s ++ l.take n ∧
      (s.length ≤ limit → s.length + n ≤ limit) ∧
      (∀ m < n, weight w (s ++ l.take m) < goal) ∧
      (goal ≤ weight w (s ++ l.take n) ∨ limit ≤ s.length + n ∨ n = l.length) := by
  induction l generalizing s with
  | nil => exact ⟨0, le_rfl, by simp, by simp, by simp, .inr (.inr rfl)⟩
  | cons a l ih =>
    by_cases hstop : goal ≤ weight w s ∨ limit ≤ s.length
    · refine ⟨0, by simp, ?_, by simp, by simp, ?_⟩
      · rw [foldl_add_of_stop w goal limit _ hstop]; simp
      · rcases hstop with hgoal | hlimit
        · exact .inl (by simpa using hgoal)
        · exact .inr (.inl (by simpa using hlimit))
    · obtain ⟨n, hn, heq, hlen, hlow, hend⟩ := ih (s ++ [a])
      have htake : ∀ m, s ++ [a] ++ l.take m = s ++ (a :: l).take (m + 1) := by simp
      rw [not_or, not_le, not_le] at hstop
      refine ⟨n + 1, by simpa using hn, ?_, ?_, ?_, ?_⟩
      · rw [List.foldl_cons, add, if_neg (by simpa using hstop), heq, htake]
      · intro _
        have := hlen (by simp; omega)
        simp at this
        omega
      · intro m hm
        cases m with
        | zero => simpa using hstop.1
        | succ m => rw [← htake]; exact hlow m (by omega)
      · rw [htake] at hend
        simp only [List.length_append, List.length_cons, List.length_nil] at hend
        rcases hend with hgoal | hlimit | hall
        · exact .inl hgoal
        · exact .inr (.inl (by omega))
        · exact .inr (.inr (by simp [hall]))

/-- A pass that fails to reach the goal has no prefix within the limit that reaches it. -/
theorem lt_goal_of_foldl_add {l : List α} (h : weight w (l.foldl (add w goal limit) []) < goal)
    {m : ℕ} (hm : m ≤ limit) : weight w (l.take m) < goal := by
  obtain ⟨n, hn, heq, -, hlow, hend⟩ := foldl_add_eq w goal limit l []
  simp only [List.nil_append, List.length_nil, Nat.zero_add] at heq hlow hend
  rw [heq] at h
  rcases Nat.lt_or_ge m n with hlt | hge
  · exact hlow m hlt
  · rcases hend with hgoal | hlimit | hall
    · exact absurd hgoal (not_le.mpr h)
    · rwa [Nat.le_antisymm (hm.trans hlimit) hge]
    · rw [List.take_of_length_le hall.ge] at h
      rwa [List.take_of_length_le (hall.ge.trans hge)]

/-- The first `n` elements are the shortest prefix that reaches the goal. -/
structure FirstCover (l : List α) (n : ℕ) : Prop where
  reaches : goal ≤ weight w (l.take n)
  below : ∀ m < n, weight w (l.take m) < goal

variable {w goal limit}

theorem FirstCover.unique {l : List α} {n n' : ℕ} (h : FirstCover w goal l n)
    (h' : FirstCover w goal l n') : n = n' := by
  rcases Nat.lt_trichotomy n n' with hlt | heq | hgt
  · exact absurd h.reaches (not_le.mpr (h'.below n hlt))
  · exact heq
  · exact absurd h'.reaches (not_le.mpr (h.below n' hgt))

/-- A pass that reaches the goal has taken the shortest prefix that does. -/
theorem exists_firstCover {l : List α} (h : goal ≤ weight w (l.foldl (add w goal limit) [])) :
    ∃ n ≤ limit, FirstCover w goal l n ∧ l.foldl (add w goal limit) [] = l.take n := by
  obtain ⟨n, -, heq, hlen, hlow, -⟩ := foldl_add_eq w goal limit l []
  simp only [List.nil_append, List.length_nil, Nat.zero_add] at heq hlen hlow
  rw [heq] at h ⊢
  exact ⟨n, hlen (Nat.zero_le _), ⟨h, hlow⟩, rfl⟩

/-- The last element of the shortest prefix is what reaches the goal, and the ones before it
weigh no less. -/
theorem FirstCover.pos [IsOrderedAddMonoid M] {l : List α} {n : ℕ} (h : FirstCover w goal l n)
    (hfalling : Falling w l) : ∀ a ∈ l.take n, 0 < w a := by
  intro a ha
  obtain ⟨i, hi, rfl⟩ := List.getElem_of_mem ha
  rw [List.length_take] at hi
  obtain ⟨m, rfl⟩ : ∃ m, n = m + 1 := ⟨n - 1, by omega⟩
  rw [List.getElem_take]
  rcases Nat.lt_or_ge m l.length with hm | hm
  · have hlast : 0 < w l[m] := by
      by_contra hle
      have hsum : weight w (l.take (m + 1)) = weight w (l.take m) + w l[m] := by
        rw [List.take_succ_eq_append_getElem hm, weight_append, weight_cons, weight_nil, add_zero]
      have hdrop : weight w (l.take (m + 1)) ≤ weight w (l.take m) := by
        rw [hsum]
        exact add_le_of_nonpos_right (not_lt.mp hle)
      exact absurd (h.reaches.trans hdrop) (not_le.mpr (h.below m (Nat.lt_succ_self m)))
    rcases Nat.lt_or_ge i m with him | him
    · exact hlast.trans_le (List.pairwise_iff_getElem.mp hfalling i m (by omega) hm him)
    · obtain rfl : i = m := by omega
      exact hlast
  · have hall : l.take (m + 1) = l.take m := by
      rw [List.take_of_length_le hm, List.take_of_length_le (by omega)]
    have hreaches := h.reaches
    rw [hall] at hreaches
    exact absurd hreaches (not_le.mpr (h.below m (Nat.lt_succ_self m)))

end Pass

/-- A falling list of which the pass takes too little has no selection within the limit that
reaches the goal. -/
theorem Falling.lt_goal {w : α → M} [IsOrderedAddMonoid M] {goal : M} {limit : ℕ} {l : List α}
    (h : Falling w l) (hfail : weight w (l.foldl (add w goal limit) []) < goal) {s : List α}
    (hs : s.Subperm l) (hlen : s.length ≤ limit) : weight w s < goal :=
  (h.weight_le hs).trans_lt (lt_goal_of_foldl_add w goal limit hfail hlen)

end Polyshield.Greedy

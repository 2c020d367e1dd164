import Mathlib.Data.List.Basic
import Mathlib.Tactic

/-!
# Lists with at most one entry of a kind

`AtMostOne P l`: two entries of `l` that satisfy `P` are one entry. Appending an
entry next to none, changing one without adding to the kind and dropping one keep
this. A sum over such a list that only counts the kind is its one entry.
-/

def AtMostOne {α : Type*} (P : α → Prop) (l : List α) : Prop :=
  ∀ (i j : ℕ) (a b : α), l[i]? = some a → l[j]? = some b → P a → P b → i = j

namespace AtMostOne

variable {α : Type*} {P : α → Prop} {l : List α} {a b : α} {i : ℕ}

theorem nil : AtMostOne P ([] : List α) := fun i _ a _ ha => by simp at ha

theorem append_singleton (h : AtMostOne P l) (hnew : P a → ∀ b ∈ l, ¬P b) :
    AtMostOne P (l ++ [a]) := by
  -- An entry of the new list is an old one, or the new one at its end.
  have hcases : ∀ (k : ℕ) (c : α), (l ++ [a])[k]? = some c →
      l[k]? = some c ∨ k = l.length ∧ c = a := by
    intro k c hk
    rw [List.getElem?_append] at hk
    split at hk
    · exact .inl hk
    · have hmem := List.mem_singleton.mp (List.mem_of_getElem? hk)
      have hlt := (List.getElem?_eq_some_iff.mp hk).1
      simp only [List.length_singleton] at hlt
      exact .inr ⟨by omega, hmem⟩
  intro i j b c hi hj hb hc
  rcases hcases i b hi with hold | ⟨rfl, rfl⟩
  · rcases hcases j c hj with hold' | ⟨rfl, rfl⟩
    · exact h i j b c hold hold' hb hc
    · exact absurd hb (hnew hc b (List.mem_of_getElem? hold))
  · rcases hcases j c hj with hold' | ⟨rfl, rfl⟩
    · exact absurd hc (hnew hb c (List.mem_of_getElem? hold'))
    · rfl

theorem append (h : AtMostOne P l) {new : List α} (hnone : ∀ c ∈ new, ¬P c) :
    AtMostOne P (l ++ new) := by
  induction new generalizing l with
  | nil => rwa [List.append_nil]
  | cons c new ih =>
    rw [List.append_cons]
    refine ih (h.append_singleton fun hc => absurd hc ?_) fun d hd => ?_
    · exact hnone c List.mem_cons_self
    · exact hnone d (List.mem_cons_of_mem _ hd)

theorem set (h : AtMostOne P l) (hi : l[i]? = some a) (himp : P b → P a) :
    AtMostOne P (l.set i b) := by
  have hcases : ∀ (k : ℕ) (c : α), (l.set i b)[k]? = some c → P c →
      ∃ d : α, l[k]? = some d ∧ P d := by
    intro k c hk hc
    by_cases hik : i = k
    · subst hik
      rw [List.getElem?_set_self (List.getElem?_eq_some_iff.mp hi).1] at hk
      obtain rfl := Option.some.inj hk
      exact ⟨a, hi, himp hc⟩
    · rw [List.getElem?_set_ne hik] at hk
      exact ⟨c, hk, hc⟩
  intro j k c d hj hk hc hd
  obtain ⟨c', hj', hc'⟩ := hcases j c hj hc
  obtain ⟨d', hk', hd'⟩ := hcases k d hk hd
  exact h j k c' d' hj' hk' hc' hd'

theorem eraseIdx (h : AtMostOne P l) (i : ℕ) : AtMostOne P (l.eraseIdx i) := by
  intro j k a b hj hk ha hb
  rw [List.getElem?_eraseIdx] at hj hk
  split at hj <;> split at hk
  · exact h j k a b hj hk ha hb
  · have := h j (k + 1) a b hj hk ha hb
    omega
  · have := h (j + 1) k a b hj hk ha hb
    omega
  · have := h (j + 1) (k + 1) a b hj hk ha hb
    omega

theorem none_eraseIdx (h : AtMostOne P l) (hi : l[i]? = some a) (ha : P a) :
    ∀ b ∈ l.eraseIdx i, ¬P b := by
  intro b hb hPb
  obtain ⟨k, hk⟩ := List.mem_iff_getElem?.mp hb
  rw [List.getElem?_eraseIdx] at hk
  split at hk
  · have := h i k a b hi hk ha hPb
    omega
  · have := h i (k + 1) a b hi hk ha hPb
    omega

theorem cons (h : AtMostOne P (a :: l)) : AtMostOne P l := by
  intro i j b c hi hj hb hc
  have := h (i + 1) (j + 1) b c hi hj hb hc
  omega

theorem none_of_cons (h : AtMostOne P (a :: l)) (ha : P a) : ∀ b ∈ l, ¬P b := by
  intro b hb hPb
  obtain ⟨k, hk⟩ := List.mem_iff_getElem?.mp hb
  have := h 0 (k + 1) a b rfl hk ha hPb
  omega

end AtMostOne

theorem List.sum_map_eq_zero {α : Type*} {l : List α} {f : α → ℕ} (h : ∀ a ∈ l, f a = 0) :
    (l.map f).sum = 0 := by
  rw [List.sum_eq_zero]
  intro n hn
  obtain ⟨a, ha, rfl⟩ := List.mem_map.mp hn
  exact h a ha

theorem AtMostOne.sum_map_eq {α : Type*} {P : α → Prop} {l : List α} (h : AtMostOne P l) {f : α → ℕ}
    (hf : ∀ a ∈ l, ¬P a → f a = 0) {a : α} (ha : a ∈ l) (hPa : P a) : (l.map f).sum = f a := by
  induction l with
  | nil => exact absurd ha List.not_mem_nil
  | cons b l ih =>
    rw [List.map_cons, List.sum_cons]
    rcases List.mem_cons.mp ha with rfl | ha
    · rw [List.sum_map_eq_zero fun c hc =>
        hf c (List.mem_cons_of_mem _ hc) (h.none_of_cons hPa c hc), Nat.add_zero]
    · have hb : ¬P b := fun hb => h.none_of_cons hb a ha hPa
      rw [hf b List.mem_cons_self hb, Nat.zero_add]
      exact ih h.cons (fun c hc => hf c (List.mem_cons_of_mem _ hc)) ha

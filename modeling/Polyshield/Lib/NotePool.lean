import Mathlib.Algebra.BigOperators.Group.Finset.Basic
import Mathlib.Tactic

/-!
# Totals over keyed balances

Two kinds of total. A sum over a finite set of keys of a function of a map's
entries, when one entry changes (`sum_update`, `sum_insert_update`). And the
value of a pool of notes, where notes may share a key, a spent key is worth
nothing and an unspent one is worth its largest note (`NotePool.value`).
-/

theorem sum_update {κ β : Type*} [DecidableEq κ] {S : Finset κ} {k : κ} (hk : k ∈ S)
    (f : κ → β) (v : β) (g : β → ℕ) :
    ∑ x ∈ S, g (Function.update f k v x) + g (f k) = ∑ x ∈ S, g (f x) + g v := by
  have h1 := Finset.add_sum_erase S (fun x => g (Function.update f k v x)) hk
  have h2 := Finset.add_sum_erase S (fun x => g (f x)) hk
  have h3 : ∑ x ∈ S.erase k, g (Function.update f k v x) = ∑ x ∈ S.erase k, g (f x) :=
    Finset.sum_congr rfl fun x hx => by rw [Function.update_of_ne (Finset.ne_of_mem_erase hx)]
  simp only [Function.update_self] at h1
  omega

theorem sum_insert_update {κ β : Type*} [DecidableEq κ] {S : Finset κ} {k : κ} (hk : k ∉ S)
    (f : κ → β) (v : β) (g : β → ℕ) :
    ∑ x ∈ insert k S, g (Function.update f k v x) = ∑ x ∈ S, g (f x) + g v := by
  rw [Finset.sum_insert hk, Function.update_self, Nat.add_comm]
  congr 1
  refine Finset.sum_congr rfl fun x hx => ?_
  have hne : x ≠ k := fun e => hk (e ▸ hx)
  rw [Function.update_of_ne hne]

namespace NotePool

variable {ν κ : Type*} [DecidableEq κ] (key : ν → κ) (bal : ν → ℕ)

/-- The largest balance among the notes of a key. -/
def peak (notes : List ν) (k : κ) : ℕ :=
  ((notes.filter fun n => key n = k).map bal).foldr max 0

/-- The value of the notes with unspent keys, one note for each key. -/
def value (notes : List ν) (spent : κ → Bool) : ℕ :=
  ∑ k ∈ (notes.map key).toFinset, if spent k then 0 else peak key bal notes k

variable {key bal}

theorem peak_cons (n : ν) (notes : List ν) (k : κ) :
    peak key bal (n :: notes) k
      = if key n = k then max (bal n) (peak key bal notes k) else peak key bal notes k := by
  unfold peak
  by_cases h : key n = k <;> simp [h]

theorem peak_append (notes : List ν) (n : ν) (k : κ) :
    peak key bal (notes ++ [n]) k
      = if key n = k then max (peak key bal notes k) (bal n) else peak key bal notes k := by
  induction notes with
  | nil =>
    rw [List.nil_append, peak_cons]
    simp [peak]
  | cons m notes ih =>
    rw [List.cons_append, peak_cons, peak_cons, ih]
    split_ifs <;> omega

variable (key bal) in
theorem bal_le_peak {notes : List ν} {n : ν} (h : n ∈ notes) :
    bal n ≤ peak key bal notes (key n) := by
  induction notes with
  | nil => cases h
  | cons m notes ih =>
    rw [peak_cons]
    rcases List.mem_cons.mp h with rfl | h
    · rw [if_pos rfl]; omega
    · have := ih h
      split_ifs <;> omega

theorem peak_eq_zero {notes : List ν} {k : κ} (h : k ∉ notes.map key) :
    peak key bal notes k = 0 := by
  induction notes with
  | nil => rfl
  | cons m notes ih =>
    rw [List.map_cons, List.mem_cons, not_or] at h
    rw [peak_cons, if_neg (Ne.symm h.1), ih h.2]

/-- A note that shares its key with no other is worth its balance. -/
theorem peak_eq_bal {notes : List ν} {n : ν} (hnd : (notes.map key).Nodup) (h : n ∈ notes) :
    peak key bal notes (key n) = bal n := by
  induction notes with
  | nil => cases h
  | cons m notes ih =>
    rw [List.map_cons, List.nodup_cons] at hnd
    rw [peak_cons]
    rcases List.mem_cons.mp h with rfl | h
    · rw [if_pos rfl, peak_eq_zero hnd.1, max_eq_left (Nat.zero_le _)]
    · have hne : key m ≠ key n := fun e => hnd.1 (e ▸ List.mem_map_of_mem h)
      rw [if_neg hne, ih hnd.2 h]

@[simp] theorem value_nil (spent : κ → Bool) : value key bal [] spent = 0 := rfl

theorem value_eq_sum {notes : List ν} {S : Finset κ} (hS : (notes.map key).toFinset ⊆ S)
    (spent : κ → Bool) :
    value key bal notes spent = ∑ k ∈ S, if spent k then 0 else peak key bal notes k := by
  refine Finset.sum_subset hS fun k _ hk => ?_
  rw [List.mem_toFinset] at hk
  rw [peak_eq_zero hk, ite_self]

theorem value_append_le (notes : List ν) (n : ν) (spent : κ → Bool) :
    value key bal (notes ++ [n]) spent ≤ value key bal notes spent + bal n := by
  let S := insert (key n) (notes.map key).toFinset
  have h1 : ((notes ++ [n]).map key).toFinset ⊆ S := fun k hk => by simpa [S, or_comm] using hk
  have h2 : (notes.map key).toFinset ⊆ S := Finset.subset_insert _ _
  rw [value_eq_sum h1, value_eq_sum h2]
  have h3 : ∑ k ∈ S, (if k = key n then bal n else 0) = bal n := by simp [S]
  rw [← h3, ← Finset.sum_add_distrib]
  refine Finset.sum_le_sum fun k _ => ?_
  simp only [peak_append]
  by_cases hk : k = key n
  · subst hk
    split_ifs <;> omega
  · rw [if_neg (Ne.symm hk), if_neg hk]
    omega

theorem value_append {notes : List ν} {n : ν} {spent : κ → Bool} (hk : key n ∉ notes.map key)
    (hs : spent (key n) = false) :
    value key bal (notes ++ [n]) spent = value key bal notes spent + bal n := by
  have e : ((notes ++ [n]).map key).toFinset = insert (key n) (notes.map key).toFinset := by
    ext k; simp
  unfold value
  rw [e, Finset.sum_insert (by simpa using hk), hs, peak_append, if_pos rfl, peak_eq_zero hk]
  have hsum : ∀ k ∈ (notes.map key).toFinset,
      (if spent k then 0 else peak key bal (notes ++ [n]) k)
        = if spent k then 0 else peak key bal notes k := fun k hmem => by
    have hne : key n ≠ k := fun e => hk (e ▸ List.mem_toFinset.mp hmem)
    rw [peak_append, if_neg hne]
  rw [Finset.sum_congr rfl hsum]
  simp only [Bool.false_eq_true, ↓reduceIte]
  omega

variable (key bal) in
theorem value_spend (notes : List ν) {k : κ} {spent : κ → Bool} (hs : spent k = false) :
    value key bal notes (Function.update spent k true) + peak key bal notes k
      = value key bal notes spent := by
  let S := insert k (notes.map key).toFinset
  have hS : (notes.map key).toFinset ⊆ S := Finset.subset_insert _ _
  have hkS : k ∈ S := Finset.mem_insert_self _ _
  rw [value_eq_sum hS, value_eq_sum hS, ← Finset.add_sum_erase S _ hkS,
    ← Finset.add_sum_erase S (fun x => if spent x then 0 else peak key bal notes x) hkS]
  have hrest : ∀ x ∈ S.erase k,
      (if Function.update spent k true x then 0 else peak key bal notes x)
        = if spent x then 0 else peak key bal notes x := fun x hx => by
    rw [Function.update_of_ne (Finset.ne_of_mem_erase hx)]
  rw [Finset.sum_congr rfl hrest]
  simp only [Function.update_self, hs, ↓reduceIte, Bool.false_eq_true]
  omega

end NotePool

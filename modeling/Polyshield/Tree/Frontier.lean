import Polyshield.Tree.Contract

/-!
# The frontier invariant

After inserting the leaves `xs`, the filled subtree of every level where the
leaf count has an odd index is the last complete node of that level. One insert
walks up from the new leaf and keeps this, and the value it reaches is the root
of the padded tree.
-/

namespace Polyshield.CommitmentMerkleTree

open Merkle

variable {F : Type*} [DecidableEq F] [Zero F] {hash : F → F → F}

/-- The logs carry their positions as leaf indices. -/
def Numbered (logs : List (LeafInserted F)) : Prop :=
  ∀ i (hi : i < logs.length), logs[i].leafIndex = i % 2 ^ 32

omit [DecidableEq F] [Zero F] in
theorem Numbered.append {logs : List (LeafInserted F)} {log : LeafInserted F} (h : Numbered logs)
    (hlog : log.leafIndex = logs.length % 2 ^ 32) : Numbered (logs ++ [log]) := by
  intro i hi
  rcases Nat.lt_or_ge i logs.length with hlt | hge
  · rw [List.getElem_append_left hlt]
    exact h i hlt
  · rw [List.length_append, List.length_singleton] at hi
    obtain rfl : i = logs.length := by omega
    rw [List.getElem_concat_length rfl, hlog]

/-- The contract holds the frontier of the tree with leaves `xs`. -/
structure Frontier (hash : F → F → F) (t : CommitmentMerkleTree F) (xs : List F) : Prop where
  zeros : ∀ i < treeDepth, t.zeros i = zeroNode hash 0 i
  filled : ∀ i < treeDepth, xs.length / 2 ^ i % 2 = 1 →
    t.filledSubtrees i = node hash (padded 0 xs) i (xs.length / 2 ^ i - 1)
  nextIndex : t.nextIndex = xs.length
  currentRoot : t.currentRoot = listRoot hash 0 treeDepth xs
  leaves : t.leaves = xs
  logs_index : Numbered t.logs

theorem div_two_pow_succ (n i : ℕ) : n / 2 ^ (i + 1) = n / 2 ^ i / 2 := by
  rw [Nat.div_div_eq_div_mul, pow_succ]

theorem two_mul_half_of_odd {m : ℕ} (h : ¬ m % 2 = 0) : 2 * (m / 2) = m - 1 := by omega

theorem pred_add_one_of_odd {m : ℕ} (h : ¬ m % 2 = 0) : m - 1 + 1 = m := by omega

variable (hash) in
theorem frontier_initializeTree : Frontier hash (initializeTree hash) ([] : List F) where
  zeros := fun _ hi => initializeTree_zeros hash hi
  filled := fun i _ h => by simp at h
  nextIndex := rfl
  currentRoot := by
    rw [initializeTree_currentRoot, listRoot, node_padded_right (by simp)]
  leaves := rfl
  logs_index := fun i hi => by simp [initializeTree] at hi

variable (hash) in
/-- The loop of `insert` computes the new leaf's ancestors: it returns the one
it stops at and stores the left ones in the filled subtrees. -/
theorem insertLoop_eq {zeros filled : ℕ → F} {xs : List F} {x : F} (k i : ℕ)
    (hz : ∀ j, i ≤ j → j < i + k → zeros j = zeroNode hash 0 j)
    (hf : ∀ j, i ≤ j → j < i + k → xs.length / 2 ^ j % 2 = 1 →
      filled j = node hash (padded 0 (xs ++ [x])) j (xs.length / 2 ^ j - 1)) :
    insertLoop hash zeros k i (xs.length / 2 ^ i)
        (node hash (padded 0 (xs ++ [x])) i (xs.length / 2 ^ i)) filled
      = (node hash (padded 0 (xs ++ [x])) (i + k) (xs.length / 2 ^ (i + k)),
          fun j => if i ≤ j ∧ j < i + k ∧ xs.length / 2 ^ j % 2 = 0
            then node hash (padded 0 (xs ++ [x])) j (xs.length / 2 ^ j) else filled j) := by
  induction k generalizing i filled with
  | zero =>
    refine Prod.ext rfl (funext fun j => ?_)
    simp only [insertLoop]
    rw [if_neg (by omega)]
  | succ k ih =>
    have hi := hz i le_rfl (by omega)
    have hdiv := div_two_pow_succ xs.length i
    have hend : i + (k + 1) = i + 1 + k := by omega
    simp only [insertLoop]
    split
    · rename_i he
      -- the new node is a left child: its sibling is still empty
      have hr : node hash (padded 0 (xs ++ [x])) i (xs.length / 2 ^ i + 1)
          = zeroNode hash 0 i := by
        refine node_padded_right ?_
        have := Nat.lt_mul_div_succ xs.length (Nat.two_pow_pos i)
        simp only [List.length_append, List.length_singleton]
        rw [Nat.mul_comm]; omega
      have hp : hash (node hash (padded 0 (xs ++ [x])) i (xs.length / 2 ^ i)) (zeros i)
          = node hash (padded 0 (xs ++ [x])) (i + 1) (xs.length / 2 ^ (i + 1)) := by
        rw [hdiv, node, show 2 * (xs.length / 2 ^ i / 2) = xs.length / 2 ^ i by omega, hr, hi]
      rw [hp, ← hdiv, ih (i + 1) (fun j h1 h2 => hz j (by omega) (by omega)) ?_, hend]
      · refine Prod.ext rfl (funext fun j => ?_)
        by_cases hj : j = i
        · subst hj
          have hlt : j < j + 1 + k := by omega
          simp [he, hlt]
        · simp only [Function.update_of_ne hj]
          split_ifs <;> first | rfl | omega
      · intro j h1 h2 h3
        rw [Function.update_of_ne (by omega)]
        exact hf j (by omega) (by omega) h3
    · rename_i he
      have hp : hash (filled i) (node hash (padded 0 (xs ++ [x])) i (xs.length / 2 ^ i))
          = node hash (padded 0 (xs ++ [x])) (i + 1) (xs.length / 2 ^ (i + 1)) := by
        rw [hf i le_rfl (by omega) (by omega), hdiv, node,
          two_mul_half_of_odd he, pred_add_one_of_odd he]
      rw [hp, ← hdiv, ih (i + 1) (fun j h1 h2 => hz j (by omega) (by omega))
        (fun j h1 h2 h3 => hf j (by omega) (by omega) h3), hend]
      refine Prod.ext rfl (funext fun j => ?_)
      by_cases hj : i = j
      · subst hj; simp [he]
      · simp only
        split_ifs <;> first | rfl | omega

/-- One insert below capacity succeeds and keeps the frontier. -/
theorem insert_frontier {t : CommitmentMerkleTree F} {xs : List F} (window : ℕ)
    (ht : Frontier hash t xs) (hn : xs.length < 2 ^ treeDepth) (x : F) :
    ∃ t', insert hash window t x = .ok (listRoot hash 0 treeDepth (xs ++ [x]), t') ∧
      Frontier hash t' (xs ++ [x]) := by
  have hlen : (xs ++ [x]).length = xs.length + 1 := by simp
  have hold : ∀ j, xs.length / 2 ^ j % 2 = 1 →
      node hash (padded 0 (xs ++ [x])) j (xs.length / 2 ^ j - 1)
        = node hash (padded 0 xs) j (xs.length / 2 ^ j - 1) := fun j hj => by
    refine node_padded_append ?_
    rw [pred_add_one_of_odd (by rw [hj]; decide)]
    exact Nat.div_mul_le_self _ _
  have hlast : padded 0 (xs ++ [x]) xs.length = x := by
    rw [padded_of_lt (by simp), List.getElem_concat_length rfl]
  have hloop := insertLoop_eq hash treeDepth 0 (fun j _ h => ht.zeros j (by omega))
    (fun j _ h h3 => (ht.filled j (by omega) h3).trans (hold j h3).symm)
  simp only [pow_zero, Nat.div_one, node, hlast, Nat.zero_add] at hloop
  have htop : xs.length / 2 ^ treeDepth = 0 := Nat.div_eq_of_lt hn
  rw [htop] at hloop
  refine ⟨_, by rw [insert, if_neg (by rw [ht.nextIndex]; omega), ht.nextIndex, hloop]; rfl, ?_⟩
  constructor
  · exact ht.zeros
  · intro i hi h
    simp only [rollWindow, Nat.zero_le, hi, true_and]
    rw [hlen] at h ⊢
    -- level `i` moved on to a new node, or kept the one it had
    have hsucc := Nat.succ_div (a := xs.length) (b := 2 ^ i)
    by_cases hodd : xs.length / 2 ^ i % 2 = 0
    · rw [if_pos hodd]
      rw [hsucc] at h ⊢
      split_ifs at h ⊢ with hd
      · rfl
      · omega
    · rw [if_neg hodd]
      have hsame : (xs.length + 1) / 2 ^ i = xs.length / 2 ^ i := by
        rw [hsucc] at h ⊢
        split_ifs at h ⊢ with hd
        · omega
        · rfl
      rw [hsame, hold i (by omega)]
      exact ht.filled i hi (by omega)
  · simp [rollWindow]
  · simp only [rollWindow, listRoot]
  · simp only [CommitmentMerkleTree.leaves, List.map_append, List.map_cons, List.map_nil]
    rw [← CommitmentMerkleTree.leaves, ht.leaves]
  · refine ht.logs_index.append ?_
    rw [← ht.leaves, CommitmentMerkleTree.leaves, List.length_map]

/-- Inserting a list that fits keeps the frontier and returns the root. -/
theorem insertAll_frontier {t : CommitmentMerkleTree F} {xs : List F} (window : ℕ)
    (ht : Frontier hash t xs) (ys : List F) (hn : xs.length + ys.length ≤ 2 ^ treeDepth) :
    ∃ t', insertAll hash window t ys = .ok (listRoot hash 0 treeDepth (xs ++ ys), t') ∧
      Frontier hash t' (xs ++ ys) := by
  induction ys generalizing t xs with
  | nil =>
    refine ⟨t, ?_, by simpa using ht⟩
    rw [List.append_nil, ← ht.currentRoot]
    rfl
  | cons y ys ih =>
    rw [List.length_cons] at hn
    obtain ⟨t₁, h1, hf1⟩ := insert_frontier window ht (by omega) y
    obtain ⟨t₂, h2, hf2⟩ := ih hf1 (by simp; omega)
    rw [List.append_assoc, List.singleton_append] at h2 hf2
    refine ⟨t₂, ?_, hf2⟩
    rw [insertAll, List.foldlM_cons, h1]
    rw [insertAll, hf1.currentRoot] at h2
    exact h2

omit [Zero F] in
theorem lt_of_insert_ok {t t' : CommitmentMerkleTree F} {window : ℕ} {x r : F}
    (h : insert hash window t x = .ok (r, t')) : t.nextIndex < 2 ^ treeDepth := by
  unfold insert at h
  split at h
  · cases h
  · omega

theorem Frontier.insert_ok {t t' : CommitmentMerkleTree F} {xs : List F} {window : ℕ} {x r : F}
    (ht : Frontier hash t xs) (h : insert hash window t x = .ok (r, t')) :
    Frontier hash t' (xs ++ [x]) := by
  have hn := lt_of_insert_ok h
  rw [ht.nextIndex] at hn
  obtain ⟨t₁, h1, hf⟩ := insert_frontier window ht hn x
  rw [h] at h1
  cases h1
  exact hf

end Polyshield.CommitmentMerkleTree

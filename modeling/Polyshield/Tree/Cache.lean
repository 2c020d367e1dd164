import Mathlib.Data.Nat.Bitwise
import Polyshield.Tree.Contract

/-!
# The relay's tree cache

`merkleTree.ts`: `CachedMerkleTree` keeps every known node in a map keyed by
level and index, and falls back to the zero subtree of the level. Indices are
JavaScript numbers: `>>`, `^` and `&` act on their low 32 bits as a signed
integer, so they agree with halving, sibling and parity only below `2 ^ 31`.
-/

namespace Polyshield

open Merkle

/-! ## JavaScript bit operators -/

/-- `i >> 1`. -/
def jsShiftRight1 (i : ℤ) : ℤ := ((BitVec.ofInt 32 i).sshiftRight 1).toInt

/-- `i ^ 1`. -/
def jsXor1 (i : ℤ) : ℤ := (BitVec.ofInt 32 i ^^^ 1#32).toInt

/-- `i & 1`. -/
def jsAnd1 (i : ℤ) : ℤ := (BitVec.ofInt 32 i &&& 1#32).toInt

theorem toInt_ofInt_of_lt {i : ℕ} (hi : i < 2 ^ 31) : (BitVec.ofInt 32 (i : ℤ)).toInt = i := by
  rw [BitVec.toInt_ofInt]
  exact Int.bmod_eq_of_le (by omega) (by omega)

theorem toNat_ofInt_of_lt {i : ℕ} (hi : i < 2 ^ 31) : (BitVec.ofInt 32 (i : ℤ)).toNat = i := by
  rw [BitVec.toNat_ofInt]; omega

theorem jsShiftRight1_natCast {i : ℕ} (hi : i < 2 ^ 31) :
    jsShiftRight1 (i : ℤ) = (i / 2 : ℕ) := by
  rw [jsShiftRight1, BitVec.toInt_sshiftRight, toInt_ofInt_of_lt hi, Int.shiftRight_eq_div_pow]
  norm_num

theorem xor_one_eq_sibling (i : ℕ) : i ^^^ 1 = sibling i := by
  unfold sibling
  split
  · rename_i h; exact Nat.xor_one_of_even (Nat.even_iff.mpr h)
  · rename_i h; exact Nat.xor_one_of_odd (Nat.odd_iff.mpr (by omega))

theorem sibling_lt {i n : ℕ} (hi : i < 2 * n) : sibling i < 2 * n := by
  unfold sibling; split <;> omega

theorem jsXor1_natCast {i : ℕ} (hi : i < 2 ^ 31) : jsXor1 (i : ℤ) = (sibling i : ℕ) := by
  have hs := sibling_lt (n := 2 ^ 30) (i := i) (by omega)
  have hnat : (BitVec.ofInt 32 (i : ℤ) ^^^ 1#32).toNat = sibling i := by
    rw [BitVec.toNat_xor, toNat_ofInt_of_lt hi]; exact xor_one_eq_sibling i
  rw [jsXor1, BitVec.toInt_eq_toNat_of_lt (by rw [hnat]; omega), hnat]

theorem jsAnd1_natCast {i : ℕ} (hi : i < 2 ^ 31) : jsAnd1 (i : ℤ) = (i % 2 : ℕ) := by
  have hnat : (BitVec.ofInt 32 (i : ℤ) &&& 1#32).toNat = i % 2 := by
    rw [BitVec.toNat_and, toNat_ofInt_of_lt hi]; exact Nat.and_one_is_mod i
  rw [jsAnd1, BitVec.toInt_eq_toNat_of_lt (by rw [hnat]; omega), hnat]

/-! ## The zero table -/

variable {F : Type*} [Zero F] (poseidon2 : F → F → F)

/-- The loop of `buildZeros`: `k` more entries after `z`, whose last is `last`. -/
def zerosFrom : ℕ → F → List F → List F
  | 0, _, z => z
  | k + 1, last, z => zerosFrom k (poseidon2 last last) (z ++ [poseidon2 last last])

/-- `buildZeros`, shared by `merkleTree.ts` and `merkle.ts`. -/
def buildZeros : List F := zerosFrom poseidon2 treeDepth 0 [0]

def zerosAt (level : ℕ) : F := (buildZeros poseidon2).getD level 0

theorem zerosFrom_eq (k n : ℕ) :
    zerosFrom poseidon2 k (zeroNode poseidon2 0 n)
        ((List.range (n + 1)).map (zeroNode poseidon2 (0 : F)))
      = (List.range (n + k + 1)).map (zeroNode poseidon2 0) := by
  induction k generalizing n with
  | zero => rfl
  | succ k ih =>
    have hlast : poseidon2 (zeroNode poseidon2 0 n) (zeroNode poseidon2 0 n)
        = zeroNode poseidon2 0 (n + 1) := rfl
    have happ : (List.range (n + 1)).map (zeroNode poseidon2 (0 : F))
          ++ [zeroNode poseidon2 0 (n + 1)]
        = (List.range (n + 1 + 1)).map (zeroNode poseidon2 0) := by
      rw [List.range_succ (n := n + 1), List.map_append, List.map_singleton]
    rw [zerosFrom, hlast, happ, ih, show n + 1 + k + 1 = n + (k + 1) + 1 by omega]

theorem zerosAt_eq {level : ℕ} (h : level ≤ treeDepth) :
    zerosAt poseidon2 level = zeroNode poseidon2 0 level := by
  have hz : buildZeros poseidon2
      = (List.range (treeDepth + 1)).map (zeroNode poseidon2 (0 : F)) := by
    have := zerosFrom_eq poseidon2 treeDepth 0
    rwa [Nat.zero_add] at this
  have hl : level < treeDepth + 1 := by omega
  simp [zerosAt, hz, List.getD_eq_getElem?_getD, hl]

/-! ## The cache -/

structure MerkleProof (F : Type*) where
  path : List F
  pathIndices : List ℤ
  root : F
  leafIndex : ℕ
  deriving DecidableEq, Repr

structure CachedMerkleTree (F : Type*) where
  nodes : ℕ → ℤ → Option F
  indexByLeaf : F → Option ℕ
  nextIndex : ℕ

namespace CachedMerkleTree

def empty : CachedMerkleTree F where
  nodes := fun _ _ => none
  indexByLeaf := fun _ => none
  nextIndex := 0

def getNode (nodes : ℕ → ℤ → Option F) (level : ℕ) (index : ℤ) : F :=
  (nodes level index).getD (zerosAt poseidon2 level)

/-- `nodes.set(nkey(level, index), v)`. -/
def setNode (nodes : ℕ → ℤ → Option F) (level : ℕ) (index : ℤ) (v : F) : ℕ → ℤ → Option F :=
  fun l i => if l = level ∧ i = index then some v else nodes l i

/-- The loop of `append`, `k` levels from `level` on. -/
def appendLoop : ℕ → ℕ → ℤ → (ℕ → ℤ → Option F) → (ℕ → ℤ → Option F)
  | 0, _, _, nodes => nodes
  | k + 1, level, i, nodes =>
    let parent := jsShiftRight1 i
    let left := getNode poseidon2 nodes level (parent * 2)
    let right := getNode poseidon2 nodes level (parent * 2 + 1)
    appendLoop k (level + 1) parent (setNode nodes (level + 1) parent (poseidon2 left right))

def root (c : CachedMerkleTree F) : F := getNode poseidon2 c.nodes treeDepth 0

variable [DecidableEq F]

def append (c : CachedMerkleTree F) (leaf : F) : CachedMerkleTree F where
  nodes := appendLoop poseidon2 treeDepth 0 c.nextIndex (setNode c.nodes 0 c.nextIndex leaf)
  indexByLeaf := Function.update c.indexByLeaf leaf (some c.nextIndex)
  nextIndex := c.nextIndex + 1

omit [DecidableEq F] in
/-- The loop of `proofForIndex`: siblings and bits of `k` levels from `level` on. -/
def proofLoop (c : CachedMerkleTree F) : ℕ → ℕ → ℤ → List (F × ℤ)
  | 0, _, _ => []
  | k + 1, level, i =>
    (getNode poseidon2 c.nodes level (jsXor1 i), jsAnd1 i)
      :: proofLoop c k (level + 1) (jsShiftRight1 i)

omit [DecidableEq F] in
def proofForIndex (c : CachedMerkleTree F) (idx : ℕ) : MerkleProof F :=
  let steps := proofLoop poseidon2 c treeDepth 0 idx
  { path := steps.map Prod.fst
    pathIndices := steps.map Prod.snd
    root := root poseidon2 c
    leafIndex := idx }

/-! ## The cache mirrors the padded tree -/

/-- Every node of the cache is the node of the padded tree over `xs`. -/
structure Mirrors (c : CachedMerkleTree F) (xs : List F) : Prop where
  getNode : ∀ l ≤ treeDepth, ∀ j : ℕ,
    getNode poseidon2 c.nodes l j = node poseidon2 (padded 0 xs) l j
  nextIndex : c.nextIndex = xs.length

variable {poseidon2}

omit [DecidableEq F] in
theorem mirrors_empty : Mirrors poseidon2 (empty : CachedMerkleTree F) [] where
  getNode := fun l hl j => by
    rw [node_padded_right (by simp)]
    simp [CachedMerkleTree.getNode, empty, zerosAt_eq _ hl]
  nextIndex := rfl

omit [DecidableEq F] in
theorem getNode_setNode (nodes : ℕ → ℤ → Option F) (l level : ℕ) (i index : ℤ) (v : F) :
    CachedMerkleTree.getNode poseidon2 (setNode nodes level index v) l i
      = if l = level ∧ i = index then v else CachedMerkleTree.getNode poseidon2 nodes l i := by
  simp only [CachedMerkleTree.getNode, setNode]
  split <;> rfl

variable (poseidon2) in
omit [DecidableEq F] in
/-- The loop of `append`: once the levels up to `level` mirror the new leaves
and the levels above still mirror the old ones, it mirrors the new leaves on
every level it has walked. -/
theorem appendLoop_getNode {xs : List F} (x : F) (hn : xs.length < 2 ^ 31) (k level : ℕ)
    (nodes : ℕ → ℤ → Option F)
    (hlow : ∀ l ≤ level, ∀ j : ℕ, CachedMerkleTree.getNode poseidon2 nodes l j
      = node poseidon2 (padded 0 (xs ++ [x])) l j)
    (hhigh : ∀ l, level < l → l ≤ level + k → ∀ j : ℕ,
      CachedMerkleTree.getNode poseidon2 nodes l j = node poseidon2 (padded 0 xs) l j) :
    ∀ l ≤ level + k, ∀ j : ℕ, CachedMerkleTree.getNode poseidon2
        (appendLoop poseidon2 k level (xs.length / 2 ^ level : ℕ) nodes) l j
      = node poseidon2 (padded 0 (xs ++ [x])) l j := by
  induction k generalizing level nodes with
  | zero => exact hlow
  | succ k ih =>
    have hlt : xs.length / 2 ^ level < 2 ^ 31 := (Nat.div_le_self _ _).trans_lt hn
    have hpar : xs.length / 2 ^ level / 2 = xs.length / 2 ^ (level + 1) := by
      rw [Nat.div_div_eq_div_mul, pow_succ]
    have hval : poseidon2
          (CachedMerkleTree.getNode poseidon2 nodes level (xs.length / 2 ^ (level + 1) * 2 : ℕ))
          (CachedMerkleTree.getNode poseidon2 nodes level (xs.length / 2 ^ (level + 1) * 2 + 1 : ℕ))
        = node poseidon2 (padded 0 (xs ++ [x])) (level + 1) (xs.length / 2 ^ (level + 1)) := by
      rw [hlow level le_rfl, hlow level le_rfl, node, Nat.mul_comm]
    simp only [appendLoop, jsShiftRight1_natCast hlt, hpar]
    rw [show level + (k + 1) = level + 1 + k by omega]
    refine ih (level + 1) _ (fun l hl j => ?_) (fun l h1 h2 j => ?_)
    · rw [getNode_setNode]
      split
      · rename_i h
        obtain ⟨rfl, h⟩ := h
        obtain rfl : j = xs.length / 2 ^ (level + 1) := by exact_mod_cast h
        exact_mod_cast hval
      · rename_i h
        rcases Nat.lt_or_ge level l with hlt' | hle
        · obtain rfl : l = level + 1 := by omega
          rw [hhigh _ (by omega) (by omega)]
          -- a node of the next level that is not an ancestor of the new leaf
          have hne : j ≠ xs.length / 2 ^ (level + 1) := fun e => h ⟨rfl, by rw [e]⟩
          refine node_congr fun m hm1 hm2 => ?_
          have hm : m ≠ xs.length := fun e => hne (by
            subst e
            exact (Nat.div_eq_of_lt_le hm1 hm2).symm)
          rcases Nat.lt_or_ge m xs.length with hm3 | hm3
          · exact (padded_append_left hm3).symm
          · rw [padded_of_le hm3, padded_of_le (by simp; omega)]
        · exact hlow l hle j
    · rw [getNode_setNode, if_neg (by omega)]
      exact hhigh l (by omega) (by omega) j

theorem Mirrors.append {c : CachedMerkleTree F} {xs : List F} (h : Mirrors poseidon2 c xs)
    (hn : xs.length < 2 ^ 31) (x : F) : Mirrors poseidon2 (c.append poseidon2 x) (xs ++ [x]) where
  getNode := by
    have hloop := appendLoop_getNode poseidon2 x hn treeDepth 0
      (setNode c.nodes 0 c.nextIndex x) ?_ ?_
    · simpa [CachedMerkleTree.append, h.nextIndex] using hloop
    · intro l hl j
      obtain rfl : l = 0 := by omega
      rw [getNode_setNode, h.nextIndex]
      simp only [Nat.cast_inj, true_and, node]
      split
      · rename_i hj
        subst hj
        rw [padded_of_lt (by simp), List.getElem_concat_length rfl]
      · rename_i hj
        rw [h.getNode 0 (by omega), node]
        rcases Nat.lt_or_ge j xs.length with hj1 | hj1
        · exact (padded_append_left hj1).symm
        · rw [padded_of_le hj1, padded_of_le (by simp; omega)]
    · intro l h1 h2 j
      rw [getNode_setNode, if_neg (by omega)]
      exact h.getNode l (by omega) j
  nextIndex := by simp [CachedMerkleTree.append, h.nextIndex]

theorem Mirrors.foldl_append {c : CachedMerkleTree F} {xs : List F} (h : Mirrors poseidon2 c xs)
    (ys : List F) (hn : xs.length + ys.length ≤ 2 ^ 31) :
    Mirrors poseidon2 (ys.foldl (CachedMerkleTree.append poseidon2) c) (xs ++ ys) := by
  induction ys generalizing c xs with
  | nil => simpa using h
  | cons y ys ih =>
    rw [List.length_cons] at hn
    have := ih (h.append (by omega) y) (by simp; omega)
    simpa using this

omit [DecidableEq F] in
theorem Mirrors.root {c : CachedMerkleTree F} {xs : List F} (h : Mirrors poseidon2 c xs) :
    CachedMerkleTree.root poseidon2 c = listRoot poseidon2 0 treeDepth xs :=
  h.getNode treeDepth le_rfl 0

omit [DecidableEq F] in
/-- The loop of `proofForIndex` is the honest path, its bits as numbers. -/
theorem Mirrors.proofLoop {c : CachedMerkleTree F} {xs : List F} (h : Mirrors poseidon2 c xs)
    (k level i : ℕ) (hi : i < 2 ^ 31) (hk : level + k ≤ treeDepth) :
    CachedMerkleTree.proofLoop poseidon2 c k level i
      = (authPath poseidon2 (padded 0 xs) k level i).map fun s => (s.1, (s.2.toNat : ℤ)) := by
  induction k generalizing level i with
  | zero => rfl
  | succ k ih =>
    have hbit : i % 2 = (decide (i % 2 = 1)).toNat := by
      rcases Nat.mod_two_eq_zero_or_one i with h | h <;> simp [h]
    simp only [CachedMerkleTree.proofLoop, authPath, List.map_cons, jsXor1_natCast hi,
      jsAnd1_natCast hi, jsShiftRight1_natCast hi]
    rw [h.getNode level (by omega), ih (level + 1) (i / 2) (by omega) (by omega), ← hbit]

end CachedMerkleTree

end Polyshield

import Polyshield.Tree.Cache

/-!
# Rebuilding a proof from the logs

`merkle.ts`: `computeMerkleProof` reads every `LeafInserted` log, finds the
first leaf equal to the commitment, and rebuilds the tree layer by layer with
the zero table where a layer is too short.
-/

namespace Polyshield

open Merkle

variable {F : Type*} [Zero F] [DecidableEq F] (poseidon2 : F → F → F)

/-- `leaves[i] = v` on a JavaScript array: positions it skips become holes. -/
def setIndex (xs : List (Option F)) (i : ℕ) (v : F) : List (Option F) :=
  if i < xs.length then xs.set i (some v)
  else xs ++ List.replicate (i - xs.length) none ++ [some v]

/-- The leaves in insertion order, by the index each log carries. -/
def parseLeaves (logs : List (LeafInserted F)) : List (Option F) :=
  logs.foldl (fun leaves log => setIndex leaves log.leafIndex log.leaf) []

omit [DecidableEq F] in
/-- The layer above `layer`. -/
def nextLayer (level : ℕ) (layer : List F) : List F :=
  (List.range ((max layer.length 1 + 1) / 2)).map fun t =>
    poseidon2 (layer.getD (2 * t) (zerosAt poseidon2 level))
      (layer.getD (2 * t + 1) (zerosAt poseidon2 level))

omit [DecidableEq F] in
/-- The loop of `computeMerkleProof`, `k` levels from `level` on: siblings and
bits, and the last layer. -/
def rebuildLoop : ℕ → ℕ → List F → ℕ → List (F × ℕ) × List F
  | 0, _, layer, _ => ([], layer)
  | k + 1, level, layer, idx =>
    let siblingIdx := if idx % 2 = 0 then idx + 1 else idx - 1
    let rest := rebuildLoop k (level + 1) (nextLayer poseidon2 level layer) (idx / 2)
    ((layer.getD siblingIdx (zerosAt poseidon2 level), idx % 2) :: rest.1, rest.2)

/-- `computeMerkleProof` on the parsed leaves; `none` when the leaf is not there. -/
def computeMerkleProof (leaves : List F) (commitment : F) : Option (MerkleProof F) :=
  match leaves.findIdx? (· = commitment) with
  | none => none
  | some targetIdx =>
    let (steps, layer) := rebuildLoop poseidon2 treeDepth 0 leaves targetIdx
    some
      { path := steps.map Prod.fst
        pathIndices := steps.map fun s => (s.2 : ℤ)
        root := layer.getD 0 (zerosAt poseidon2 treeDepth)
        leafIndex := targetIdx }

/-! ## Correctness -/

omit [Zero F] [DecidableEq F] in
theorem parseLeaves_append (logs : List (LeafInserted F)) (log : LeafInserted F) :
    parseLeaves (logs ++ [log]) = setIndex (parseLeaves logs) log.leafIndex log.leaf := by
  simp [parseLeaves]

omit [Zero F] [DecidableEq F] in
theorem parseLeaves_of_numbered (logs : List (LeafInserted F))
    (h : ∀ i (hi : i < logs.length), logs[i].leafIndex = i) :
    parseLeaves logs = logs.map fun log => some log.leaf := by
  induction logs using List.reverseRecOn with
  | nil => rfl
  | append_singleton logs log ih =>
    have hlast : log.leafIndex = logs.length := by
      have := h logs.length (by simp)
      rwa [List.getElem_concat_length rfl] at this
    have hpre : ∀ i (hi : i < logs.length), logs[i].leafIndex = i := fun i hi => by
      have := h i (by simp; omega)
      rwa [List.getElem_append_left hi] at this
    rw [parseLeaves_append, ih hpre, hlast, setIndex]
    simp

variable {poseidon2}

omit [DecidableEq F] in
/-- `layer` is a prefix of level `l` of the padded tree that reaches past the last leaf. -/
def IsLayer (poseidon2 : F → F → F) (xs : List F) (l : ℕ) (layer : List F) : Prop :=
  ∀ j, layer.getD j (zerosAt poseidon2 l) = node poseidon2 (padded 0 xs) l j

omit [DecidableEq F] in
theorem isLayer_leaves (xs : List F) : IsLayer poseidon2 xs 0 xs := fun j => by
  rw [zerosAt_eq _ (by decide)]; rfl

omit [DecidableEq F] in
theorem IsLayer.nextLayer {xs layer : List F} {l : ℕ} (h : IsLayer poseidon2 xs l layer)
    (hl : l < treeDepth) : IsLayer poseidon2 xs (l + 1) (nextLayer poseidon2 l layer) := by
  intro j
  have hnode : node poseidon2 (padded 0 xs) (l + 1) j
      = poseidon2 (layer.getD (2 * j) (zerosAt poseidon2 l))
          (layer.getD (2 * j + 1) (zerosAt poseidon2 l)) := by
    rw [h, h, node]
  rw [hnode]
  rcases Nat.lt_or_ge j ((max layer.length 1 + 1) / 2) with hj | hj
  · simp [Polyshield.nextLayer, hj, List.getD_eq_getElem?_getD]
  · -- both children lie past the layer, so the parent is the next zero subtree
    have hpast : ∀ i, 2 * j ≤ i → layer.getD i (zerosAt poseidon2 l) = zeroNode poseidon2 0 l :=
      fun i hi => by
        rw [List.getD_eq_default _ _ (by omega), zerosAt_eq _ (by omega)]
    rw [List.getD_eq_default _ _ (by simpa [Polyshield.nextLayer] using hj), hpast _ le_rfl,
      hpast _ (by omega), zerosAt_eq _ hl]
    rfl

variable (poseidon2) in
omit [DecidableEq F] in
theorem rebuildLoop_eq {xs : List F} (k l i : ℕ) (layer : List F)
    (h : IsLayer poseidon2 xs l layer) (hk : l + k ≤ treeDepth) :
    (rebuildLoop poseidon2 k l layer i).1
        = (authPath poseidon2 (padded 0 xs) k l i).map (fun s => (s.1, s.2.toNat)) ∧
      IsLayer poseidon2 xs (l + k) (rebuildLoop poseidon2 k l layer i).2 := by
  induction k generalizing l i layer with
  | zero => exact ⟨rfl, h⟩
  | succ k ih =>
    obtain ⟨h1, h2⟩ := ih (l + 1) (i / 2) _ (h.nextLayer (by omega)) (by omega)
    have hbit : i % 2 = (decide (i % 2 = 1)).toNat := by
      rcases Nat.mod_two_eq_zero_or_one i with h | h <;> simp [h]
    constructor
    · simp only [rebuildLoop, authPath, List.map_cons]
      rw [h1, h, ← hbit, sibling]
    · rw [show l + (k + 1) = l + 1 + k by omega]
      exact h2

variable (poseidon2) in
/-- The proof of a leaf that first occurs at `i`. -/
theorem computeMerkleProof_eq {xs : List F} {i : ℕ} (hi : i < xs.length)
    (hfirst : ∀ j < i, ∀ hj : j < xs.length, xs[j] ≠ xs[i]) :
    ∃ p, computeMerkleProof poseidon2 xs xs[i] = some p ∧ p.leafIndex = i ∧
      p.root = listRoot poseidon2 0 treeDepth xs ∧
      p.path = (authPath poseidon2 (padded 0 xs) treeDepth 0 i).map Prod.fst ∧
      p.pathIndices
        = (authPath poseidon2 (padded 0 xs) treeDepth 0 i).map fun s => (s.2.toNat : ℤ) := by
  have hfind : xs.findIdx? (· = xs[i]) = some i := by
    rw [List.findIdx?_eq_some_iff_getElem]
    exact ⟨hi, by simp, fun j hj => by simpa using hfirst j hj (hj.trans hi)⟩
  obtain ⟨h1, h2⟩ := rebuildLoop_eq poseidon2 treeDepth 0 i xs
    (isLayer_leaves xs) (by omega)
  refine ⟨_, by rw [computeMerkleProof, hfind], rfl, ?_, ?_, ?_⟩
  · have := h2 0
    rwa [Nat.zero_add] at this
  · simp [h1, List.map_map, Function.comp_def]
  · simp [h1, List.map_map, Function.comp_def]

end Polyshield

import Polyshield.Lib.Merkle

/-!
# The Merkle path of the circuits

`lib/merkle.circom`: `PoseidonMerklePath(depth)` folds a path with arithmetic
selectors, one boolean signal for each level. On boolean signals the fold is
`Merkle.climb` (`merkleFold_eq_climb`).
-/

namespace Polyshield

open Merkle

variable {F : Type*} [CommRing F] (poseidon2 : F → F → F)

def AssertBool (x : F) : Prop := x * (x - 1) = 0

/-- One level of the path: `hashers[i].out` on `lefts[i]` and `rights[i]`. -/
def merkleLevel (h : F) (s : F × F) : F :=
  poseidon2 (h + s.2 * (s.1 - h)) (s.1 + s.2 * (h - s.1))

def merkleFold (leaf : F) (siblings pathIndices : List F) : F :=
  (siblings.zip pathIndices).foldl (merkleLevel poseidon2) leaf

/-- `PoseidonMerklePath(depth)`: the constraints between its signals. -/
structure PoseidonMerklePath (depth : ℕ) (leaf : F) (siblings pathIndices : List F) (root : F) :
    Prop where
  siblings_length : siblings.length = depth
  pathIndices_length : pathIndices.length = depth
  bools : ∀ b ∈ pathIndices, AssertBool b
  root_eq : root = merkleFold poseidon2 leaf siblings pathIndices

def bitSignal (b : Bool) : F := if b then 1 else 0

theorem assertBool_bitSignal (b : Bool) : AssertBool (bitSignal b : F) := by
  cases b <;> simp [AssertBool, bitSignal]

theorem AssertBool.eq_bitSignal [NoZeroDivisors F] [DecidableEq F] {x : F} (h : AssertBool x) :
    x = bitSignal (decide (x = 1)) := by
  rcases mul_eq_zero.mp h with h | h
  · subst h
    by_cases h1 : (0 : F) = 1 <;> simp [bitSignal, h1]
  · rw [sub_eq_zero] at h
    simp [bitSignal, h]

variable {poseidon2}

theorem merkleLevel_bitSignal (h x : F) (b : Bool) :
    merkleLevel poseidon2 h (x, bitSignal b) = parent poseidon2 h (x, b) := by
  cases b <;> simp [merkleLevel, bitSignal, parent]

/-- On boolean selectors the circuit's fold climbs the path. -/
theorem merkleFold_eq_climb (leaf : F) (p : List (Step F)) :
    merkleFold poseidon2 leaf (p.map Prod.fst) (p.map fun s => bitSignal s.2)
      = climb poseidon2 leaf p := by
  induction p generalizing leaf with
  | nil => rfl
  | cons s p ih =>
    simp only [merkleFold, List.map_cons, List.zip_cons_cons, List.foldl_cons] at ih ⊢
    rw [merkleLevel_bitSignal]
    exact ih _

theorem poseidonMerklePath_of_climb {leaf root : F} {p : List (Step F)}
    (h : climb poseidon2 leaf p = root) :
    PoseidonMerklePath poseidon2 p.length leaf (p.map Prod.fst) (p.map fun s => bitSignal s.2)
      root where
  siblings_length := by simp
  pathIndices_length := by simp
  bools := fun b hb => by
    obtain ⟨s, _, rfl⟩ := List.mem_map.mp hb
    exact assertBool_bitSignal s.2
  root_eq := by rw [merkleFold_eq_climb, h]

/-- Over a domain, signals that satisfy the circuit are a path that climbs to `root`. -/
theorem PoseidonMerklePath.climb_eq [NoZeroDivisors F] [DecidableEq F] {depth : ℕ}
    {leaf root : F} {siblings pathIndices : List F}
    (h : PoseidonMerklePath poseidon2 depth leaf siblings pathIndices root) :
    ∃ p : List (Step F), p.length = depth ∧ climb poseidon2 leaf p = root := by
  obtain ⟨h1, h2, h3, rfl⟩ := h
  let bits := pathIndices.map fun b => decide (b = 1)
  have hlen : siblings.length = bits.length := by simp [bits, h1, h2]
  have hidx : bits.map bitSignal = pathIndices := by
    rw [List.map_map]
    exact (List.map_congr_left fun b hb => (h3 b hb).eq_bitSignal.symm).trans (List.map_id _)
  have hsnd : (siblings.zip bits).map (fun s => (bitSignal s.2 : F)) = pathIndices := by
    rw [← hidx, ← List.map_snd_zip hlen.ge, List.map_map, List.map_snd_zip hlen.ge]
    rfl
  refine ⟨siblings.zip bits, by simp [bits, h1, h2], ?_⟩
  rw [← merkleFold_eq_climb, hsnd, List.map_fst_zip hlen.le]

end Polyshield

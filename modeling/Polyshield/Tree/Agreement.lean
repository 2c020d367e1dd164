import Polyshield.Tree.Frontier
import Polyshield.Tree.Rebuild
import Polyshield.Tree.Circuit

/-!
# The four Merkle trees agree

The contract's incremental tree, the relay's cache, its rebuild from logs and
the circuit's path fold all compute the root of the depth-32 tree padded with
zeros.
-/

namespace Polyshield

open Merkle

variable {F : Type*} [CommRing F]

/-- The circuit signals of a served proof: its siblings and its bits in the field. -/
def MerkleProof.Satisfies (poseidon2 : F → F → F) (p : MerkleProof F) (leaf root : F) : Prop :=
  PoseidonMerklePath poseidon2 treeDepth leaf p.path (p.pathIndices.map Int.cast) root

theorem intCast_toNat_eq_bitSignal (b : Bool) : ((b.toNat : ℤ) : F) = bitSignal b := by
  cases b <;> simp [bitSignal]

theorem satisfies_of_authPath (poseidon2 : F → F → F) {xs : List F} {i : ℕ} (hi : i < xs.length)
    (hn : xs.length ≤ 2 ^ treeDepth) {p : MerkleProof F}
    (hpath : p.path = (authPath poseidon2 (padded 0 xs) treeDepth 0 i).map Prod.fst)
    (hbits : p.pathIndices
      = (authPath poseidon2 (padded 0 xs) treeDepth 0 i).map fun s => (s.2.toNat : ℤ)) :
    p.Satisfies poseidon2 xs[i] (listRoot poseidon2 0 treeDepth xs) := by
  have hclimb := climb_authPath (H := poseidon2) (padded 0 xs) treeDepth 0 i
  rw [Nat.div_eq_of_lt (by omega), Nat.zero_add, node, padded_of_lt hi] at hclimb
  have h := poseidonMerklePath_of_climb hclimb
  rw [length_authPath] at h
  rw [MerkleProof.Satisfies, hpath, hbits, List.map_map]
  simpa only [Function.comp_def, intCast_toNat_eq_bitSignal, listRoot] using h

theorem treeDepth_room {n : ℕ} (hn : n < 2 ^ 31) : n ≤ 2 ^ treeDepth :=
  hn.le.trans (Nat.pow_le_pow_right (by decide) (by decide))

/-- The contract, the cache and the rebuild return the root of the padded tree,
and the paths of the cache and of the rebuild satisfy the circuit for it. -/
theorem merkle_implementations_agree [DecidableEq F] (poseidon2 : F → F → F) (window : ℕ)
    (xs : List F) (hn : xs.length < 2 ^ 31) :
    (∃ t, CommitmentMerkleTree.insertAll poseidon2 window
          (CommitmentMerkleTree.initializeTree poseidon2) xs
          = .ok (listRoot poseidon2 0 treeDepth xs, t) ∧
        parseLeaves t.logs = xs.map some) ∧
      (xs.foldl (CachedMerkleTree.append poseidon2) .empty).root poseidon2
        = listRoot poseidon2 0 treeDepth xs ∧
      (∀ x ∈ xs, ∃ p, computeMerkleProof poseidon2 xs x = some p ∧
        p.root = listRoot poseidon2 0 treeDepth xs) ∧
      ∀ i (hi : i < xs.length),
        ((xs.foldl (CachedMerkleTree.append poseidon2) .empty).proofForIndex poseidon2 i).Satisfies
            poseidon2 xs[i] (listRoot poseidon2 0 treeDepth xs) ∧
          ((∀ j (hj : j < i), xs[j] ≠ xs[i]) →
            ∃ p, computeMerkleProof poseidon2 xs xs[i] = some p ∧ p.leafIndex = i ∧
              p.Satisfies poseidon2 xs[i] (listRoot poseidon2 0 treeDepth xs)) := by
  have hroom := treeDepth_room hn
  have hmirror : (xs.foldl (CachedMerkleTree.append poseidon2) .empty).Mirrors poseidon2 xs :=
    CachedMerkleTree.mirrors_empty.foldl_append xs (by simpa using hn.le)
  refine ⟨?_, hmirror.root, ?_, fun i hi => ⟨?_, fun hfirst => ?_⟩⟩
  · obtain ⟨t, ht, hf⟩ := CommitmentMerkleTree.insertAll_frontier window
      (CommitmentMerkleTree.frontier_initializeTree poseidon2) xs (by simpa using hroom)
    refine ⟨t, ht, ?_⟩
    have hlen : t.logs.length = xs.length := by
      have := congrArg List.length hf.leaves
      simpa [CommitmentMerkleTree.leaves] using this
    rw [parseLeaves_of_numbered _ fun i hi => by
      rw [hf.logs_index i hi, Nat.mod_eq_of_lt (by omega)]]
    have := congrArg (List.map some) hf.leaves
    simpa [CommitmentMerkleTree.leaves, Function.comp_def] using this
  · intro x hx
    obtain ⟨i, hi, rfl, hfirst⟩ : ∃ i, ∃ hi : i < xs.length, xs[i] = x ∧
        ∀ j (hj : j < i), xs[j] ≠ x := by
      have hfind := List.findIdx_lt_length_of_exists (p := (· = x)) ⟨x, hx, by simp⟩
      refine ⟨xs.findIdx (· = x), hfind, by simpa using List.findIdx_getElem (w := hfind),
        fun j hj => by simpa using List.not_of_lt_findIdx hj⟩
    obtain ⟨p, hp, -, hroot, -⟩ := computeMerkleProof_eq poseidon2 hi fun j hj _ => hfirst j hj
    exact ⟨p, hp, hroot⟩
  · have hloop := hmirror.proofLoop treeDepth 0 i (by omega) (by omega)
    refine satisfies_of_authPath poseidon2 hi hroom ?_ ?_ <;>
      simp [CachedMerkleTree.proofForIndex, hloop, Function.comp_def]
  · obtain ⟨p, hp, hidx, -, hpath, hbits⟩ :=
      computeMerkleProof_eq poseidon2 hi fun j hj _ => hfirst j hj
    exact ⟨p, hp, hidx, satisfies_of_authPath poseidon2 hi hroom hpath hbits⟩

theorem merkle_implementations_agree_two_leaves :
    (([5, 7] : List ℤ).foldl (CachedMerkleTree.append fun a b => 2 * a + 3 * b + 1)
        .empty).root (fun a b => 2 * a + 3 * b + 1)
      = listRoot (fun a b => 2 * a + 3 * b + 1) 0 treeDepth [5, 7] :=
  (merkle_implementations_agree (fun a b : ℤ => 2 * a + 3 * b + 1) rootWindow [5, 7]
    (by decide)).2.1

end Polyshield

import Polyshield.Tree.Frontier

/-!
# Roots the contract still knows

Every known root is the root of a prefix of the leaves, so under an injective
hash a path that climbs from a non-zero leaf to a known root starts at one of
the leaves inserted so far (`History.mem_leaves`).
-/

namespace Polyshield.CommitmentMerkleTree

open Merkle

variable {F : Type*} [DecidableEq F] [Zero F] {hash : F → F → F}

/-- The frontier of the leaves, and every known root is the root of a prefix of them. -/
structure History (hash : F → F → F) (t : CommitmentMerkleTree F) : Prop where
  frontier : Frontier hash t t.leaves
  known : ∀ r, t.knownRoots r = true →
    ∃ xs, xs <+: t.leaves ∧ r = listRoot hash 0 treeDepth xs

variable (hash) in
theorem history_initializeTree : History hash (initializeTree hash : CommitmentMerkleTree F) where
  frontier := frontier_initializeTree hash
  known := fun r hr => by
    refine ⟨[], List.nil_prefix, ?_⟩
    have hcur := (frontier_initializeTree (F := F) hash).currentRoot
    simp only [initializeTree, Function.update_apply] at hr hcur
    split at hr
    · rename_i e; rw [e]; exact hcur
    · cases hr

omit [Zero F] in
/-- The roots known after an insert: the new one and roots known before. -/
theorem known_of_insert_ok {t t' : CommitmentMerkleTree F} {window : ℕ} {x r : F}
    (h : insert hash window t x = .ok (r, t')) {r' : F} (hr : t'.knownRoots r' = true) :
    r' = r ∨ t.knownRoots r' = true := by
  unfold insert at h
  split at h
  · cases h
  · simp only [Except.ok.injEq, Prod.mk.injEq] at h
    obtain ⟨rfl, rfl⟩ := h
    simp only [rollWindow, Function.update_apply] at hr
    split at hr
    · exact .inl ‹_›
    · split at hr
      · simp only [Function.update_apply] at hr
        split at hr
        · cases hr
        · exact .inr hr
      · exact .inr hr

theorem insert_ok_leaves {t t' : CommitmentMerkleTree F} {window : ℕ} {x r : F}
    (ht : History hash t) (h : insert hash window t x = .ok (r, t')) :
    t'.leaves = t.leaves ++ [x] :=
  (ht.frontier.insert_ok h).leaves

theorem insert_ok_root {t t' : CommitmentMerkleTree F} {window : ℕ} {x r : F}
    (ht : History hash t) (h : insert hash window t x = .ok (r, t')) :
    r = listRoot hash 0 treeDepth (t.leaves ++ [x]) := by
  have hn := lt_of_insert_ok h
  rw [ht.frontier.nextIndex] at hn
  obtain ⟨t₁, h1, -⟩ := insert_frontier window ht.frontier hn x
  rw [h] at h1
  cases h1
  rfl

theorem History.insert {t t' : CommitmentMerkleTree F} {window : ℕ} {x r : F}
    (ht : History hash t) (h : insert hash window t x = .ok (r, t')) : History hash t' := by
  have hl := insert_ok_leaves ht h
  constructor
  · rw [hl]; exact ht.frontier.insert_ok h
  · intro r' hr
    rw [hl]
    rcases known_of_insert_ok h hr with rfl | hr
    · exact ⟨_, List.prefix_rfl, insert_ok_root ht h⟩
    · obtain ⟨xs, hxs, e⟩ := ht.known r' hr
      exact ⟨xs, hxs.trans (List.prefix_append _ _), e⟩

/-- A path from a non-zero leaf to a known root starts at an inserted leaf. -/
theorem History.mem_leaves {t : CommitmentMerkleTree F} (ht : History hash t)
    (hH : Function.Injective2 hash) {leaf root : F} {p : List (Step F)} (hleaf : leaf ≠ 0)
    (hp : p.length = treeDepth) (hclimb : climb hash leaf p = root)
    (hroot : t.isKnownRoot root = true) : leaf ∈ t.leaves := by
  have hknown : t.knownRoots root = true := by
    unfold isKnownRoot at hroot
    split at hroot
    · cases hroot
    · exact hroot
  obtain ⟨xs, hxs, rfl⟩ := ht.known root hknown
  rw [listRoot, ← hp] at hclimb
  have hx := climb_binding hH _ _ p leaf hclimb
  rcases Nat.lt_or_ge (pathIndex 0 p) xs.length with hlt | hge
  · rw [padded_of_lt hlt] at hx
    exact hxs.subset (hx ▸ List.getElem_mem hlt)
  · rw [padded_of_le hge] at hx
    exact absurd hx hleaf

end Polyshield.CommitmentMerkleTree

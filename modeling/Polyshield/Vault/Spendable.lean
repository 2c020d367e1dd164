import Polyshield.Circuits.Prover
import Polyshield.Vault.Reserves

/-!
# Spending a note

What every call that spends a note needs and does: the owner has a path of the
note to the current root, the nullifier is marked, and the next note of the
lineage, if there is one, is committed and not spent.
-/

namespace Polyshield

open Merkle

variable {F Proof Sig : Type} [Field F] [DecidableEq F] {E : Env F Proof Sig}

/-! ## Paths under the current root -/

omit [DecidableEq F] in
theorem commitment_mem_leaves {C : Circomlib F} {t : CommitmentMerkleTree F} {n : Note F}
    (h : n ∈ hiddenNotes C t) : n.commitment C ∈ t.leaves := by
  obtain ⟨x, hx, hdecode⟩ := List.mem_filterMap.mp h
  unfold decodeNote at hdecode
  split at hdecode
  · rename_i hex
    obtain rfl := Option.some.inj hdecode
    rwa [hex.choose_spec]
  · cases hdecode

namespace Reserves

variable {s : VaultState F} (h : Reserves E s)
  (ht : CommitmentMerkleTree.History E.circomlib.poseidon2 s.tree)

include h ht

theorem isKnownRoot_currentRoot (hE : E.Ideal) :
    s.tree.isKnownRoot s.tree.currentRoot = true := by
  have hne : s.tree.currentRoot ≠ 0 := by
    rw [ht.frontier.currentRoot]
    exact hE.injective.poseidon2_ne_zero _ _
  rw [CommitmentMerkleTree.isKnownRoot, if_neg hne]
  exact h.current

theorem exists_merkleProof {n : Note F} (hn : n ∈ hiddenNotes E.circomlib s.tree) :
    ∃ p : MerkleProof F, p.root = s.tree.currentRoot ∧
      p.Satisfies E.circomlib.poseidon2 (n.commitment E.circomlib) p.root := by
  obtain ⟨i, hi, hleaf⟩ := List.getElem_of_mem (commitment_mem_leaves hn)
  let path := authPath E.circomlib.poseidon2 (padded 0 s.tree.leaves) treeDepth 0 i
  refine ⟨⟨path.map Prod.fst, path.map fun x => (x.2.toNat : ℤ), s.tree.currentRoot, i⟩, rfl, ?_⟩
  rw [← hleaf, ht.frontier.currentRoot]
  exact satisfies_of_authPath _ hi h.leaves rfl rfl

/-- The owner of a committed note has inputs to spend it, with a path to the current root. -/
theorem exists_spendInputs {n : Note F} (hn : n ∈ hiddenNotes E.circomlib s.tree) {a : Address}
    (ha : (a.toNat : F) = n.owner) : ∃ i : SpendInputs F, i.Of E.circomlib n ∧
      i.ownerAddress = a ∧ i.merkleRoot = s.tree.currentRoot := by
  obtain ⟨p, hroot, hp⟩ := h.exists_merkleProof ht hn
  let i : SpendInputs F := {
    secret := n.secret
    balance := n.balance
    nonce := n.nonce
    merklePath := p.path
    merklePathIndices := p.pathIndices
    ownerAddress := a
    merkleRoot := p.root
    nullifier := n.nullifier E.circomlib }
  exact ⟨i, ⟨rfl, rfl, rfl, ha, rfl, hp⟩, rfl, hroot⟩

end Reserves

/-! ## The nullifier and the next note -/

theorem spendAndInsert_eq_ok {s : VaultState F} {nullifier c : F} (hun : s.spent nullifier = false)
    (hroom : c ≠ 0 → s.tree.nextIndex < 2 ^ treeDepth) :
    ∃ t', Grows E s.tree c t' ∧ spendAndInsert E s nullifier c
      = .ok { s with spent := Function.update s.spent nullifier true, tree := t' } := by
  have hspend : spendNullifier s nullifier
      = .ok { s with spent := Function.update s.spent nullifier true } := by
    simp [spendNullifier, markSpent, hun, bind, Except.bind, pure, Except.pure]
  rw [spendAndInsert, hspend]
  show ∃ t', _ ∧ (if c = 0 then _ else insertLeaf E _ c) = _
  by_cases hc : c = 0
  · subst hc
    exact ⟨_, .none, if_pos rfl⟩
  · have hins : ∃ r t', s.tree.insert E.circomlib.poseidon2 rootWindow c = .ok (r, t') := by
      rw [CommitmentMerkleTree.insert, if_neg (not_le.mpr (hroom hc))]
      exact ⟨_, _, rfl⟩
    obtain ⟨r, t', ht⟩ := hins
    refine ⟨t', .leaf hc ht, ?_⟩
    simp only [if_neg hc, insertLeaf, ht]

theorem Grows.nextIndex_lt {t t' : CommitmentMerkleTree F} {c : F} (h : Grows E t c t')
    (hc : c ≠ 0) : t.nextIndex < 2 ^ treeDepth := by
  cases h with
  | none => exact absurd rfl hc
  | leaf _ hins => exact CommitmentMerkleTree.lt_of_insert_ok hins

theorem Grows.leaves_eq {t t' : CommitmentMerkleTree F} {c : F} (h : Grows E t c t') (hc : c ≠ 0)
    (ht : CommitmentMerkleTree.History E.circomlib.poseidon2 t) : t'.leaves = t.leaves ++ [c] := by
  cases h with
  | none => exact absurd rfl hc
  | leaf _ hins => exact CommitmentMerkleTree.insert_ok_leaves ht hins

/-- A note is spent, and the next one of its lineage is committed and not. -/
structure Continues (C : Circomlib F) (s' : VaultState F) (n m : Note F) : Prop where
  spent : s'.spent (n.nullifier C) = true
  follows : m.Follows n
  mem : m ∈ hiddenNotes C s'.tree
  unspent : s'.spent (m.nullifier C) = false

section Continues

variable (hE : E.Ideal) {s s' : VaultState F} (hs : BooksInv E s) {n m : Note F}

include hE hs

theorem Continues.of_advances (h : Advances E.circomlib s s' n (some m)) :
    Continues E.circomlib s' n m := by
  have hm := h.follows m rfl
  have hfresh := hs.notes.fresh_next hE.injective hE.wide hm h.unspent
  have hne : m.nullifier E.circomlib ≠ n.nullifier E.circomlib := fun heq =>
    hfresh (List.mem_map.mpr ⟨n, h.mem, heq.symm⟩)
  refine ⟨?_, hm, ?_, ?_⟩
  · rw [h.spent]
    exact Function.update_self ..
  · rw [h.hidden]
    exact List.mem_append_right _ (List.mem_singleton_self m)
  · rw [h.spent, Function.update_of_ne hne]
    exact hs.notes.unspent_of_fresh hfresh

theorem Continues.of_grows (hn : n ∈ hiddenNotes E.circomlib s.tree)
    (hun : s.spent (n.nullifier E.circomlib) = false) (hm : m.Follows n)
    (htree : Grows E s.tree (m.commitment E.circomlib) s'.tree)
    (hspent : s'.spent = Function.update s.spent (n.nullifier E.circomlib) true) :
    Continues E.circomlib s' n m :=
  .of_advances hE hs {
    mem := hn
    unspent := hun
    follows := fun m' hm' => by
      obtain rfl := Option.mem_some.mp hm'
      exact hm
    hidden := htree.hidden hE hs rfl
    spent := hspent }

end Continues

end Polyshield

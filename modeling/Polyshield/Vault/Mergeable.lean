import Polyshield.Lib.Related
import Polyshield.Vault.Spendable

/-!
# Notes can be merged

`consolidate` spends up to four notes of one owner for one of their sum. For the
owner's inputs it succeeds as soon as the sum is a balance and no note is taken
twice, unless the Vault is paused or the tree is full.
-/

namespace Polyshield

variable {F Proof Sig : Type} [Field F] {C : Circomlib F}

/-! ## The inputs -/

section Inputs

variable {α : Type} {first : SpendInputs F} {others is : List (SpendInputs F)} {n : Note F}
  {ns : List (Note F)}

omit [Field F] in
theorem padSlots_of_getElem {field : SpendInputs F → α} {padding : α} {j : Fin 4}
    {i : SpendInputs F} (h : is[j.val]? = some i) : padSlots is field padding j = field i := by
  rw [padSlots, h]
  rfl

omit [Field F] in
theorem padSlots_of_none {field : SpendInputs F → α} {padding : α} {j : Fin 4}
    (h : is[j.val]? = none) : padSlots is field padding j = padding := by
  rw [padSlots, h]
  rfl

theorem sum_padSlots (field : SpendInputs F → F) (h : is.length ≤ 4) :
    padSlots is field 0 0 + padSlots is field 0 1 + padSlots is field 0 2 + padSlots is field 0 3
      = (is.map field).sum := by
  match is, h with
  | [], _ => simp [padSlots]
  | [_], _ => simp [padSlots]
  | [_, _], _ => simp [padSlots]
  | [_, _, _], _ => simp [padSlots, add_assoc]
  | [_, _, _, _], _ => simp [padSlots, add_assoc]

/-- No slot repeats another exactly when no note is taken twice. -/
theorem pairwise_padSlots {field : SpendInputs F → F} (h : is.length ≤ 4)
    (hne : ∀ i ∈ is, field i ≠ 0) :
    ([0, 1, 2, 3] : List (Fin 4)).Pairwise (fun j k => padSlots is field 0 j ≠ 0 →
      padSlots is field 0 j ≠ padSlots is field 0 k) ↔ (is.map field).Nodup := by
  match is, h with
  | [], _ => simp [padSlots]
  | [_], _ => simp_all [padSlots]
  | [_, _], _ => simp_all [padSlots]
  | [_, _, _], _ => simp_all [padSlots]
  | [_, _, _, _], _ => simp_all [padSlots]

/-- The signals of a slot that a note is in. -/
theorem consolidateInputs_slot_some {j : Fin 4} {i : SpendInputs F}
    (h : (first :: others)[j.val]? = some i) :
    (consolidateInputs C first others).slot j
        = ⟨i.secret, (i.balance : F), (i.nonce : F), i.merklePath,
            i.merklePathIndices.map Int.cast, 1⟩ ∧
      (consolidateInputs C first others).nullifier j = i.nullifier := by
  refine ⟨?_, padSlots_of_getElem h⟩
  simp only [ConsolidateInputs.slot, consolidateInputs, padSlots_of_getElem h, Nat.cast_one]

theorem consolidateInputs_slot_none {j : Fin 4} (h : (first :: others)[j.val]? = none) :
    (consolidateInputs C first others).slot j
        = ⟨0, 0, 0, List.replicate treeDepth 0, List.replicate treeDepth 0, 0⟩ ∧
      (consolidateInputs C first others).nullifier j = 0 := by
  refine ⟨?_, padSlots_of_none h⟩
  simp only [ConsolidateInputs.slot, consolidateInputs, padSlots_of_none h, Nat.cast_zero,
    Int.cast_zero, List.map_replicate]

theorem consolidateInputs_eff (j : Fin 4) : ((consolidateInputs C first others).slot j).eff
    = padSlots (first :: others) (fun i => (i.balance : F)) 0 j := by
  rw [SlotSignals.eff]
  cases hj : (first :: others)[j.val]? with
  | some i =>
    simp only [ConsolidateInputs.slot, consolidateInputs, padSlots_of_getElem hj, Nat.cast_one,
      one_mul]
  | none =>
    simp only [ConsolidateInputs.slot, consolidateInputs, padSlots_of_none hj, Nat.cast_zero,
      zero_mul]

/-- The inputs of a merge are of these notes, of one owner. -/
structure MergeOf (C : Circomlib F) (first : SpendInputs F) (others : List (SpendInputs F))
    (n : Note F) (ns : List (Note F)) : Prop where
  spends : List.Forall₂ (SpendInputs.Of C) (first :: others) (n :: ns)
  owner : ∀ i ∈ others, i.ownerAddress = first.ownerAddress
  length : (first :: others).length ≤ 4

namespace MergeOf

variable (h : MergeOf C first others n ns)

include h

theorem first_of : first.Of C n := by
  cases h.spends with
  | cons h _ => exact h

/-- Each of the inputs is of one of the notes, in the name of the one owner. -/
theorem mem_of {i : SpendInputs F} (hi : i ∈ first :: others) :
    ∃ m ∈ n :: ns, i.Of C m ∧ (first.ownerAddress.toNat : F) = m.owner := by
  obtain ⟨m, hm, hof⟩ := Related.exists_of_mem_left h.spends hi
  refine ⟨m, hm, hof, ?_⟩
  rw [← hof.owner]
  rcases List.mem_cons.mp hi with rfl | hi
  · rfl
  · rw [h.owner i hi]

theorem nullifiers : (first :: others).map SpendInputs.nullifier
    = (n :: ns).map fun m => m.nullifier C :=
  Related.map_eq (fun _ _ hi => hi.nullifier) h.spends

theorem sum_balance : ((first :: others).map SpendInputs.balance).sum
    = (((n :: ns).map Note.balance).sum : ℕ) := by
  rw [Related.map_eq (fun _ _ hi => hi.balance) h.spends, Nat.cast_list_sum, List.map_map]
  rfl

theorem sum_lt : ((n :: ns).map Note.balance).sum < 2 ^ 253 := by
  have hlen : (n :: ns).length ≤ 4 := h.spends.length_eq ▸ h.length
  have hle := List.sum_le_card_nsmul ((n :: ns).map Note.balance) (2 ^ 64) fun x hx => by
    obtain ⟨m, -, rfl⟩ := List.mem_map.mp hx
    exact m.balance_lt.le
  rw [List.length_map, smul_eq_mul] at hle
  have : (n :: ns).length * 2 ^ 64 ≤ 4 * 2 ^ 64 := Nat.mul_le_mul_right _ hlen
  omega

theorem sum_eff :
    let i := consolidateInputs C first others
    (i.slot 0).eff + (i.slot 1).eff + (i.slot 2).eff + (i.slot 3).eff
      = ((((n :: ns).map Note.balance).sum : ℕ) : F) := by
  intro i
  simp only [i, consolidateInputs_eff]
  rw [sum_padSlots _ h.length, ← Int.cast_natCast, ← h.sum_balance, Int.cast_list_sum,
    List.map_map]
  rfl

theorem slotConstraints (hC : C.Spec) (hroot : ∀ i ∈ others, i.merkleRoot = first.merkleRoot)
    (j : Fin 4) :
    let i := consolidateInputs C first others
    ∃ root, SlotConstraints C (i.ownerAddress.toNat : F) i.merkleRoot (i.slot j) (i.nullifier j)
      root := by
  intro i
  cases hj : (first :: others)[j.val]? with
  | some k =>
    obtain ⟨hslot, hnul⟩ := consolidateInputs_slot_some (C := C) hj
    have hk := List.mem_of_getElem? hj
    obtain ⟨m, -, hof, howned⟩ := h.mem_of hk
    have hknown : k.merkleRoot = first.merkleRoot := by
      rcases List.mem_cons.mp hk with rfl | hk
      · rfl
      · exact hroot k hk
    refine ⟨k.merkleRoot, ?_, ?_, ?_, ?_, ?_, ?_⟩ <;> rw [hslot]
    · simp [AssertBool]
    · show AssertBits C 64 (k.balance : F)
      rw [hof.balance, Int.cast_natCast]
      exact assertBits_natCast hC (by decide) m.balance_lt
    · show AssertBits C 64 (k.nonce : F)
      rw [hof.nonce]
      exact assertBits_natCast hC (by decide) m.nonce_lt
    · show PoseidonMerklePath C.poseidon2 treeDepth (NoteCommitment C k.secret (k.balance : F)
        (k.nonce : F) (first.ownerAddress.toNat : F)) k.merklePath _ k.merkleRoot
      rw [hof.secret, hof.balance, hof.nonce, howned, Int.cast_natCast]
      exact hof.path
    · show 1 * (k.merkleRoot - first.merkleRoot) = 0
      rw [hknown, sub_self, mul_zero]
    · rw [hnul, hof.nullifier, one_mul, hof.secret, hof.nonce]
      rfl
  | none =>
    obtain ⟨hslot, hnul⟩ := consolidateInputs_slot_none (C := C) hj
    refine ⟨_, ?_, ?_, ?_, ⟨?_, ?_, ?_, rfl⟩, ?_, ?_⟩ <;> rw [hslot]
    · simp [AssertBool]
    · exact Nat.cast_zero (R := F) ▸ assertBits_natCast hC (by decide) (by decide)
    · exact Nat.cast_zero (R := F) ▸ assertBits_natCast hC (by decide) (by decide)
    · exact List.length_replicate
    · exact List.length_replicate
    · intro b hb
      rw [List.eq_of_mem_replicate hb]
      simp [AssertBool]
    · exact zero_mul _
    · rw [hnul, zero_mul]

theorem root_eq {j : Fin 4} {i : SpendInputs F} (hj : (first :: others)[j.val]? = some i) {root : F}
    (hslot : SlotConstraints C (first.ownerAddress.toNat : F) first.merkleRoot
      ((consolidateInputs C first others).slot j)
      ((consolidateInputs C first others).nullifier j) root) :
    i.merkleRoot = first.merkleRoot := by
  obtain ⟨m, -, hof, howned⟩ := h.mem_of (List.mem_of_getElem? hj)
  have hpath := hslot.merkle.root_eq
  have hgate := hslot.rootGate
  rw [(consolidateInputs_slot_some (C := C) hj).1] at hpath hgate
  dsimp only at hpath hgate
  rw [hof.secret, hof.balance, hof.nonce, howned, Int.cast_natCast] at hpath
  have hroot : root = i.merkleRoot := hpath.trans hof.path.root_eq.symm
  rwa [one_mul, hroot, sub_eq_zero] at hgate

/-- Notes are merged exactly when their sum is a balance and all their paths lead to one root. -/
theorem proves_iff (hC : C.Spec) (hF : Wide F) (hnonce : n.nonce + 1 < 2 ^ 64) :
    (consolidateInputs C first others).Proves C ↔
      ((n :: ns).map Note.balance).sum < 2 ^ 64 ∧
        ∀ i ∈ others, i.merkleRoot = first.merkleRoot := by
  have hsum := h.sum_eff
  dsimp only at hsum
  constructor
  · rintro ⟨root, hp⟩
    refine ⟨?_, fun i hi => ?_⟩
    · have hbits := hp.sumBits
      rw [hsum] at hbits
      exact AssertBits.lt hC hF (by decide) h.sum_lt hbits
    · obtain ⟨j, hj, hget⟩ := List.getElem_of_mem (List.mem_cons_of_mem first hi)
      exact h.root_eq (j := ⟨j, hj.trans_le h.length⟩) (List.getElem?_eq_some_iff.mpr ⟨hj, hget⟩)
        (hp.slots _)
  · rintro ⟨hlt, hroot⟩
    choose root hslots using h.slotConstraints hC hroot
    refine ⟨root, hslots, ?_, ?_, ?_, ?_⟩
    · exact Nat.cast_one
    · rw [hsum]
      exact assertBits_natCast hC (by decide) hlt
    · show IncrementU64 C (first.nonce : F) ((first.nonce : F) + 1)
      rw [h.first_of.nonce]
      exact incrementU64_natCast hC hnonce
    · rw [hsum]
      show NoteCommitment C first.secret _ ((first.nonce : F) + 1) (first.ownerAddress.toNat : F)
        = NoteCommitment C first.secret (((first :: others).map SpendInputs.balance).sum : F)
          ((first.nonce + 1 : ℕ) : F) (first.ownerAddress.toNat : F)
      rw [h.sum_balance, Int.cast_natCast, Nat.cast_add, Nat.cast_one]

end MergeOf

end Inputs

/-! ## The checks of the Vault -/

variable [DecidableEq F] {E : Env F Proof Sig} {s s' : VaultState F} {proof : Proof}
  {inputs : ConsolidatePublicInputs F}

/-- The checks of `consolidate`, in its order. -/
structure MergeChecks (E : Env F Proof Sig) (s : VaultState F) (proof : Proof)
    (inputs : ConsolidatePublicInputs F) : Prop where
  unpaused : s.paused = false
  known : s.tree.isKnownRoot inputs.merkleRoot = true
  first : inputs.nullifier 0 ≠ 0
  unspent : ∀ j, inputs.nullifier j ≠ 0 → s.spent (inputs.nullifier j) = false
  verifies : verifyConsolidate E proof inputs = true
  distinct : ([0, 1, 2, 3] : List (Fin 4)).Pairwise fun j k =>
    inputs.nullifier j ≠ 0 → inputs.nullifier j ≠ inputs.nullifier k
  room : s.tree.nextIndex < 2 ^ treeDepth

theorem SpendsSlots.unspent {nullifier : Fin 4 → F} {js : List (Fin 4)} {spent spent' : F → Bool}
    (h : SpendsSlots nullifier js spent spent') :
    ∀ j ∈ js, nullifier j ≠ 0 → spent (nullifier j) = false := by
  induction h with
  | nil => simp
  | skip hj _ ih =>
    intro k hk hne
    rcases List.mem_cons.mp hk with rfl | hk
    · exact absurd hj hne
    · exact ih k hk hne
  | @spend j js spent spent' hj hs _ ih =>
    intro k hk hne
    rcases List.mem_cons.mp hk with rfl | hk
    · exact hs
    · have hk' := ih k hk hne
      rw [Function.update_apply] at hk'
      split at hk'
      · cases hk'
      · exact hk'

theorem SpendsSlots.pairwise {nullifier : Fin 4 → F} {js : List (Fin 4)} {spent spent' : F → Bool}
    (h : SpendsSlots nullifier js spent spent') :
    js.Pairwise fun j k => nullifier j ≠ 0 → nullifier j ≠ nullifier k := by
  induction h with
  | nil => exact .nil
  | skip hj _ ih => exact .cons (fun _ _ hne => absurd hj hne) ih
  | @spend j js spent spent' hj _ hrest ih =>
    refine .cons (fun k hk _ heq => ?_) ih
    have hk' := hrest.unspent k hk (heq ▸ hj)
    rw [← heq, Function.update_self] at hk'
    cases hk'

theorem spendSlots_eq_ok {nullifier : Fin 4 → F} {js : List (Fin 4)} {s : VaultState F}
    (hun : ∀ j ∈ js, nullifier j ≠ 0 → s.spent (nullifier j) = false)
    (hne : js.Pairwise fun j k => nullifier j ≠ 0 → nullifier j ≠ nullifier k) :
    ∃ spent', VaultLogic.spendSlots nullifier js s = .ok { s with spent := spent' } := by
  induction js generalizing s with
  | nil => exact ⟨s.spent, rfl⟩
  | cons j js ih =>
    obtain ⟨hj, hne⟩ := List.pairwise_cons.mp hne
    have hun' := fun k hk => hun k (List.mem_cons_of_mem _ hk)
    unfold VaultLogic.spendSlots
    by_cases h0 : nullifier j = 0
    · obtain ⟨spent', h⟩ := ih hun' hne
      rw [if_pos h0]
      exact ⟨spent', h⟩
    · have hspend : spendNullifier s (nullifier j)
          = .ok { s with spent := Function.update s.spent (nullifier j) true } := by
        simp [spendNullifier, markSpent, hun j List.mem_cons_self h0, bind, Except.bind, pure,
          Except.pure]
      rw [if_neg h0, hspend]
      refine ih (s := { s with spent := Function.update s.spent (nullifier j) true })
        (fun k hk hk0 => ?_) hne
      show Function.update s.spent (nullifier j) true (nullifier k) = false
      rw [Function.update_of_ne (hj k hk h0).symm]
      exact hun' k hk hk0

theorem consolidate_succeeds_iff :
    (∃ s', consolidate E s proof inputs = .ok s') ↔ MergeChecks E s proof inputs := by
  constructor
  · rintro ⟨s', h⟩
    have hp : s.paused = false := by
      simp only [consolidate, whenNotPaused, Except.bind_eq_ok, revertIf_eq_ok, exists_const,
        Bool.not_eq_true] at h
      exact h.1
    obtain ⟨hroot, h0, hun, hv, spent', r, t', hsp, hins, -⟩ := consolidate_ok h
    exact ⟨hp, hroot, h0, hun, hv, hsp.pairwise, CommitmentMerkleTree.lt_of_insert_ok hins⟩
  · intro h
    obtain ⟨spent', hspend⟩ := spendSlots_eq_ok (fun j _ => h.unspent j) h.distinct
    have hins : ∃ s₂, insertLeaf E { s with spent := spent' } inputs.newCommitment = .ok s₂ := by
      unfold insertLeaf
      rw [CommitmentMerkleTree.insert, if_neg (not_le.mpr h.room)]
      exact ⟨_, rfl⟩
    obtain ⟨s₂, hins⟩ := hins
    simp only [consolidate, VaultLogic.consolidate, whenNotPaused, Except.bind_eq_ok,
      revertIf_eq_ok, Except.pure_eq_ok, exists_const, Bool.not_eq_false, not_exists, not_and,
      Bool.not_eq_true]
    exact ⟨_, h.unpaused, h.known, h.first, h.unspent, h.verifies, _, hspend, _, hins, rfl⟩

/-! ## Notes of a reachable Vault -/

def ConsolidateInputs.publicInputs (i : ConsolidateInputs F) : ConsolidatePublicInputs F where
  merkleRoot := i.merkleRoot
  nullifier := i.nullifier
  newCommitment := i.newCommitment

/-- The notes are spent, and the next note of the first one's lineage has what they had. -/
structure MergesNotes (C : Circomlib F) (s' : VaultState F) (ns : List (Note F)) (n m : Note F) :
    Prop where
  continues : Continues C s' n m
  spent : ∀ k ∈ ns, s'.spent (k.nullifier C) = true
  balance : m.balance = (ns.map Note.balance).sum

section Reachable

variable (hE : E.Ideal) (hs : BooksInv E s) (hres : Reserves E s) {n : Note F} {ns : List (Note F)}
  {first : SpendInputs F} {others : List (SpendInputs F)}
  (h : MergeOf E.circomlib first others n ns)
  (hn : ∀ k ∈ n :: ns, k ∈ hiddenNotes E.circomlib s.tree ∧
    s.spent (k.nullifier E.circomlib) = false)

include h

omit [DecidableEq F] in
theorem MergeOf.nullifier_cases (j : Fin 4) :
    (∃ k ∈ n :: ns, (consolidateInputs E.circomlib first others).nullifier j
      = k.nullifier E.circomlib) ∨
    (consolidateInputs E.circomlib first others).nullifier j = 0 := by
  cases hj : (first :: others)[j.val]? with
  | some i =>
    obtain ⟨k, hk, hof, -⟩ := h.mem_of (List.mem_of_getElem? hj)
    exact .inl ⟨k, hk, (consolidateInputs_slot_some (C := E.circomlib) hj).2.trans hof.nullifier⟩
  | none => exact .inr (consolidateInputs_slot_none hj).2

omit [DecidableEq F] in
theorem MergeOf.exists_slot {k : Note F} (hk : k ∈ n :: ns) :
    ∃ j, (consolidateInputs E.circomlib first others).nullifier j = k.nullifier E.circomlib := by
  obtain ⟨i, hi, hof⟩ := Related.exists_of_mem_right h.spends hk
  obtain ⟨j, hj, hget⟩ := List.getElem_of_mem hi
  have hsome : (first :: others)[j]? = some i := List.getElem?_eq_some_iff.mpr ⟨hj, hget⟩
  exact ⟨⟨j, hj.trans_le h.length⟩,
    (consolidateInputs_slot_some (j := ⟨j, hj.trans_le h.length⟩) hsome).2.trans hof.nullifier⟩

include hE hs hres hn

theorem mergesNotes_consolidate (hlt : ((n :: ns).map Note.balance).sum < 2 ^ 64)
    (hx : consolidate E s proof (consolidateInputs E.circomlib first others).publicInputs
      = .ok s') :
    ∃ m, MergesNotes E.circomlib s' (n :: ns) n m ∧
      m.commitment E.circomlib = (consolidateInputs E.circomlib first others).newCommitment := by
  obtain ⟨slot, k, next, hcons, hcom⟩ := consolidation_consolidate hE hs hx
  obtain ⟨hmem, hun⟩ := hn n List.mem_cons_self
  let m : Note F := ⟨n.secret, n.owner, ((n :: ns).map Note.balance).sum, n.nonce + 1, hlt,
    hres.nonce_succ_lt hmem⟩
  have hm : m.Follows n := ⟨rfl, rfl, rfl⟩
  have hnew : m.commitment E.circomlib
      = (consolidateInputs E.circomlib first others).newCommitment := by
    show NoteCommitment E.circomlib n.secret (((n :: ns).map Note.balance).sum : F)
        ((n.nonce + 1 : ℕ) : F) n.owner
      = NoteCommitment E.circomlib first.secret
        (((first :: others).map SpendInputs.balance).sum : F) ((first.nonce + 1 : ℕ) : F)
        (first.ownerAddress.toNat : F)
    rw [h.sum_balance, Int.cast_natCast, h.first_of.secret, h.first_of.nonce]
    rw [show (first.ownerAddress.toNat : F) = n.owner from h.first_of.owner]
  obtain rfl : next = m :=
    Note.commitment_inj hE.injective hE.wide (hcom.trans hnew.symm)
  have hspent (k : Note F) (hk : k ∈ n :: ns) : s'.spent (k.nullifier E.circomlib) = true := by
    obtain ⟨j, hj⟩ := h.exists_slot hk
    exact (hcons.spent _).mpr (.inr ⟨k.nullifier_ne_zero hE.injective, j, hj⟩)
  have hfresh := hs.notes.fresh_next hE.injective hE.wide hm hun
  have hfree : s'.spent (m.nullifier E.circomlib) = false := by
    rw [← Bool.not_eq_true, hcons.spent]
    rintro (hs' | ⟨hne, j, hj⟩)
    · rw [hs.notes.unspent_of_fresh hfresh] at hs'
      cases hs'
    · rcases h.nullifier_cases j with ⟨k, hk, hkj⟩ | h0
      · exact hfresh (List.mem_map.mpr ⟨k, (hn k hk).1, hkj.symm.trans hj⟩)
      · exact hne (hj.symm.trans h0)
  refine ⟨m, ⟨⟨hspent n List.mem_cons_self, hm, ?_, hfree⟩, hspent, rfl⟩, hnew⟩
  rw [hcons.hidden]
  exact List.mem_append_right _ (List.mem_singleton_self m)

/-- Unspent notes of one owner are merged into one exactly when the Vault is not paused, their
paths lead to one root, no note is taken twice, the sum is a balance, and the tree has a leaf
left. -/
theorem consolidate_proved_iff (hroot : s.tree.isKnownRoot first.merkleRoot = true) :
    let i := consolidateInputs E.circomlib first others
    (i.Proves E.circomlib ∧ ∃ proof s', consolidate E s proof i.publicInputs = .ok s' ∧
        ∃ m, MergesNotes E.circomlib s' (n :: ns) n m ∧
          m.commitment E.circomlib = i.newCommitment) ↔
      s.paused = false ∧ (∀ i ∈ others, i.merkleRoot = first.merkleRoot) ∧
        ((n :: ns).map fun k => k.nullifier E.circomlib).Nodup ∧
        ((n :: ns).map Note.balance).sum < 2 ^ 64 ∧ s.tree.leaves.length < 2 ^ treeDepth := by
  intro i
  obtain ⟨hmem, hun⟩ := hn n List.mem_cons_self
  have hproves := h.proves_iff hE.spec hE.wide (hres.nonce_succ_lt hmem)
  have hleaves := hs.notes.history.frontier.nextIndex
  have hnul : ∀ k ∈ first :: others, k.nullifier ≠ 0 := fun k hk => by
    obtain ⟨m, -, hof, -⟩ := h.mem_of hk
    rw [hof.nullifier]
    exact m.nullifier_ne_zero hE.injective
  have hdistinct := pairwise_padSlots h.length hnul
  rw [h.nullifiers] at hdistinct
  constructor
  · rintro ⟨hp, proof, s', hx, -⟩
    obtain ⟨hlt, hroots⟩ := hproves.mp hp
    have hc := consolidate_succeeds_iff.mp ⟨s', hx⟩
    exact ⟨hc.unpaused, hroots, hdistinct.mp hc.distinct, hlt, hleaves ▸ hc.room⟩
  · rintro ⟨hpaused, hroots, hnodup, hlt, hroom⟩
    have hprove := hproves.mpr ⟨hlt, hroots⟩
    have hw : HasWitness E.circomlib .consolidate [i.merkleRoot, i.nullifier 0, i.nullifier 1,
        i.nullifier 2, i.nullifier 3, i.newCommitment] := by
      obtain ⟨root, hcons⟩ := hprove
      refine ⟨i.slot, root, (i.ownerAddress.toNat : F), ?_⟩
      have hvec : ![i.nullifier 0, i.nullifier 1, i.nullifier 2, i.nullifier 3] = i.nullifier := by
        funext j
        fin_cases j <;> rfl
      rw [hvec]
      exact hcons
    obtain ⟨proof, hv⟩ := (hE.verify_iff _ _).mpr hw
    have hchecks : MergeChecks E s proof i.publicInputs := {
      unpaused := hpaused
      known := hroot
      first := hnul first List.mem_cons_self
      unspent := fun j hj => by
        show s.spent (i.nullifier j) = false
        rcases h.nullifier_cases j with ⟨k, hk, hkj⟩ | h0
        · rw [show i.nullifier j = k.nullifier E.circomlib from hkj]
          exact (hn k hk).2
        · exact absurd h0 hj
      verifies := hv
      distinct := hdistinct.mpr hnodup
      room := by rwa [hleaves] }
    obtain ⟨s', hx⟩ := consolidate_succeeds_iff.mpr hchecks
    exact ⟨hprove, proof, s', hx, mergesNotes_consolidate hE hs hres h hn hlt hx⟩

end Reachable

end Polyshield

import Polyshield.Circuits.Soundness
import Polyshield.Lib.NotePool
import Polyshield.Tree.History

/-!
# The notes hidden in the tree

What the leaves commit to, decoded, and the value of the notes nobody has spent.
A note after the first of its lineage is committed only when the one before it
is spent (`NoteInv.previous`), so a note that continues an unspent one has a
nullifier nobody has used. Deposits alone can repeat a nullifier.
-/

namespace Polyshield

open Merkle CommitmentMerkleTree

variable {F : Type} [Field F] [DecidableEq F]

open Classical in
/-- The note a leaf commits to. -/
noncomputable def decodeNote (C : Circomlib F) (x : F) : Option (Note F) :=
  if h : ∃ n : Note F, n.commitment C = x then some h.choose else none

/-- The committed notes, in the order of their leaves. -/
noncomputable def hiddenNotes (C : Circomlib F) (t : CommitmentMerkleTree F) : List (Note F) :=
  t.leaves.filterMap (decodeNote C)

/-- The balances of the unspent notes, the largest one for each nullifier. -/
noncomputable def poolValue (C : Circomlib F) (t : CommitmentMerkleTree F) (spent : F → Bool) : ℕ :=
  NotePool.value (Note.nullifier C) Note.balance (hiddenNotes C t) spent

/-- No two committed notes have the same nullifier. -/
def DistinctNullifiers (C : Circomlib F) (t : CommitmentMerkleTree F) : Prop :=
  ((hiddenNotes C t).map (Note.nullifier C)).Nodup

/-- What holds between the leaves and the spent nullifiers. -/
structure NoteInv (C : Circomlib F) (t : CommitmentMerkleTree F) (spent : F → Bool) : Prop where
  history : History C.poseidon2 t
  leaves : ∀ x ∈ t.leaves, ∃ n : Note F, n.commitment C = x
  spentNotes : ∀ x, spent x = true → ∃ n ∈ hiddenNotes C t, n.nullifier C = x
  previous : ∀ n ∈ hiddenNotes C t, ∀ k : ℕ, n.nonce = k + 1 →
    spent (NullifierHash C n.secret (k : F)) = true

variable {C : Circomlib F} {t t' : CommitmentMerkleTree F} {spent : F → Bool}

section Decoding

variable (hI : C.Injective) (hF : Wide F)

include hI hF

omit [DecidableEq F] in
@[simp] theorem decodeNote_commitment (n : Note F) : decodeNote C (n.commitment C) = some n := by
  have h : ∃ m : Note F, m.commitment C = n.commitment C := ⟨n, rfl⟩
  rw [decodeNote, dif_pos h, Note.commitment_inj hI hF h.choose_spec]

theorem hiddenNotes_insert {n : Note F} {r : F} (ht : History C.poseidon2 t)
    (h : t.insert C.poseidon2 rootWindow (n.commitment C) = .ok (r, t')) :
    hiddenNotes C t' = hiddenNotes C t ++ [n] := by
  rw [hiddenNotes, insert_ok_leaves ht h, List.filterMap_append]
  simp [decodeNote_commitment hI hF, hiddenNotes]

omit [DecidableEq F] in
theorem mem_hiddenNotes {n : Note F} (h : n.commitment C ∈ t.leaves) : n ∈ hiddenNotes C t :=
  List.mem_filterMap.mpr ⟨_, h, decodeNote_commitment hI hF n⟩

end Decoding

theorem noteInv_initial : NoteInv C (initializeTree C.poseidon2) (fun _ => false) where
  history := history_initializeTree _
  leaves := fun x hx => by simp [CommitmentMerkleTree.leaves, initializeTree] at hx
  spentNotes := fun x hx => by cases hx
  previous := fun n hn => by
    simp [hiddenNotes, CommitmentMerkleTree.leaves, initializeTree] at hn

omit [DecidableEq F] in
/-- The next note of a lineage has a predecessor in the order of nonces. -/
theorem Note.Follows.previous {m n : Note F} (h : m.Follows n) {k : ℕ} (hk : m.nonce = k + 1) :
    NullifierHash C m.secret (k : F) = n.nullifier C := by
  have e : k = n.nonce := by have := h.nonce; omega
  rw [e, h.secret, Note.nullifier]

/-- Spending an unspent note takes at least its balance out of the pool, and exactly
that when no other note has its nullifier. -/
theorem poolValue_spend {n : Note F} (hn : n ∈ hiddenNotes C t)
    (hs : spent (n.nullifier C) = false) :
    poolValue C t (Function.update spent (n.nullifier C) true) + n.balance
        ≤ poolValue C t spent ∧
      (DistinctNullifiers C t →
        poolValue C t (Function.update spent (n.nullifier C) true) + n.balance
          = poolValue C t spent) := by
  have h := NotePool.value_spend (Note.nullifier C) Note.balance (hiddenNotes C t) hs
  have hle := NotePool.bal_le_peak (Note.nullifier C) Note.balance hn
  refine ⟨by unfold poolValue; omega, fun hd => ?_⟩
  rw [NotePool.peak_eq_bal hd hn] at h
  exact h

namespace NoteInv

variable (hinv : NoteInv C t spent)

include hinv

theorem mem_of_opens (hI : C.Injective) (hF : Wide F) {n : Note F} {root nul : F}
    (hroot : t.isKnownRoot root = true) (h : n.Opens C root nul) : n ∈ hiddenNotes C t := by
  obtain ⟨p, hp, hclimb⟩ := h.path
  exact mem_hiddenNotes hI hF
    (hinv.history.mem_leaves hI.poseidon2_inj (n.commitment_ne_zero hI) hp hclimb hroot)

omit [DecidableEq F] in
theorem fresh_next (hI : C.Injective) (hF : Wide F) {m n : Note F} (h : m.Follows n)
    (hs : spent (n.nullifier C) = false) :
    m.nullifier C ∉ (hiddenNotes C t).map (Note.nullifier C) := by
  intro hm
  obtain ⟨m', hm', e⟩ := List.mem_map.mp hm
  obtain ⟨hsec, hnon⟩ := Note.nullifier_inj hI hF e
  have hprev := hinv.previous m' hm' n.nonce (by rw [hnon, h.nonce])
  rw [hsec, h.secret] at hprev
  rw [Note.nullifier] at hs
  rw [hs] at hprev
  cases hprev

omit [DecidableEq F] in
theorem unspent_of_fresh {x : F} (h : x ∉ (hiddenNotes C t).map (Note.nullifier C)) :
    spent x = false := by
  by_contra hx
  obtain ⟨n, hn, e⟩ := hinv.spentNotes x (by simpa using hx)
  exact h (e ▸ List.mem_map_of_mem hn)

theorem spend {n : Note F} (hn : n ∈ hiddenNotes C t) :
    NoteInv C t (Function.update spent (n.nullifier C) true) where
  history := hinv.history
  leaves := hinv.leaves
  spentNotes := fun x hx => by
    rw [Function.update_apply] at hx
    split at hx
    · exact ⟨n, hn, by simp [*]⟩
    · exact hinv.spentNotes x hx
  previous := fun m hm k hk => by
    rw [Function.update_apply, hinv.previous m hm k hk, ite_self]

section Insert

variable (hI : C.Injective) (hF : Wide F) {n : Note F} {r : F}
  (h : t.insert C.poseidon2 rootWindow (n.commitment C) = .ok (r, t'))

include hI hF h

theorem insertNote
    (hprev : ∀ k : ℕ, n.nonce = k + 1 → spent (NullifierHash C n.secret (k : F)) = true) :
    NoteInv C t' spent where
  history := hinv.history.insert h
  leaves := fun x hx => by
    rw [insert_ok_leaves hinv.history h, List.mem_append, List.mem_singleton] at hx
    rcases hx with hx | rfl
    · exact hinv.leaves x hx
    · exact ⟨n, rfl⟩
  spentNotes := fun x hx => by
    obtain ⟨m, hm, e⟩ := hinv.spentNotes x hx
    rw [hiddenNotes_insert hI hF hinv.history h]
    exact ⟨m, List.mem_append_left _ hm, e⟩
  previous := fun m hm => by
    rw [hiddenNotes_insert hI hF hinv.history h, List.mem_append, List.mem_singleton] at hm
    rcases hm with hm | rfl
    · exact hinv.previous m hm
    · exact hprev

theorem poolValue_insert_le : poolValue C t' spent ≤ poolValue C t spent + n.balance := by
  unfold poolValue
  rw [hiddenNotes_insert hI hF hinv.history h]
  exact NotePool.value_append_le _ _ _

theorem poolValue_insert (hfresh : n.nullifier C ∉ (hiddenNotes C t).map (Note.nullifier C)) :
    poolValue C t' spent = poolValue C t spent + n.balance := by
  have hs := hinv.unspent_of_fresh hfresh
  unfold poolValue
  rw [hiddenNotes_insert hI hF hinv.history h]
  exact NotePool.value_append hfresh hs

/-- Distinct nullifiers after an insert were distinct before it, and the new one is none of them. -/
theorem distinct_of_insert (hd : DistinctNullifiers C t') :
    DistinctNullifiers C t ∧ n.nullifier C ∉ (hiddenNotes C t).map (Note.nullifier C) := by
  unfold DistinctNullifiers at hd ⊢
  rw [hiddenNotes_insert hI hF hinv.history h, List.map_append, List.map_singleton,
    List.nodup_append] at hd
  exact ⟨hd.1, fun hm => hd.2.2 _ hm _ (List.mem_singleton_self _) rfl⟩

end Insert

end NoteInv

/-! ## Moves between states -/

/-- The notes moved from one state to the next, with at least `spends` taken out of the
pool for at most `creates` put in, and exactly that while no nullifier repeats. -/
structure Moves (C : Circomlib F) (t : CommitmentMerkleTree F) (spent : F → Bool)
    (t' : CommitmentMerkleTree F) (spent' : F → Bool) (spends creates : ℕ) : Prop where
  inv : NoteInv C t' spent'
  le : poolValue C t' spent' + spends ≤ poolValue C t spent + creates
  eq : DistinctNullifiers C t' →
    poolValue C t' spent' + spends = poolValue C t spent + creates
  distinct : DistinctNullifiers C t' → DistinctNullifiers C t

theorem Moves.trans {t₁ t₂ t₃ : CommitmentMerkleTree F} {s₁ s₂ s₃ : F → Bool} {a b c d : ℕ}
    (h : Moves C t₁ s₁ t₂ s₂ a b) (h' : Moves C t₂ s₂ t₃ s₃ c d) :
    Moves C t₁ s₁ t₃ s₃ (a + c) (b + d) where
  inv := h'.inv
  le := by
    have := h.le
    have := h'.le
    omega
  eq := fun hd => by
    have := h.eq (h'.distinct hd)
    have := h'.eq hd
    omega
  distinct := fun hd => h.distinct (h'.distinct hd)

section Moves

variable (hinv : NoteInv C t spent) (hI : C.Injective) (hF : Wide F)

include hinv

theorem moves_refl : Moves C t spent t spent 0 0 where
  inv := hinv
  le := le_rfl
  eq := fun _ => rfl
  distinct := id

theorem moves_spend {n : Note F} (hn : n ∈ hiddenNotes C t) (hs : spent (n.nullifier C) = false) :
    Moves C t spent t (Function.update spent (n.nullifier C) true) n.balance 0 where
  inv := hinv.spend hn
  le := (poolValue_spend hn hs).1
  eq := (poolValue_spend hn hs).2
  distinct := id

include hI hF

theorem moves_deposit {n : Note F} {r : F} (hn : n.nonce = 0)
    (h : t.insert C.poseidon2 rootWindow (n.commitment C) = .ok (r, t')) :
    Moves C t spent t' spent 0 n.balance where
  inv := hinv.insertNote hI hF h fun k hk => by omega
  le := hinv.poolValue_insert_le hI hF h
  eq := fun hd => hinv.poolValue_insert hI hF h (hinv.distinct_of_insert hI hF h hd).2
  distinct := fun hd => (hinv.distinct_of_insert hI hF h hd).1

theorem moves_insert {m n : Note F} {r : F} (hm : m.Follows n) (hs : spent (n.nullifier C) = true)
    (hfresh : m.nullifier C ∉ (hiddenNotes C t).map (Note.nullifier C))
    (h : t.insert C.poseidon2 rootWindow (m.commitment C) = .ok (r, t')) :
    Moves C t spent t' spent 0 m.balance where
  inv := hinv.insertNote hI hF h fun k hk => by rw [hm.previous hk, hs]
  le := (hinv.poolValue_insert hI hF h hfresh).le
  eq := fun _ => hinv.poolValue_insert hI hF h hfresh
  distinct := fun hd => (hinv.distinct_of_insert hI hF h hd).1

theorem moves_next {m n : Note F} {r : F} (hn : n ∈ hiddenNotes C t)
    (hs : spent (n.nullifier C) = false) (hm : m.Follows n)
    (h : t.insert C.poseidon2 rootWindow (m.commitment C) = .ok (r, t')) :
    Moves C t spent t' (Function.update spent (n.nullifier C) true) n.balance m.balance := by
  have h1 := moves_spend hinv hn hs
  have h2 := moves_insert h1.inv hI hF hm (Function.update_self ..)
    (hinv.fresh_next hI hF hm hs) h
  simpa only [Nat.add_zero, Nat.zero_add] using h1.trans h2

end Moves

end Polyshield

import Polyshield.Lib.RingWindow
import Polyshield.Tree.Frontier

/-!
# The root window of the contract

The window of `CommitmentMerkleTree` is a `RingWindow` over the roots it has
produced, the seed root first. `isKnownRoot` is exact while the roots differ.
-/

namespace Polyshield.CommitmentMerkleTree

variable {F : Type*} [DecidableEq F] [Zero F] {hash : F → F → F}

/-- The roots produced so far: the seed root, then one for each insert. -/
def roots (hash : F → F → F) (t : CommitmentMerkleTree F) : List F :=
  Merkle.zeroNode hash 0 treeDepth :: t.logs.map (·.newRoot)

omit [DecidableEq F] [Zero F] in
/-- The window part of the storage. -/
def ringWindow (t : CommitmentMerkleTree F) : RingWindow F where
  ring := t.rootRing
  known := t.knownRoots
  count := t.rootCount

/-- The window has seen the roots of the tree, one for each leaf and the seed. -/
structure WindowInv (hash : F → F → F) (W : ℕ) (t : CommitmentMerkleTree F) : Prop where
  tracks : RingWindow.Tracks W t.ringWindow (roots hash t)
  current : (roots hash t).getLast? = some t.currentRoot
  known : t.knownRoots t.currentRoot = true
  count : t.rootCount = t.nextIndex + 1
  capacity : t.nextIndex ≤ 2 ^ treeDepth
  exact : 0 < W → (roots hash t).Nodup → RingWindow.Exact W t.ringWindow (roots hash t)

theorem ringWindow_initializeTree :
    (initializeTree hash : CommitmentMerkleTree F).ringWindow
      = RingWindow.single (fun _ => 0) (Merkle.zeroNode hash 0 treeDepth) := by
  rw [← initializeTree_currentRoot]; rfl

theorem roots_initializeTree :
    roots hash (initializeTree hash : CommitmentMerkleTree F)
      = [Merkle.zeroNode hash 0 treeDepth] := rfl

variable (hash) in
theorem windowInv_initializeTree (W : ℕ) :
    WindowInv hash W (initializeTree hash : CommitmentMerkleTree F) where
  tracks := by
    rw [ringWindow_initializeTree, roots_initializeTree]
    exact RingWindow.tracks_single _ _
  current := by rw [roots_initializeTree, initializeTree_currentRoot]; rfl
  known := by simp [initializeTree]
  count := rfl
  capacity := Nat.zero_le _
  exact := fun hW _ => by
    rw [ringWindow_initializeTree, roots_initializeTree]
    exact RingWindow.exact_single hW _ _

theorem insert_window {t t' : CommitmentMerkleTree F} {W : ℕ} {x r : F}
    (h : insert hash W t x = .ok (r, t')) (hc : t.rootCount < 2 ^ 64 - 1) :
    t'.ringWindow = t.ringWindow.push W r ∧ roots hash t' = roots hash t ++ [r] ∧
      t'.currentRoot = r ∧ t'.nextIndex = t.nextIndex + 1 := by
  have hmod : (t.rootCount + 1) % 2 ^ 64 = t.rootCount + 1 := Nat.mod_eq_of_lt (by omega)
  unfold insert at h
  split at h
  · cases h
  · simp only [Except.ok.injEq, Prod.mk.injEq] at h
    obtain ⟨rfl, rfl⟩ := h
    refine ⟨?_, by simp [roots], rfl, rfl⟩
    simp only [ringWindow, rollWindow, RingWindow.push, hmod]
    rfl

theorem WindowInv.insert {t t' : CommitmentMerkleTree F} {W : ℕ} {x r : F}
    (ht : WindowInv hash W t) (h : insert hash W t x = .ok (r, t')) : WindowInv hash W t' := by
  have hlt := lt_of_insert_ok h
  have hbound : t.rootCount < 2 ^ 64 - 1 := by
    have : 2 ^ treeDepth < 2 ^ 64 - 2 := by decide
    have := ht.count
    omega
  obtain ⟨hw, hr, hcur, hnext⟩ := insert_window h hbound
  have hknown : t'.ringWindow.known r = true := by rw [hw]; exact RingWindow.known_push_self _ _
  have hcount : t'.ringWindow.count = t.rootCount + 1 := by rw [hw]; rfl
  constructor
  · rw [hw, hr]; exact ht.tracks.push r
  · rw [hr, hcur]; simp
  · rw [hcur]; exact hknown
  · have := ht.count
    simp only [ringWindow] at hcount
    omega
  · omega
  · intro hW hnd
    rw [hr] at hnd
    rw [hw, hr]
    exact (ht.exact hW (hnd.sublist (List.sublist_append_left _ _))).push hW ht.tracks hnd

theorem WindowInv.insertAll {t t' : CommitmentMerkleTree F} {W : ℕ} {r : F} (cs : List F)
    (ht : WindowInv hash W t) (h : insertAll hash W t cs = .ok (r, t')) :
    WindowInv hash W t' := by
  suffices key : ∀ (p : F × CommitmentMerkleTree F), WindowInv hash W p.2 →
      cs.foldlM (fun p c => CommitmentMerkleTree.insert hash W p.2 c) p = .ok (r, t') →
      WindowInv hash W t' from key _ ht h
  clear ht h
  induction cs with
  | nil =>
    intro p hp h
    rw [List.foldlM_nil] at h
    cases h
    exact hp
  | cons c cs ih =>
    intro p hp h
    rw [List.foldlM_cons] at h
    cases hc : CommitmentMerkleTree.insert hash W p.2 c with
    | error e => rw [hc] at h; cases h
    | ok q => rw [hc] at h; exact ih q (hp.insert hc) h

omit [Zero F] in
theorem insertAll_concat_eq_ok {t : CommitmentMerkleTree F} {W : ℕ} {cs : List F} {c : F}
    {q : F × CommitmentMerkleTree F} : insertAll hash W t (cs ++ [c]) = .ok q ↔
      ∃ p, insertAll hash W t cs = .ok p ∧ insert hash W p.2 c = .ok q := by
  simp only [insertAll, List.foldlM_append, List.foldlM_cons, List.foldlM_nil, bind_pure]
  cases cs.foldlM (fun p c => insert hash W p.2 c) (t.currentRoot, t) with
  | error e =>
    constructor
    · intro h
      cases h
    · rintro ⟨_, h, -⟩
      cases h
  | ok p =>
    constructor
    · intro h
      exact ⟨p, rfl, h⟩
    · rintro ⟨p', hp, h⟩
      cases hp
      exact h

/-- The roots are the seed root and those that the inserts returned, in their order. -/
theorem roots_insertAll {t : CommitmentMerkleTree F} {W : ℕ} {r : F} (cs : List F)
    (h : insertAll hash W (initializeTree hash) cs = .ok (r, t)) :
    r = t.currentRoot ∧ (roots hash t).length = cs.length + 1 ∧
      ∀ k (hk : k < (roots hash t).length), ∃ u,
        insertAll hash W (initializeTree hash) (cs.take k) = .ok ((roots hash t)[k], u) := by
  induction cs using List.reverseRecOn generalizing r t with
  | nil =>
    cases h
    refine ⟨rfl, rfl, fun k hk => ⟨initializeTree hash, ?_⟩⟩
    obtain rfl : k = 0 := by simpa [roots_initializeTree] using hk
    show Except.ok ((initializeTree hash).currentRoot, initializeTree hash) = _
    rw [initializeTree_currentRoot]
    rfl
  | append_singleton cs c ih =>
    obtain ⟨⟨r', t'⟩, h', hc⟩ := insertAll_concat_eq_ok.mp h
    obtain ⟨-, hlen, hroots⟩ := ih h'
    have hinv := (windowInv_initializeTree hash W).insertAll cs h'
    have hcount : t'.rootCount < 2 ^ 64 - 1 := by
      have hlt : 2 ^ treeDepth < 2 ^ 64 - 2 := by decide
      have := hinv.count
      have := hinv.capacity
      omega
    obtain ⟨-, hpush, hcurrent, -⟩ := insert_window hc hcount
    refine ⟨hcurrent.symm, by simp [hpush, hlen], fun k hk => ?_⟩
    simp only [hpush, List.length_append, List.length_singleton] at hk
    rcases Nat.lt_or_ge k (roots hash t').length with hlt | hge
    · obtain ⟨u, hu⟩ := hroots k hlt
      refine ⟨u, ?_⟩
      rw [List.take_append_of_le_length (by omega), hu]
      simp only [hpush, List.getElem_append_left hlt]
    · refine ⟨t, ?_⟩
      rw [List.take_of_length_le (by simp; omega), h]
      simp only [hpush, List.getElem_append_right hge, List.getElem_singleton]

variable (hash) in
/-- After any sequence of inserts the roots are the seed root and what the
inserts returned, the last of them the current one. `isKnownRoot` is membership
in the last `W` of them and each sits in its slot, while they are distinct and
non-zero; the current root is known as soon as it is non-zero. -/
theorem root_window_exact {t : CommitmentMerkleTree F} {W : ℕ} {r : F} (hW : 1 ≤ W)
    (cs : List F) (h : insertAll hash W (initializeTree hash) cs = .ok (r, t)) :
    (r = t.currentRoot ∧ t.rootCount = cs.length + 1 ∧
        (roots hash t)[0]? = some (Merkle.zeroNode hash 0 treeDepth) ∧
        ∀ k (hk : k < (roots hash t).length), ∃ u,
          insertAll hash W (initializeTree hash) (cs.take k) = .ok ((roots hash t)[k], u)) ∧
      ((roots hash t).Nodup → 0 ∉ roots hash t →
        (roots hash t).length = t.rootCount ∧
        (∀ x, t.isKnownRoot x = true
          ↔ x ∈ (roots hash t).drop (t.rootCount - min W t.rootCount)) ∧
        (roots hash t).getLast? = some t.currentRoot ∧
        ∀ seq (hs : seq < (roots hash t).length), t.rootCount - min W t.rootCount ≤ seq →
          t.rootRing (seq % W) = (roots hash t)[seq]) ∧
      (t.currentRoot ≠ 0 → t.isKnownRoot t.currentRoot = true) := by
  have hinv := (windowInv_initializeTree hash W).insertAll cs h
  have hlen : t.rootCount = (roots hash t).length := hinv.tracks.count
  obtain ⟨hr, hcount, hreturned⟩ := roots_insertAll cs h
  refine ⟨⟨hr, hlen.trans hcount, rfl, hreturned⟩,
    fun hnd hz => ⟨hlen.symm, fun x => ?_, hinv.current, fun seq hs hlo => ?_⟩, fun hc => ?_⟩
  · have hex := hinv.exact hW hnd x
    rw [RingWindow.recent, ← hlen] at hex
    rw [show t.rootCount - min W t.rootCount = t.rootCount - W by omega, ← hex, isKnownRoot]
    split
    · rename_i hx
      subst hx
      have : (0 : F) ∉ (roots hash t).drop (t.rootCount - W) :=
        fun hm => hz (List.mem_of_mem_drop hm)
      simp only [Bool.false_eq_true, false_iff]
      rwa [hex]
    · rfl
  · exact hinv.tracks.ring seq hs (by omega)
  · rw [isKnownRoot, if_neg hc]
    exact hinv.known

theorem root_window_exact_two_inserts :
    ∃ r t, insertAll (fun a b : ℕ => a + 2 * b + 1) 2 (initializeTree fun a b => a + 2 * b + 1)
        [5, 7] = .ok (r, t) ∧
      t.rootCount = 3 ∧ t.isKnownRoot t.currentRoot = true ∧
      ∀ x, t.isKnownRoot x = true
        ↔ x ∈ (roots (fun a b => a + 2 * b + 1) t).drop (t.rootCount - min 2 t.rootCount) := by
  refine ⟨_, _, rfl, ?_⟩
  have h := root_window_exact (fun a b : ℕ => a + 2 * b + 1) (show 1 ≤ 2 by decide) [5, 7] rfl
  exact ⟨h.1.2.1, h.2.2 (by decide), (h.2.1 (by decide) (by decide)).2.1⟩

end Polyshield.CommitmentMerkleTree

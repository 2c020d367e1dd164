import Polyshield.Tree.Agreement
import Polyshield.Tree.History
import Polyshield.Tree.Sync

/-!
# What the cache serves

While it is consistent, the cache holds the chain's first `nextIndex` leaves,
whatever the reads returned, the process died on or the database refused, unless
a read returned a log forged so that its root fits its leaf. When no statement
on the database is lost alone, the cursor stays below every block whose last read
returned a leaf the cache does not have.
-/

namespace Polyshield

open Merkle

/-! ## Indices from `2 ^ 31` on -/

section

variable {F : Type*} [Zero F] [DecidableEq F] {poseidon2 : F → F → F}

theorem jsShiftRight1_neg {i : ℤ} (h1 : -2 ^ 31 ≤ i) (h2 : i < 0) :
    -2 ^ 31 ≤ jsShiftRight1 i ∧ jsShiftRight1 i < 0 := by
  have hi : (BitVec.ofInt 32 i).toInt = i := by
    rw [BitVec.toInt_ofInt]
    exact Int.bmod_eq_of_le (by omega) (by omega)
  rw [jsShiftRight1, BitVec.toInt_sshiftRight, hi, Int.shiftRight_eq_div_pow]
  omega

namespace CachedMerkleTree

omit [DecidableEq F] in
/-- From a negative index the loop of `append` only writes nodes with negative indices. -/
theorem appendLoop_neg (k level l : ℕ) {i j : ℤ} (nodes : ℕ → ℤ → Option F) (h1 : -2 ^ 31 ≤ i)
    (h2 : i < 0) (hj : 0 ≤ j) :
    getNode poseidon2 (appendLoop poseidon2 k level i nodes) l j = getNode poseidon2 nodes l j := by
  induction k generalizing level i nodes with
  | zero => rfl
  | succ k ih =>
    obtain ⟨h3, h4⟩ := jsShiftRight1_neg h1 h2
    rw [appendLoop, ih _ _ h3 h4, getNode_setNode, if_neg (by omega)]

/-- The leaf with index `2 ^ 31` leaves the root as it was. -/
theorem root_append_of_eq_pow {c : CachedMerkleTree F} (h : c.nextIndex = 2 ^ 31) (x : F) :
    (c.append poseidon2 x).root poseidon2 = c.root poseidon2 := by
  have hneg : jsShiftRight1 ((2 ^ 31 : ℕ) : ℤ) = -2 ^ 30 := by decide
  have hnodes : (c.append poseidon2 x).nodes
      = appendLoop poseidon2 (31 + 1) 0 (c.nextIndex : ℤ) (setNode c.nodes 0 c.nextIndex x) := rfl
  rw [root, root, hnodes, appendLoop, h, hneg,
    appendLoop_neg _ _ _ _ (by norm_num) (by norm_num) le_rfl,
    getNode_setNode, if_neg (by decide), getNode_setNode, if_neg (by decide)]

/-! ## The cache follows a list of leaves -/

variable (poseidon2) in
def leaves (c : CachedMerkleTree F) : List F :=
  (List.range c.nextIndex).map fun i : ℕ => getNode poseidon2 c.nodes 0 (i : ℤ)

variable (poseidon2) in
/-- The cache holds the first `nextIndex` of `xs`. -/
structure Follows (c : CachedMerkleTree F) (xs : List F) : Prop where
  mirrors : Mirrors poseidon2 c (xs.take c.nextIndex)
  room : c.nextIndex ≤ 2 ^ 31
  indexed : ∀ x i, c.indexByLeaf x = some i → i < c.nextIndex ∧ xs[i]? = some x

omit [DecidableEq F] in
theorem follows_empty (xs : List F) : Follows poseidon2 (empty : CachedMerkleTree F) xs where
  mirrors := mirrors_empty
  room := Nat.zero_le _
  indexed := fun x i h => by cases h

omit [DecidableEq F] in
theorem Follows.nextIndex_le {c : CachedMerkleTree F} {xs : List F} (h : Follows poseidon2 c xs) :
    c.nextIndex ≤ xs.length := by
  have := h.mirrors.nextIndex
  rw [List.length_take] at this
  omega

theorem Follows.append {c : CachedMerkleTree F} {xs : List F} {x : F} (h : Follows poseidon2 c xs)
    (hn : c.nextIndex < 2 ^ 31) (hx : xs[c.nextIndex]? = some x) :
    Follows poseidon2 (c.append poseidon2 x) xs where
  mirrors := by
    have hlen : (xs.take c.nextIndex).length = c.nextIndex := h.mirrors.nextIndex.symm
    have htake : xs.take (c.nextIndex + 1) = xs.take c.nextIndex ++ [x] := by
      rw [List.take_add_one, hx]
      rfl
    have := h.mirrors.append (by omega) x
    rwa [← htake] at this
  room := hn
  indexed := fun y i hy => by
    simp only [CachedMerkleTree.append, Function.update_apply] at hy ⊢
    split at hy
    case isTrue e =>
      cases hy
      exact ⟨Nat.lt_succ_self _, e ▸ hx⟩
    case isFalse =>
      have := h.indexed y i hy
      exact ⟨by omega, this.2⟩

omit [DecidableEq F] in
theorem Follows.root {c : CachedMerkleTree F} {xs : List F} (h : Follows poseidon2 c xs) :
    c.root poseidon2 = listRoot poseidon2 0 treeDepth (xs.take c.nextIndex) :=
  h.mirrors.root

omit [DecidableEq F] in
theorem Follows.leaves {c : CachedMerkleTree F} {xs : List F} (h : Follows poseidon2 c xs) :
    c.leaves poseidon2 = xs.take c.nextIndex := by
  have hlen : (xs.take c.nextIndex).length = c.nextIndex := h.mirrors.nextIndex.symm
  refine List.ext_getElem (by simp [CachedMerkleTree.leaves, hlen]) fun i h1 h2 => ?_
  simp only [CachedMerkleTree.leaves]
  rw [List.getElem_map, List.getElem_range,
    h.mirrors.getNode 0 (Nat.zero_le _) i, node, padded_of_lt h2]

/-- Two caches that mirror the same leaves compute the same next root. -/
theorem Mirrors.root_append {c c' : CachedMerkleTree F} {xs : List F}
    (h : Mirrors poseidon2 c xs) (h' : Mirrors poseidon2 c' xs) (hn : xs.length ≤ 2 ^ 31) (x : F) :
    (c.append poseidon2 x).root poseidon2 = (c'.append poseidon2 x).root poseidon2 := by
  rcases Nat.lt_or_eq_of_le hn with hlt | heq
  · rw [(h.append hlt x).root, (h'.append hlt x).root]
  · rw [root_append_of_eq_pow (h.nextIndex.trans heq), root_append_of_eq_pow
      (h'.nextIndex.trans heq), h.root, h'.root]

end CachedMerkleTree

/-! ## The chain's logs -/

/-- Every log carries the root of the tree with the leaves up to its own. -/
def Rooted (hash : F → F → F) (logs : List (LeafInserted F)) : Prop :=
  ∀ i log, logs[i]? = some log →
    log.newRoot = listRoot hash 0 treeDepth ((logs.map (·.leaf)).take (i + 1))

omit [DecidableEq F] in
theorem Rooted.append {hash : F → F → F} {logs : List (LeafInserted F)} {log : LeafInserted F}
    (h : Rooted hash logs)
    (hlog : log.newRoot = listRoot hash 0 treeDepth (logs.map (·.leaf) ++ [log.leaf])) :
    Rooted hash (logs ++ [log]) := by
  intro i log' hi
  rcases Nat.lt_or_ge i logs.length with hlt | hge
  · rw [List.getElem?_append_left hlt] at hi
    rw [h i log' hi, List.map_append, List.take_append_of_le_length (by simpa using hlt)]
  · obtain ⟨hlen, -⟩ := List.getElem?_eq_some_iff.mp hi
    rw [List.length_append, List.length_singleton] at hlen
    obtain rfl : i = logs.length := by omega
    rw [List.getElem?_concat_length, Option.some.injEq] at hi
    subst hi
    rw [hlog, List.take_of_length_le (by simp), List.map_append]
    rfl

namespace CommitmentMerkleTree

omit [Zero F] in
theorem logs_of_insert_ok {t t' : CommitmentMerkleTree F} {window : ℕ} {x r : F}
    (h : insert poseidon2 window t x = .ok (r, t')) :
    t'.logs = t.logs ++ [⟨t.nextIndex % 2 ^ 32, x, r⟩] := by
  unfold insert at h
  split at h
  · cases h
  · cases h
    rfl

theorem rooted_insert {t t' : CommitmentMerkleTree F} {window : ℕ} {x r : F}
    (ht : History poseidon2 t) (hr : Rooted poseidon2 t.logs)
    (h : insert poseidon2 window t x = .ok (r, t')) : Rooted poseidon2 t'.logs := by
  rw [logs_of_insert_ok h]
  exact hr.append (insert_ok_root ht h)

/-- The logs of any sequence of inserts. -/
theorem rooted_insertAll {t : CommitmentMerkleTree F} {window : ℕ} {xs : List F} {r : F}
    (h : insertAll poseidon2 window (initializeTree poseidon2) xs = .ok (r, t)) :
    Rooted poseidon2 t.logs := by
  suffices key : ∀ (p : F × CommitmentMerkleTree F), History poseidon2 p.2 →
      Rooted poseidon2 p.2.logs →
      xs.foldlM (fun p c => CommitmentMerkleTree.insert poseidon2 window p.2 c) p = .ok (r, t) →
      Rooted poseidon2 t.logs from
    key _ (history_initializeTree poseidon2) (fun i log hi => by cases hi) h
  clear h
  induction xs with
  | nil =>
    intro p _ hp h
    rw [List.foldlM_nil] at h
    cases h
    exact hp
  | cons c cs ih =>
    intro p hist hp h
    rw [List.foldlM_cons] at h
    cases hc : CommitmentMerkleTree.insert poseidon2 window p.2 c with
    | error e => rw [hc] at h; cases h
    | ok q => rw [hc] at h; exact ih q (hist.insert hc) (rooted_insert hist hp hc) h

end CommitmentMerkleTree

/-! ## Forged logs -/

variable (poseidon2) in
/-- The root the cache computes when it holds the chain's leaves below the log's index and
appends the log's leaf. -/
def computedRoot (chain : List (LeafInserted F)) (log : LeafInserted F) : F :=
  ((((chain.take log.leafIndex).map (·.leaf)).foldl (CachedMerkleTree.append poseidon2)
    .empty).append poseidon2 log.leaf).root poseidon2

variable (poseidon2) in
/-- A log that is not the chain's, with the root that its own leaf leads to. -/
def Forged (chain : List (LeafInserted F)) (log : LeafInserted F) : Prop :=
  chain[log.leafIndex]? ≠ some log ∧ computedRoot poseidon2 chain log = log.newRoot

instance (chain : List (LeafInserted F)) (log : LeafInserted F) :
    Decidable (Forged poseidon2 chain log) :=
  inferInstanceAs (Decidable (_ ∧ _))

/-- The chain as the cache needs it: rooted, and no two equal roots once it is long. -/
structure ChainLog (poseidon2 : F → F → F) (chain : List (LeafInserted F)) : Prop where
  rooted : Rooted poseidon2 chain
  distinct : 2 ^ 31 < chain.length → (chain.map (·.newRoot)).Nodup

/-- The leaf of a log that is not forged and passes the check is the chain's. -/
theorem accepted_leaf {chain : List (LeafInserted F)} {c : CachedMerkleTree F}
    {log : LeafInserted F} (hchain : ChainLog poseidon2 chain)
    (hc : c.Follows poseidon2 (chain.map (·.leaf))) (hidx : log.leafIndex = c.nextIndex)
    (hroot : (c.append poseidon2 log.leaf).root poseidon2 = log.newRoot)
    (hlog : ¬ Forged poseidon2 chain log) :
    c.nextIndex < 2 ^ 31 ∧ (chain.map (·.leaf))[c.nextIndex]? = some log.leaf := by
  have hle : c.nextIndex ≤ chain.length := by simpa using hc.nextIndex_le
  have hlen : ((chain.map (·.leaf)).take c.nextIndex).length = c.nextIndex :=
    hc.mirrors.nextIndex.symm
  have hcomputed : computedRoot poseidon2 chain log
      = (c.append poseidon2 log.leaf).root poseidon2 := by
    have hempty : CachedMerkleTree.Mirrors poseidon2 (.empty : CachedMerkleTree F) [] :=
      CachedMerkleTree.mirrors_empty
    have hfold := hempty.foldl_append ((chain.map (·.leaf)).take c.nextIndex)
      (by simpa [hlen] using hc.room)
    rw [List.nil_append] at hfold
    rw [computedRoot, hidx, List.map_take]
    exact hfold.root_append hc.mirrors (hlen.trans_le hc.room) _
  have hmem : chain[c.nextIndex]? = some log := by
    by_contra hne
    exact hlog ⟨hidx ▸ hne, hcomputed.trans hroot⟩
  refine ⟨Nat.lt_of_le_of_ne hc.room fun heq => ?_, by rw [List.getElem?_map, hmem]; rfl⟩
  -- the root stays the one of the leaf before, which the chain does not emit twice
  have hlt := (List.getElem?_eq_some_iff.mp hmem).1
  have hprev : chain[2 ^ 31 - 1]? = some (chain.get ⟨2 ^ 31 - 1, by omega⟩) :=
    List.getElem?_eq_getElem _
  have h1 := hchain.rooted _ _ hprev
  rw [CachedMerkleTree.root_append_of_eq_pow heq, hc.root, heq] at hroot
  have hnodup := hchain.distinct (by omega)
  have heqroot : (chain.map (·.newRoot))[2 ^ 31 - 1]? = (chain.map (·.newRoot))[c.nextIndex]? := by
    rw [List.getElem?_map, List.getElem?_map, hprev, hmem, Option.map_some, Option.map_some, h1,
      ← hroot]
    norm_num
  have := (List.getElem?_inj (by simp; omega) hnodup).mp heqroot
  omega

/-! ## The cache follows the chain -/

/-- The events a run still has to look at. -/
def SyncStage.pending : Option (SyncStage F) → List (LeafInserted F)
  | some (.events _ _ rest) => rest
  | _ => []

variable (poseidon2) in
/-- A consistent cache and the stored leaves are the chain's, and only a consistent cache syncs. -/
structure SyncInv (chain : List (LeafInserted F)) (s : SyncedTree F) : Prop where
  tree : s.consistent = true → s.tree.Follows poseidon2 (chain.map (·.leaf))
  rows : ∀ row ∈ s.db.leaves, row.1 < 2 ^ 31 ∧ (chain.map (·.leaf))[row.1]? = some row.2
  running : s.syncInFlight.isSome → s.consistent = true
  pending : ∀ log ∈ SyncStage.pending s.syncInFlight, ¬ Forged poseidon2 chain log

omit [Zero F] [DecidableEq F] in
theorem MerkleDb.mem_upsert {idx : ℕ} {leaf : F} {rows : List (ℕ × F)} {row : ℕ × F}
    (h : row ∈ upsert idx leaf rows) : row = (idx, leaf) ∨ row ∈ rows := by
  induction rows with
  | nil => exact .inl (List.mem_singleton.mp h)
  | cons r rows ih =>
    unfold upsert at h
    split_ifs at h with h1 h2
    · exact List.mem_cons.mp h
    · rcases List.mem_cons.mp h with h | h
      · exact .inl h
      · exact .inr (List.mem_cons_of_mem _ h)
    · rcases List.mem_cons.mp h with h | h
      · exact .inr (h ▸ List.mem_cons_self)
      · exact (ih h).imp_right (List.mem_cons_of_mem _)

omit [Zero F] [DecidableEq F] in
theorem MerkleDb.mem_delete {db : MerkleDb F} {statements : ℕ} {row : ℕ × F}
    (h : row ∈ (db.delete statements).leaves) : row ∈ db.leaves := by
  unfold delete at h
  split at h
  · exact h
  · cases h
  · cases h

/-- Loading rows of a list keeps the cache on it. -/
theorem CachedMerkleTree.Follows.loadRows {xs : List F} {rows : List (ℕ × F)}
    {c c' : CachedMerkleTree F} (hc : c.Follows poseidon2 xs)
    (hrows : ∀ row ∈ rows, row.1 < 2 ^ 31 ∧ xs[row.1]? = some row.2)
    (h : SyncedTree.loadRows poseidon2 rows c = some c') : c'.Follows poseidon2 xs := by
  induction rows generalizing c with
  | nil => cases h; exact hc
  | cons row rows ih =>
    obtain ⟨idx, leaf⟩ := row
    rw [SyncedTree.loadRows] at h
    split at h
    case isTrue => cases h
    case isFalse hidx =>
      obtain ⟨hlt, hget⟩ := hrows _ List.mem_cons_self
      rw [not_not] at hidx
      exact ih (hc.append (hidx ▸ hlt) (hidx ▸ hget))
        (fun row hr => hrows row (List.mem_cons_of_mem _ hr)) h

namespace SyncInv

variable {chain : List (LeafInserted F)} {cfg : SyncConfig} {s : SyncedTree F}

theorem finish (hs : SyncInv poseidon2 chain s) : SyncInv poseidon2 chain s.finish :=
  ⟨hs.tree, hs.rows, fun h => (by cases h), fun _ h => by cases h⟩

theorem throw (hs : SyncInv poseidon2 chain s) : SyncInv poseidon2 chain s.throw :=
  ⟨hs.tree, hs.rows, fun h => (by cases h), fun _ h => by cases h⟩

theorem setStage {stage : SyncStage F} (hs : SyncInv poseidon2 chain s)
    (hc : s.consistent = true)
    (hp : ∀ log ∈ SyncStage.pending (some stage), ¬ Forged poseidon2 chain log) :
    SyncInv poseidon2 chain (s.setStage stage) :=
  ⟨hs.tree, hs.rows, fun _ => hc, hp⟩

theorem startSync (hs : SyncInv poseidon2 chain s) (hc : s.consistent = true) :
    SyncInv poseidon2 chain s.startSync :=
  ⟨hs.tree, hs.rows, fun _ => hc, fun _ h => by cases h⟩

theorem persist {db : MerkleDb F} (hs : SyncInv poseidon2 chain s)
    (hdb : ∀ row ∈ db.leaves, row.1 < 2 ^ 31 ∧ (chain.map (·.leaf))[row.1]? = some row.2) :
    SyncInv poseidon2 chain (s.persist db) := by
  unfold SyncedTree.persist
  split
  · exact ⟨hs.tree, hdb, hs.running, hs.pending⟩
  · exact hs

theorem resetInMemory (hs : SyncInv poseidon2 chain s) (statements : ℕ) :
    SyncInv poseidon2 chain (s.resetInMemory cfg statements) :=
  persist ⟨fun _ => CachedMerkleTree.follows_empty _, hs.rows, hs.running, hs.pending⟩
    fun row h => hs.rows row (MerkleDb.mem_delete h)

theorem diverge (hs : SyncInv poseidon2 chain s) (tree : CachedMerkleTree F) :
    SyncInv poseidon2 chain ((s.setTree tree).diverge.finish) :=
  ⟨fun h => (by cases h), hs.rows, fun h => (by cases h), fun _ h => by cases h⟩

omit [Zero F] [DecidableEq F] in
theorem persist_consistent (db : MerkleDb F) : (s.persist db).consistent = s.consistent := by
  unfold SyncedTree.persist
  split <;> rfl

omit [Zero F] [DecidableEq F] in
theorem resetInMemory_consistent (statements : ℕ) :
    (s.resetInMemory cfg statements).consistent = s.consistent := by
  rw [SyncedTree.resetInMemory, persist_consistent]
  rfl

theorem saveLeaf {log : LeafInserted F} {next : SyncStage F} (hchain : ChainLog poseidon2 chain)
    (hs : SyncInv poseidon2 chain s) (hc : s.consistent = true)
    (hidx : log.leafIndex = s.tree.nextIndex)
    (hroot : (s.tree.append poseidon2 log.leaf).root poseidon2 = log.newRoot)
    (hlog : ¬ Forged poseidon2 chain log)
    (hp : ∀ log ∈ SyncStage.pending (some next), ¬ Forged poseidon2 chain log) (statements : ℕ) :
    SyncInv poseidon2 chain
      ((s.setTree (s.tree.append poseidon2 log.leaf)).saveLeaf log statements next) := by
  obtain ⟨hlt, hget⟩ := accepted_leaf hchain (hs.tree hc) hidx hroot hlog
  have happ : SyncInv poseidon2 chain (s.setTree (s.tree.append poseidon2 log.leaf)) :=
    ⟨fun _ => (hs.tree hc).append hlt hget, hs.rows, hs.running, hs.pending⟩
  unfold SyncedTree.saveLeaf
  split
  · refine (happ.persist fun row hr => ?_).setStage ((persist_consistent _).trans hc) hp
    rcases MerkleDb.mem_upsert hr with rfl | hr
    · exact ⟨hidx ▸ hlt, hidx ▸ hget⟩
    · exact hs.rows row hr
  · exact happ.throw

theorem takeEvent {log : LeafInserted F} {next : SyncStage F} (hchain : ChainLog poseidon2 chain)
    (hs : SyncInv poseidon2 chain s) (hc : s.consistent = true)
    (hlog : ¬ Forged poseidon2 chain log)
    (hp : ∀ log ∈ SyncStage.pending (some next), ¬ Forged poseidon2 chain log) (statements : ℕ) :
    SyncInv poseidon2 chain (s.takeEvent poseidon2 cfg log statements next) := by
  unfold SyncedTree.takeEvent
  split_ifs with h1 h2 h3 h4
  · exact hs.setStage hc hp
  · exact (hs.resetInMemory statements).finish
  · exact (hs.resetInMemory statements).throw
  · exact hs.diverge _
  · exact hs.saveLeaf hchain hc (not_not.mp h2) (not_not.mp h4) hlog hp statements

theorem moveCursor (hs : SyncInv poseidon2 chain s) (target : ℕ) (scan : Scan F)
    (statements : ℕ) : SyncInv poseidon2 chain (s.moveCursor target scan statements) := by
  have hmoved : SyncInv poseidon2 chain (s.setCursor scan.windowEnd (s.scanned ++ [scan])) :=
    ⟨hs.tree, hs.rows, hs.running, hs.pending⟩
  have hstored : SyncInv poseidon2 chain ((s.setCursor scan.windowEnd (s.scanned ++ [scan])).persist
      (s.db.persistLastBlock scan.windowEnd (s.scanned ++ [scan]))) := hmoved.persist hs.rows
  unfold SyncedTree.moveCursor
  split_ifs with h1 h2
  · exact hstored.setStage ((persist_consistent _).trans h2.2) fun _ h => by cases h
  · exact hstored.finish
  · exact hmoved.throw

theorem restart (hs : SyncInv poseidon2 chain s) (opened : Bool) (statements : ℕ) :
    SyncInv poseidon2 chain ((s.construct cfg opened).start poseidon2 cfg statements) := by
  have hnew : SyncInv poseidon2 chain (s.construct cfg opened) :=
    ⟨fun _ => CachedMerkleTree.follows_empty _, hs.rows, fun h => (by cases h),
      fun _ h => by cases h⟩
  unfold SyncedTree.start
  split
  case isFalse => exact hnew.startSync rfl
  case isTrue =>
    split
    · split
      · exact (hnew.resetInMemory statements).startSync (resetInMemory_consistent _)
      · exact hnew.resetInMemory statements
    · rename_i tree hload
      have htree := (hnew.tree rfl).loadRows hnew.rows hload
      exact startSync ⟨fun _ => htree, hnew.rows, hnew.running, hnew.pending⟩ rfl

end SyncInv

variable (poseidon2) in
/-- The reads return no forged log. -/
def Authentic (chain : List (LeafInserted F)) (_ : SyncedTree F) : SyncAction F → Prop
  | .logs logs => ∀ log ∈ logs, ¬ Forged poseidon2 chain log
  | _ => True

instance (chain : List (LeafInserted F)) (s : SyncedTree F) (a : SyncAction F) :
    Decidable (Authentic poseidon2 chain s a) := by
  unfold Authentic
  split <;> infer_instance

theorem syncInv_step {chain : List (LeafInserted F)} {cfg : SyncConfig} {s s' : SyncedTree F}
    {a : SyncAction F} (hchain : ChainLog poseidon2 chain) (hs : SyncInv poseidon2 chain s)
    (ha : Authentic poseidon2 chain s a) (h : (treeSync poseidon2 cfg).step s a = some s') :
    SyncInv poseidon2 chain s' := by
  have hrunning := hs.running
  have hpending := hs.pending
  cases a with
  | runSync =>
    simp only [treeSync, syncStep] at h
    split at h <;> cases h
    · exact hs
    · split
      · exact hs.setStage ‹_› fun _ h => by cases h
      · exact hs
  | blockNumber head =>
    simp only [treeSync, syncStep] at h
    split at h <;> cases h
    rename_i hst
    split
    · exact hs.finish
    · exact hs.setStage (hrunning (by rw [hst]; rfl)) fun _ h => by cases h
  | logs logs =>
    simp only [treeSync, syncStep] at h
    split at h <;> cases h
    rename_i hst
    refine hs.setStage (hrunning (by rw [hst]; rfl)) fun log hl => ha log ?_
    exact (List.perm_insertionSort _ _).mem_iff.mp hl
  | failed =>
    simp only [treeSync, syncStep] at h
    split at h <;> cases h <;> exact hs.throw
  | work statements =>
    simp only [treeSync, syncStep] at h
    split at h <;> cases h
    · rename_i hst
      rw [hst] at hrunning hpending
      refine hs.takeEvent hchain (hrunning rfl) (hpending _ List.mem_cons_self)
        (fun log hl => ?_) statements
      exact hpending log (List.mem_cons_of_mem _ hl)
    · exact hs.moveCursor _ _ statements
  | restart opened statements =>
    cases h
    exact hs.restart opened statements

/-! ## The cursor -/

/-- Every block above the deploy block up to `v` lies in one of the reads. -/
def CoversBlocks (cfg : SyncConfig) (v : ℕ) (scanned : List (Scan F)) : Prop :=
  ∀ b, cfg.beforeDeploy < b → b ≤ v → ∃ w ∈ scanned, w.cursor ≤ b ∧ b ≤ w.windowEnd

def HasRow (rows : List (ℕ × F)) (i : ℕ) : Prop := ∃ row ∈ rows, row.1 = i

/-- Where a run stands relative to the cursor and the cache. -/
def SyncStage.Ok (lastBlock nextIndex : ℕ) : Option (SyncStage F) → Prop
  | some (.window _ cursor) => cursor = lastBlock + 1
  | some (.events _ scan rest) =>
    scan.cursor = lastBlock + 1 ∧ ∀ log ∈ scan.logs, log.leafIndex < nextIndex ∨ log ∈ rest
  | _ => True

structure CursorInv (cfg : SyncConfig) (s : SyncedTree F) : Prop where
  covers : CoversBlocks cfg s.lastBlock s.scanned
  cached : ∀ w ∈ s.scanned, ∀ log ∈ w.logs, log.leafIndex < s.tree.nextIndex
  rows : s.dbOpen = true → s.consistent = true → ∀ i < s.tree.nextIndex, HasRow s.db.leaves i
  stored : ∀ v, s.db.lastBlock = some v → CoversBlocks cfg v s.db.scanned ∧
    ∀ w ∈ s.db.scanned, ∀ log ∈ w.logs, HasRow s.db.leaves log.leafIndex
  running : s.syncInFlight.isSome → s.consistent = true
  stage : SyncStage.Ok s.lastBlock s.tree.nextIndex s.syncInFlight

omit [Zero F] [DecidableEq F] in
theorem hasRow_upsert (idx : ℕ) (leaf : F) (rows : List (ℕ × F)) :
    HasRow (MerkleDb.upsert idx leaf rows) idx := by
  induction rows with
  | nil => exact ⟨_, List.mem_cons_self, rfl⟩
  | cons r rows ih =>
    unfold MerkleDb.upsert
    split_ifs
    · exact ⟨_, List.mem_cons_self, rfl⟩
    · exact ⟨_, List.mem_cons_self, rfl⟩
    · obtain ⟨row, hr, hi⟩ := ih
      exact ⟨row, List.mem_cons_of_mem _ hr, hi⟩

omit [Zero F] [DecidableEq F] in
theorem HasRow.upsert {rows : List (ℕ × F)} {i : ℕ} (h : HasRow rows i) (idx : ℕ) (leaf : F) :
    HasRow (MerkleDb.upsert idx leaf rows) i := by
  obtain ⟨row, hr, rfl⟩ := h
  induction rows with
  | nil => cases hr
  | cons r rows ih =>
    unfold MerkleDb.upsert
    split_ifs with h1 h2
    · exact ⟨row, List.mem_cons_of_mem _ hr, rfl⟩
    · rcases List.mem_cons.mp hr with rfl | hr
      · exact ⟨_, List.mem_cons_self, h2⟩
      · exact ⟨row, List.mem_cons_of_mem _ hr, rfl⟩
    · rcases List.mem_cons.mp hr with rfl | hr
      · exact ⟨_, List.mem_cons_self, rfl⟩
      · obtain ⟨row', hr', hi⟩ := ih hr
        exact ⟨row', List.mem_cons_of_mem _ hr', hi⟩

/-- Rows that load without a gap are the indices the cache gains. -/
theorem lt_nextIndex_of_loadRows {rows : List (ℕ × F)} {c c' : CachedMerkleTree F}
    (h : SyncedTree.loadRows poseidon2 rows c = some c') (i : ℕ) :
    i < c'.nextIndex ↔ i < c.nextIndex ∨ HasRow rows i := by
  induction rows generalizing c with
  | nil =>
    cases h
    simp [HasRow]
  | cons row rows ih =>
    obtain ⟨idx, leaf⟩ := row
    rw [SyncedTree.loadRows] at h
    split at h
    case isTrue => cases h
    case isFalse hidx =>
      have hnext : (c.append poseidon2 leaf).nextIndex = c.nextIndex + 1 := rfl
      rw [ih h, hnext]
      simp only [HasRow, List.exists_mem_cons_iff]
      constructor
      · rintro (hi | hi)
        · rcases Nat.lt_succ_iff_lt_or_eq.mp hi with hi | rfl
          · exact .inl hi
          · exact .inr (.inl (not_not.mp hidx))
        · exact .inr (.inr hi)
      · rintro (hi | rfl | hi)
        · exact .inl (by omega)
        · exact .inl (by omega)
        · exact .inr hi

namespace CursorInv

variable {cfg : SyncConfig} {s : SyncedTree F}

section

omit [Zero F] [DecidableEq F]

theorem finish (hs : CursorInv cfg s) : CursorInv cfg s.finish :=
  ⟨hs.covers, hs.cached, hs.rows, hs.stored, fun h => (by cases h), trivial⟩

theorem throw (hs : CursorInv cfg s) : CursorInv cfg s.throw :=
  ⟨hs.covers, hs.cached, hs.rows, hs.stored, fun h => (by cases h), trivial⟩

theorem setStage {stage : SyncStage F} (hs : CursorInv cfg s) (hc : s.consistent = true)
    (hok : SyncStage.Ok s.lastBlock s.tree.nextIndex (some stage)) :
    CursorInv cfg (s.setStage stage) :=
  ⟨hs.covers, hs.cached, hs.rows, hs.stored, fun _ => hc, hok⟩

theorem startSync (hs : CursorInv cfg s) (hc : s.consistent = true) : CursorInv cfg s.startSync :=
  ⟨hs.covers, hs.cached, hs.rows, hs.stored, fun _ => hc, trivial⟩

theorem covers_beforeDeploy (scanned : List (Scan F)) : CoversBlocks cfg cfg.beforeDeploy scanned :=
  fun b h1 h2 => by omega

theorem resetInMemory (hs : CursorInv cfg s) (hidle : s.syncInFlight = none) {statements : ℕ}
    (hst : s.dbOpen = true → statements ≠ 1) :
    CursorInv cfg (s.resetInMemory cfg statements) := by
  have hcovers : CoversBlocks cfg cfg.beforeDeploy ([] : List (Scan F)) := covers_beforeDeploy _
  have hcleared : CursorInv cfg ((s.setTree .empty).setCursor cfg.beforeDeploy []) :=
    ⟨hcovers, fun w hw => (by cases hw), fun _ _ i hi => (by cases hi), hs.stored, hs.running,
      by rw [SyncedTree.setCursor, SyncedTree.setTree, hidle]; trivial⟩
  unfold SyncedTree.resetInMemory SyncedTree.persist
  split
  case isFalse => exact hcleared
  case isTrue hdb =>
    refine ⟨hcleared.covers, hcleared.cached, fun _ _ i hi => (by cases hi), ?_, hcleared.running,
      hcleared.stage⟩
    match statements, hst hdb with
    | 0, _ => exact hs.stored
    | n + 2, _ => exact fun v hv => by cases hv

theorem resetInMemory_finish (statements : ℕ) :
    (s.resetInMemory cfg statements).finish = s.finish.resetInMemory cfg statements := by
  cases hdb : s.dbOpen <;>
    simp [SyncedTree.resetInMemory, SyncedTree.persist, SyncedTree.finish, SyncedTree.setTree,
      SyncedTree.setCursor, SyncedTree.setDb, hdb]

theorem resetInMemory_throw (statements : ℕ) :
    (s.resetInMemory cfg statements).throw = s.throw.resetInMemory cfg statements := by
  cases hdb : s.dbOpen <;>
    simp [SyncedTree.resetInMemory, SyncedTree.persist, SyncedTree.throw, SyncedTree.setTree,
      SyncedTree.setCursor, SyncedTree.setDb, hdb]

end

theorem saveLeaf {log : LeafInserted F} {next : SyncStage F} {statements : ℕ}
    (hs : CursorInv cfg s) (hc : s.consistent = true) (hidx : log.leafIndex = s.tree.nextIndex)
    (hst : s.dbOpen = true → statements ≠ 0)
    (hok : SyncStage.Ok s.lastBlock (s.tree.nextIndex + 1) (some next)) :
    CursorInv cfg
      ((s.setTree (s.tree.append poseidon2 log.leaf)).saveLeaf log statements next) := by
  have hcached : ∀ w ∈ s.scanned, ∀ log' ∈ w.logs, log'.leafIndex < s.tree.nextIndex + 1 :=
    fun w hw log' hl => Nat.lt_succ_of_lt (hs.cached w hw log' hl)
  unfold SyncedTree.saveLeaf SyncedTree.persist
  split
  case isFalse hcompl =>
    simp only [SyncedTree.completes, SyncedTree.setTree] at hcompl
    cases hdb : s.dbOpen with
    | false => simp [hdb] at hcompl
    | true =>
      have := hst hdb
      simp only [hdb, Bool.not_true, Bool.false_or, decide_eq_true_eq] at hcompl
      omega
  case isTrue =>
    split
    case isFalse hdb =>
      exact ⟨hs.covers, hcached, fun h => absurd h hdb, hs.stored, fun _ => hc, hok⟩
    case isTrue hdb =>
      refine ⟨hs.covers, hcached, fun _ _ i hi => ?_, fun v hv => ?_, fun _ => hc, hok⟩
      · rcases Nat.lt_succ_iff_lt_or_eq.mp hi with hi | rfl
        · exact (hs.rows hdb hc i hi).upsert _ _
        · exact hidx ▸ hasRow_upsert _ _ _
      · obtain ⟨h1, h2⟩ := hs.stored v hv
        exact ⟨h1, fun w hw log' hl => (h2 w hw log' hl).upsert _ _⟩

theorem takeEvent {log : LeafInserted F} {target : ℕ} {scan : Scan F} {rest : List (LeafInserted F)}
    {statements : ℕ} (hs : CursorInv cfg s)
    (hstage : s.syncInFlight = some (.events target scan (log :: rest)))
    (hsave : s.dbOpen = true → log.leafIndex = s.tree.nextIndex → statements ≠ 0)
    (hreset : s.dbOpen = true → s.tree.nextIndex < log.leafIndex → statements ≠ 1) :
    CursorInv cfg (s.takeEvent poseidon2 cfg log statements (.events target scan rest)) := by
  have hc := hs.running (by rw [hstage]; rfl)
  obtain ⟨hcur, hlogs⟩ : SyncStage.Ok s.lastBlock s.tree.nextIndex
    (some (.events target scan (log :: rest))) := hstage ▸ hs.stage
  have hrest : ∀ n, s.tree.nextIndex ≤ n → log.leafIndex < n →
      SyncStage.Ok s.lastBlock n (some (.events target scan rest)) := fun n h1 h2 => by
    refine ⟨hcur, fun log' hl => ?_⟩
    rcases hlogs log' hl with h | h
    · exact .inl (by omega)
    · rcases List.mem_cons.mp h with rfl | h
      · exact .inl h2
      · exact .inr h
  unfold SyncedTree.takeEvent
  split_ifs with h1 h2 h3 h4
  · exact hs.setStage hc (hrest _ le_rfl h1)
  · rw [resetInMemory_finish]
    exact hs.finish.resetInMemory rfl fun hdb => hreset hdb (by omega)
  · rw [resetInMemory_throw]
    exact hs.throw.resetInMemory rfl fun hdb => hreset hdb (by omega)
  · refine ⟨hs.covers, fun w hw log' hl => Nat.lt_succ_of_lt (hs.cached w hw log' hl),
      fun _ h => (by cases h), hs.stored, fun h => (by cases h), trivial⟩
  · have hidx := not_not.mp h2
    exact hs.saveLeaf hc hidx (fun hdb => hsave hdb hidx)
      (hrest _ (Nat.le_succ _) (hidx ▸ Nat.lt_succ_self _))

omit [Zero F] [DecidableEq F] in
theorem moveCursor {target : ℕ} {scan : Scan F} (hs : CursorInv cfg s)
    (hstage : s.syncInFlight = some (.events target scan [])) (statements : ℕ) :
    CursorInv cfg (s.moveCursor target scan statements) := by
  have hc := hs.running (by rw [hstage]; rfl)
  obtain ⟨hcur, hlogs⟩ : SyncStage.Ok s.lastBlock s.tree.nextIndex
    (some (.events target scan [])) := hstage ▸ hs.stage
  have hscan : ∀ log ∈ scan.logs, log.leafIndex < s.tree.nextIndex := fun log hl =>
    (hlogs log hl).resolve_right List.not_mem_nil
  have hcovers : CoversBlocks cfg scan.windowEnd (s.scanned ++ [scan]) := fun b h1 h2 => by
    by_cases hb : b ≤ s.lastBlock
    · obtain ⟨w, hw, h⟩ := hs.covers b h1 hb
      exact ⟨w, List.mem_append_left _ hw, h⟩
    · exact ⟨scan, List.mem_append_right _ List.mem_cons_self, by omega, h2⟩
  have hcached : ∀ w ∈ s.scanned ++ [scan], ∀ log ∈ w.logs, log.leafIndex < s.tree.nextIndex :=
    fun w hw => (List.mem_append.mp hw).elim (hs.cached w) fun h => List.mem_singleton.mp h ▸ hscan
  have hmoved : CursorInv cfg ((s.setCursor scan.windowEnd (s.scanned ++ [scan])).throw) :=
    ⟨hcovers, hcached, hs.rows, hs.stored, fun h => (by cases h), trivial⟩
  have hstored : ∀ stage, SyncStage.Ok scan.windowEnd s.tree.nextIndex stage →
      CursorInv cfg { (s.setCursor scan.windowEnd (s.scanned ++ [scan])).persist
        (s.db.persistLastBlock scan.windowEnd (s.scanned ++ [scan]))
        with syncInFlight := stage } := by
    intro stage hok
    unfold SyncedTree.persist
    split
    case isFalse => exact ⟨hcovers, hcached, hs.rows, hs.stored, fun _ => hc, hok⟩
    case isTrue hdb =>
      refine ⟨hcovers, hcached, hs.rows, fun v hv => ?_, fun _ => hc, hok⟩
      cases hv
      exact ⟨hcovers, fun w hw log hl => hs.rows hdb hc _ (hcached w hw log hl)⟩
  unfold SyncedTree.moveCursor
  split_ifs with h1 h2
  · exact hstored (some (.window target (scan.windowEnd + 1))) rfl
  · exact (hstored none trivial).finish
  · exact hmoved

omit [Zero F] [DecidableEq F] in
/-- The stored cursor fits the cache that the stored leaves give. -/
theorem loadedCursor {n : ℕ} (hs : CursorInv cfg s) (hn : ∀ i, HasRow s.db.leaves i → i < n) :
    CoversBlocks cfg (SyncedTree.loadedCursor cfg s.db n).1 (SyncedTree.loadedCursor cfg s.db n).2 ∧
      ∀ w ∈ (SyncedTree.loadedCursor cfg s.db n).2, ∀ log ∈ w.logs, log.leafIndex < n := by
  have hnone : CoversBlocks cfg cfg.beforeDeploy ([] : List (Scan F)) ∧
      ∀ w ∈ ([] : List (Scan F)), ∀ log ∈ w.logs, log.leafIndex < n :=
    ⟨covers_beforeDeploy _, fun w hw => by cases hw⟩
  unfold SyncedTree.loadedCursor
  split
  case h_2 => exact hnone
  case h_1 v hv =>
    split
    · obtain ⟨hcovers, hrows⟩ := hs.stored v hv
      exact ⟨hcovers, fun w hw log hl => hn _ (hrows w hw log hl)⟩
    · exact hnone

theorem restart (hs : CursorInv cfg s) (opened : Bool) {statements : ℕ} (hst : statements ≠ 1) :
    CursorInv cfg ((s.construct cfg opened).start poseidon2 cfg statements) := by
  have hnew : CursorInv cfg (s.construct cfg opened) :=
    ⟨covers_beforeDeploy _, fun w hw => (by cases hw), fun _ _ i hi => (by cases hi), hs.stored,
      fun h => (by cases h), trivial⟩
  unfold SyncedTree.start
  split
  case isFalse => exact hnew.startSync rfl
  case isTrue =>
    have hreset : CursorInv cfg ((s.construct cfg opened).resetInMemory cfg statements) :=
      hnew.resetInMemory rfl fun _ => hst
    split
    · split
      · exact hreset.startSync (SyncInv.resetInMemory_consistent _)
      · exact hreset
    · rename_i tree hload
      have hlt : ∀ i, i < tree.nextIndex ↔ HasRow s.db.leaves i := fun i => by
        rw [lt_nextIndex_of_loadRows hload]
        exact or_iff_right (Nat.not_lt_zero i)
      obtain ⟨hcovers, hcached⟩ := hs.loadedCursor fun i h => (hlt i).mpr h
      exact startSync ⟨hcovers, hcached, fun _ _ i hi => (hlt i).mp hi, hs.stored, fun _ => rfl,
        trivial⟩ rfl

end CursorInv

/-- No statement is lost without the process: a leaf that enters the cache enters the table, and a
reset deletes both tables or none. -/
def Durable (s : SyncedTree F) : SyncAction F → Prop
  | .work statements =>
    match s.syncInFlight with
    | some (.events _ _ (log :: _)) =>
      (s.dbOpen = true → log.leafIndex = s.tree.nextIndex → statements ≠ 0) ∧
        (s.dbOpen = true → s.tree.nextIndex < log.leafIndex → statements ≠ 1)
    | _ => True
  | .restart _ statements => statements ≠ 1
  | _ => True

instance (s : SyncedTree F) (a : SyncAction F) : Decidable (Durable s a) := by
  unfold Durable
  split <;> (try split) <;> infer_instance

theorem cursorInv_step {cfg : SyncConfig} {s s' : SyncedTree F} {a : SyncAction F}
    (hs : CursorInv cfg s) (ha : Durable s a)
    (h : (treeSync poseidon2 cfg).step s a = some s') : CursorInv cfg s' := by
  have hrunning := hs.running
  have hstage := hs.stage
  cases a with
  | runSync =>
    simp only [treeSync, syncStep] at h
    split at h <;> cases h
    · exact hs
    · split
      · exact hs.setStage ‹_› trivial
      · exact hs
  | blockNumber head =>
    simp only [treeSync, syncStep] at h
    split at h <;> cases h
    rename_i hst
    split
    · exact hs.finish
    · exact hs.setStage (hrunning (by rw [hst]; rfl)) rfl
  | logs logs =>
    simp only [treeSync, syncStep] at h
    split at h <;> cases h
    rename_i hst
    rw [hst] at hstage
    refine hs.setStage (hrunning (by rw [hst]; rfl)) ⟨hstage, fun log hl => .inr ?_⟩
    exact (List.perm_insertionSort _ _).mem_iff.mpr hl
  | failed =>
    simp only [treeSync, syncStep] at h
    split at h <;> cases h <;> exact hs.throw
  | work statements =>
    simp only [treeSync, syncStep] at h
    split at h <;> cases h
    · rename_i hst
      simp only [Durable, hst] at ha
      exact hs.takeEvent hst ha.1 ha.2
    · exact hs.moveCursor ‹_› statements
  | restart opened statements =>
    cases h
    exact hs.restart opened ha

end

/-! ## Safety of the cache -/

variable {F : Type*} [CommRing F] [DecidableEq F] {poseidon2 : F → F → F}

variable (poseidon2) in
/-- What a served proof says about the chain. -/
def ServesChain (chain : List (LeafInserted F)) (s : SyncedTree F) : Prop :=
  ∀ commitment p, s.proofFor poseidon2 commitment = some p →
    p.Satisfies poseidon2 commitment p.root ∧
      s.tree.leaves poseidon2 = (chain.map (·.leaf)).take s.tree.nextIndex ∧
      (chain[s.tree.nextIndex - 1]?).map (·.newRoot) = some p.root

variable (poseidon2) in
/-- The cursor is behind every block whose read returned a leaf that is not in the cache: each
block it has passed lies in a read after which it moved, and the logs of these reads are in the
cache. -/
structure CursorSafe (cfg : SyncConfig) (chain : List (LeafInserted F)) (s : SyncedTree F) : Prop
    where
  covers : CoversBlocks cfg s.lastBlock s.scanned
  cached : ∀ w ∈ s.scanned, ∀ log ∈ w.logs, log.leafIndex < s.tree.nextIndex ∧
    (s.consistent = true → chain[log.leafIndex]? = some log →
      (s.tree.leaves poseidon2)[log.leafIndex]? = some log.leaf)

theorem SyncInv.serves {chain : List (LeafInserted F)} {s : SyncedTree F}
    (hrooted : Rooted poseidon2 chain) (hs : SyncInv poseidon2 chain s) :
    ServesChain poseidon2 chain s := by
  intro commitment p hp
  unfold SyncedTree.proofFor at hp
  split at hp
  case isFalse => cases hp
  case isTrue hready =>
    obtain ⟨i, hi, rfl⟩ := Option.map_eq_some_iff.mp hp
    simp only [SyncedTree.isReady, Bool.and_eq_true] at hready
    have hf := hs.tree hready.2
    obtain ⟨hlt, hget⟩ := hf.indexed _ _ hi
    have hlen : ((chain.map (·.leaf)).take s.tree.nextIndex).length = s.tree.nextIndex :=
      hf.mirrors.nextIndex.symm
    have hroom := hf.room
    have hproof := hf.mirrors.proofLoop treeDepth 0 i (by omega) (by omega)
    refine ⟨?_, hf.leaves, ?_⟩
    · have hsat := satisfies_of_authPath poseidon2 (p := s.tree.proofForIndex poseidon2 i)
        (hlen.symm ▸ hlt) (hlen.trans_le (hroom.trans (by decide)))
        (by simp [CachedMerkleTree.proofForIndex, hproof, Function.comp_def])
        (by simp [CachedMerkleTree.proofForIndex, hproof, Function.comp_def])
      obtain ⟨_, hget⟩ := List.getElem?_eq_some_iff.mp hget
      rw [List.getElem_take, hget, ← hf.root] at hsat
      exact hsat
    · have hle : s.tree.nextIndex ≤ chain.length := by simpa using hf.nextIndex_le
      have hlog : chain[s.tree.nextIndex - 1]?
          = some (chain.get ⟨s.tree.nextIndex - 1, by omega⟩) :=
        List.getElem?_eq_getElem _
      rw [hlog, Option.map_some, hrooted _ _ hlog, Nat.sub_add_cancel (by omega), ← hf.root]
      rfl

theorem CursorInv.safe {chain : List (LeafInserted F)} {cfg : SyncConfig} {s : SyncedTree F}
    (hcursor : CursorInv cfg s) (hs : SyncInv poseidon2 chain s) :
    CursorSafe poseidon2 cfg chain s := by
  refine ⟨hcursor.covers, fun w hw log hl => ?_⟩
  have hlt := hcursor.cached w hw log hl
  refine ⟨hlt, fun hc hlog => ?_⟩
  rw [(hs.tree hc).leaves, List.getElem?_take_of_lt hlt, List.getElem?_map, hlog]
  rfl

variable (poseidon2) in
theorem syncInv_fresh (cfg : SyncConfig) (chain : List (LeafInserted F)) :
    SyncInv poseidon2 chain (SyncedTree.fresh cfg) :=
  ⟨fun _ => CachedMerkleTree.follows_empty _, fun _ h => (by cases h), fun h => (by cases h),
    fun _ h => by cases h⟩

omit [CommRing F] [DecidableEq F] in
theorem cursorInv_fresh (cfg : SyncConfig) : CursorInv cfg (SyncedTree.fresh cfg : SyncedTree F) :=
  ⟨CursorInv.covers_beforeDeploy _, fun _ h => (by cases h), fun _ _ i hi => (by cases hi),
    fun _ h => (by cases h), fun h => (by cases h), trivial⟩

/-- Over any life of the database whose reads return no forged log, a served proof is a proof for
the chain's first leaves and their root; and when no statement is lost without the process, the
cursor is behind every leaf its reads returned that the cache lacks. -/
theorem merkle_cache_safe (cfg : SyncConfig) {window : ℕ} {xs : List F} {r : F}
    {t : CommitmentMerkleTree F}
    (ht : CommitmentMerkleTree.insertAll poseidon2 window
      (CommitmentMerkleTree.initializeTree poseidon2) xs = .ok (r, t))
    (hdistinct : 2 ^ 31 < t.logs.length → (t.logs.map (·.newRoot)).Nodup) :
    (∀ s, (treeSync poseidon2 cfg).Run (Authentic poseidon2 t.logs) (.fresh cfg) s →
        ServesChain poseidon2 t.logs s) ∧
      ∀ s, (treeSync poseidon2 cfg).Run
          (fun s a => Authentic poseidon2 t.logs s a ∧ Durable s a) (.fresh cfg) s →
        CursorSafe poseidon2 cfg t.logs s := by
  have hrooted := CommitmentMerkleTree.rooted_insertAll ht
  have hsync : ∀ s, (treeSync poseidon2 cfg).Run (Authentic poseidon2 t.logs) (.fresh cfg) s →
      SyncInv poseidon2 t.logs s := fun s h =>
    h.invariant (syncInv_fresh poseidon2 cfg _) fun _ _ _ hs ha hx =>
      syncInv_step ⟨hrooted, hdistinct⟩ hs ha hx
  refine ⟨fun s h => (hsync s h).serves hrooted, fun s h => ?_⟩
  have hcursor : CursorInv cfg s :=
    h.invariant (cursorInv_fresh cfg) fun _ _ _ hs ha hx => cursorInv_step hs ha.2 hx
  exact hcursor.safe (hsync s (h.mono fun _ _ h => h.1))

def mockHash (a b : ℤ) : ℤ := 2 * a + 3 * b + 1

def mockLogs : List (LeafInserted ℤ) :=
  [⟨0, 5, 5820766091368215559136⟩, ⟨1, 7, 5820766091413312715744⟩]

theorem insertAll_mockLogs : ∃ t, CommitmentMerkleTree.insertAll mockHash rootWindow
    (CommitmentMerkleTree.initializeTree mockHash) [5, 7] = .ok (5820766091413312715744, t) ∧
      t.logs = mockLogs := by
  obtain ⟨t, ht, -⟩ := CommitmentMerkleTree.insertAll_frontier rootWindow
    (CommitmentMerkleTree.frontier_initializeTree mockHash) [5, 7] (by decide)
  have hlogs : (CommitmentMerkleTree.insertAll mockHash rootWindow
      (CommitmentMerkleTree.initializeTree mockHash) [5, 7]).toOption.map
        (fun p => (p.1, p.2.logs)) = some (5820766091413312715744, mockLogs) := by decide +kernel
  rw [ht] at hlogs
  simp only [Except.toOption, Option.map_some, Option.some.injEq, Prod.mk.injEq] at hlogs
  exact ⟨t, hlogs.1 ▸ ht, hlogs.2⟩

def mockSyncConfig : SyncConfig := ⟨1, 3, 5000⟩

def mockSync (logs : List (LeafInserted ℤ)) : List (SyncAction ℤ) :=
  [.restart true 0, .blockNumber 20, .logs logs] ++ logs.map (fun _ => .work 1) ++ [.work 1]

/-- A leaf altered under the chain's root stops the cache; the next process reads the chain. -/
def mockRepair : List (SyncAction ℤ) :=
  [.restart true 0, .blockNumber 20, .logs [⟨0, 9, 5820766091368215559136⟩], .work 1]
    ++ mockSync mockLogs

theorem merkle_cache_safe_two_leaves :
    ((treeSync mockHash mockSyncConfig).checkFrom
        (fun s a => Authentic mockHash mockLogs s a ∧ Durable s a) (.fresh mockSyncConfig)
        mockRepair).map
        (fun s => (s.lastBlock, s.tree.nextIndex, (s.proofFor mockHash 5).isSome))
      = some (17, 2, true) ∧
    ∃ s, (treeSync mockHash mockSyncConfig).checkFrom
        (fun s a => Authentic mockHash mockLogs s a ∧ Durable s a) (.fresh mockSyncConfig)
        mockRepair = some s ∧
      ServesChain mockHash mockLogs s ∧ CursorSafe mockHash mockSyncConfig mockLogs s := by
  obtain ⟨t, ht, hlogs⟩ := insertAll_mockLogs
  have hsafe := merkle_cache_safe mockSyncConfig ht
    fun h => absurd h (by rw [hlogs]; decide)
  rw [hlogs] at hsafe
  apply Machine.checkFrom_seen
  · decide +kernel
  · intro s hrun
    exact ⟨hsafe.1 s (hrun.mono fun _ _ h => h.1), hsafe.2 s hrun⟩

/-- A leaf and a root forged together are served; a leaf that a read returns before the process
dies, and the next read omits, is passed. -/
theorem merkle_cache_unsafe :
    (∃ t, CommitmentMerkleTree.insertAll mockHash rootWindow
        (CommitmentMerkleTree.initializeTree mockHash) [5, 7] = .ok (5820766091413312715744, t) ∧
        t.logs = mockLogs) ∧
      ((treeSync mockHash mockSyncConfig).runFrom (.fresh mockSyncConfig)
          (mockSync [⟨0, 9, 5820766091385395428320⟩])).map
          (fun s => ((s.proofFor mockHash 9).isSome, s.tree.leaves mockHash)) = some (true, [9]) ∧
      ((treeSync mockHash mockSyncConfig).runFrom (.fresh mockSyncConfig)
          ([.restart true 0, .blockNumber 20, .logs mockLogs] ++ mockSync [])).map
          (fun s => (s.lastBlock, s.tree.nextIndex)) = some (17, 0) :=
  ⟨insertAll_mockLogs, by decide +kernel, by decide +kernel⟩

end Polyshield

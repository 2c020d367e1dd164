import Polyshield.Lib.Merkle

/-!
# The commitment tree contract

`CommitmentMerkleTree.sol`: an append-only tree of depth 32 that keeps one
filled subtree per level, and a rolling window of its last roots. The hash and
the window size are parameters; `insertLoop` is the loop of `insert`.
-/

namespace Polyshield

def treeDepth : ℕ := 32

/-- `ROOT_WINDOW`, the production value of `_rootWindow()`. -/
def rootWindow : ℕ := 1024

structure LeafInserted (F : Type*) where
  leafIndex : ℕ
  leaf : F
  newRoot : F
  deriving DecidableEq, Repr

/-- The storage of the contract and the events it has emitted. -/
structure CommitmentMerkleTree (F : Type*) where
  zeros : ℕ → F
  filledSubtrees : ℕ → F
  currentRoot : F
  knownRoots : F → Bool
  rootRing : ℕ → F
  nextIndex : ℕ
  rootCount : ℕ
  logs : List (LeafInserted F)

namespace CommitmentMerkleTree

inductive TreeError where
  | treeFull
  deriving DecidableEq, Repr

variable {F : Type*} [DecidableEq F] [Zero F] (hash : F → F → F)

/-- The loop of `initialize`, `k` levels from level `i` on. -/
def zerosLoop : ℕ → ℕ → F → (ℕ → F) → F × (ℕ → F)
  | 0, _, current, zeros => (current, zeros)
  | k + 1, i, current, zeros =>
    zerosLoop k (i + 1) (hash current current) (Function.update zeros i current)

/-- `initialize`: precompute the zero subtrees and seed the root window. -/
def initializeTree : CommitmentMerkleTree F :=
  let (current, zeros) := zerosLoop hash treeDepth 0 0 (fun _ => 0)
  { zeros := zeros
    filledSubtrees := zeros
    currentRoot := current
    knownRoots := Function.update (fun _ => false) current true
    rootRing := Function.update (fun _ => 0) 0 current
    nextIndex := 0
    rootCount := 1
    logs := [] }

/-- The loop of `insert`, `k` levels from level `i` on. -/
def insertLoop (zeros : ℕ → F) : ℕ → ℕ → ℕ → F → (ℕ → F) → F × (ℕ → F)
  | 0, _, _, current, filled => (current, filled)
  | k + 1, i, idx, current, filled =>
    if idx % 2 = 0 then
      insertLoop zeros k (i + 1) (idx / 2) (hash current (zeros i))
        (Function.update filled i current)
    else
      insertLoop zeros k (i + 1) (idx / 2) (hash (filled i) current) filled

/-- The root-window part of `insert`, for a window of size `window`. -/
def rollWindow (window : ℕ) (t : CommitmentMerkleTree F) (newRoot : F) :
    CommitmentMerkleTree F :=
  let seq := t.rootCount
  let slot := seq % window
  let evicted := t.rootRing slot
  let knownRoots :=
    -- the guard keeps the root that is about to be marked known
    if window ≤ seq ∧ evicted ≠ newRoot then Function.update t.knownRoots evicted false
    else t.knownRoots
  { t with
    rootRing := Function.update t.rootRing slot newRoot
    knownRoots := Function.update knownRoots newRoot true
    currentRoot := newRoot
    rootCount := (seq + 1) % 2 ^ 64 }

/-- `insert`, called by the Vault; it returns the new root. -/
def insert (window : ℕ) (t : CommitmentMerkleTree F) (commitment : F) :
    Except TreeError (F × CommitmentMerkleTree F) :=
  if 2 ^ treeDepth ≤ t.nextIndex then .error .treeFull
  else
    let (newRoot, filled) :=
      insertLoop hash t.zeros treeDepth 0 t.nextIndex commitment t.filledSubtrees
    let t' := rollWindow window
      { t with nextIndex := t.nextIndex + 1, filledSubtrees := filled } newRoot
    .ok (newRoot, { t' with logs := t.logs ++ [⟨t.nextIndex % 2 ^ 32, commitment, newRoot⟩] })

def isKnownRoot (t : CommitmentMerkleTree F) (root : F) : Bool :=
  if root = 0 then false else t.knownRoots root

/-- Insert a list of commitments in order; the root is the one of the last insert. -/
def insertAll (window : ℕ) (t : CommitmentMerkleTree F) (cs : List F) :
    Except TreeError (F × CommitmentMerkleTree F) :=
  cs.foldlM (fun p c => insert hash window p.2 c) (t.currentRoot, t)

def leaves (t : CommitmentMerkleTree F) : List F := t.logs.map (·.leaf)

/-! ## The zero subtrees -/

theorem zerosLoop_eq (k i : ℕ) (zeros : ℕ → F) :
    zerosLoop hash k i (Merkle.zeroNode hash 0 i) zeros
      = (Merkle.zeroNode hash 0 (i + k),
          fun j => if i ≤ j ∧ j < i + k then Merkle.zeroNode hash 0 j else zeros j) := by
  induction k generalizing i zeros with
  | zero =>
    refine Prod.ext rfl (funext fun j => ?_)
    simp only [zerosLoop]
    rw [if_neg (by omega)]
  | succ k ih =>
    have hz : hash (Merkle.zeroNode hash 0 i) (Merkle.zeroNode hash 0 i)
        = Merkle.zeroNode hash 0 (i + 1) := rfl
    rw [zerosLoop, hz, ih]
    refine Prod.ext (by simp only; congr 1; omega) (funext fun j => ?_)
    simp only [Function.update_apply]
    split_ifs <;> first | rfl | omega | (subst_vars; rfl)

theorem initializeTree_zeros {i : ℕ} (hi : i < treeDepth) :
    (initializeTree (F := F) hash).zeros i = Merkle.zeroNode hash 0 i := by
  have h := zerosLoop_eq hash treeDepth 0 (fun _ => (0 : F))
  simp only [initializeTree, Merkle.zeroNode] at h ⊢
  rw [h]; simp [hi]

theorem initializeTree_currentRoot :
    (initializeTree (F := F) hash).currentRoot = Merkle.zeroNode hash 0 treeDepth := by
  have h := zerosLoop_eq hash treeDepth 0 (fun _ => (0 : F))
  simp only [initializeTree, Merkle.zeroNode] at h ⊢
  rw [h]; simp

end CommitmentMerkleTree

end Polyshield

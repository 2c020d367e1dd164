import Mathlib.Data.List.Sort
import Polyshield.Lib.Runs
import Polyshield.Tree.Cache

/-!
# The cache follows the chain

`merkleTree.ts`: `CachedMerkleTree` reads the `LeafInserted` logs in windows,
appends them, checks each root, and keeps its leaves and its cursor in SQLite. A
request may be served between any two steps, a read may throw or return
anything, the process may die before any statement on the database, and a
statement may throw. `scanned` is a ghost: the reads after which the cursor moved
since it last stood before the deploy block.
-/

namespace Polyshield

/-- `deployBlock`, `CONFIRMATIONS` and `SCAN_WINDOW`. -/
structure SyncConfig where
  deployBlock : ℕ
  confirmations : ℕ
  scanWindow : ℕ

/-- Where the cursor of an empty cache stands. -/
def SyncConfig.beforeDeploy (cfg : SyncConfig) : ℕ := max 0 (cfg.deployBlock - 1)

/-- What a read of the blocks `cursor` to `windowEnd` returned. -/
structure Scan (F : Type*) where
  cursor : ℕ
  windowEnd : ℕ
  logs : List (LeafInserted F)

/-- Tables `merkle_leaves` and `merkle_meta`, and the reads behind the stored cursor. -/
structure MerkleDb (F : Type*) where
  leaves : List (ℕ × F)
  lastBlock : Option ℕ
  scanned : List (Scan F)

inductive SyncStage (F : Type*) where
  /-- It waits for `getCachedBlockNumber`. -/
  | blockNumber
  /-- It waits for the logs of the window that starts at `cursor`. -/
  | window (target cursor : ℕ)
  /-- It has the logs of a window; `events` are the ones still to be looked at. -/
  | events (target : ℕ) (scan : Scan F) (events : List (LeafInserted F))

/-- The fields of `CachedMerkleTree` that `sync` moves, and the database. -/
structure SyncedTree (F : Type*) where
  tree : CachedMerkleTree F
  lastBlock : ℕ
  ready : Bool
  consistent : Bool
  syncInFlight : Option (SyncStage F)
  /-- `start` waits for the run in flight. -/
  starting : Bool
  /-- This process has the database open. -/
  dbOpen : Bool
  db : MerkleDb F
  scanned : List (Scan F)

namespace MerkleDb

variable {F : Type*}

def empty : MerkleDb F := ⟨[], none, []⟩

/-- `INSERT OR REPLACE INTO merkle_leaves`, the rows kept in the order they are read back. -/
def upsert (idx : ℕ) (leaf : F) : List (ℕ × F) → List (ℕ × F)
  | [] => [(idx, leaf)]
  | row :: rows =>
    if idx < row.1 then (idx, leaf) :: row :: rows
    else if idx = row.1 then (idx, leaf) :: rows
    else row :: upsert idx leaf rows

def persistLeaf (db : MerkleDb F) (idx : ℕ) (leaf : F) : MerkleDb F :=
  { db with leaves := upsert idx leaf db.leaves }

def persistLastBlock (db : MerkleDb F) (lastBlock : ℕ) (scanned : List (Scan F)) : MerkleDb F :=
  { db with lastBlock := some lastBlock, scanned := scanned }

/-- The two `DELETE`s of `resetInMemory`, the first `statements` of them. -/
def delete (db : MerkleDb F) (statements : ℕ) : MerkleDb F :=
  match statements with
  | 0 => db
  | 1 => { db with leaves := [] }
  | _ => empty

end MerkleDb

namespace SyncedTree

variable {F : Type*} (poseidon2 : F → F → F) (cfg : SyncConfig)

def setTree (s : SyncedTree F) (tree : CachedMerkleTree F) : SyncedTree F := { s with tree := tree }

def setDb (s : SyncedTree F) (db : MerkleDb F) : SyncedTree F := { s with db := db }

def setStage (s : SyncedTree F) (stage : SyncStage F) : SyncedTree F :=
  { s with syncInFlight := some stage }

/-- The cursor, with the reads behind it. -/
def setCursor (s : SyncedTree F) (lastBlock : ℕ) (scanned : List (Scan F)) : SyncedTree F :=
  { s with lastBlock := lastBlock, scanned := scanned }

/-- `runSync` of `start`. -/
def startSync (s : SyncedTree F) : SyncedTree F :=
  { s with syncInFlight := some .blockNumber, starting := true }

/-- `this.db?`: a write when the database is open. -/
def persist (s : SyncedTree F) (db : MerkleDb F) : SyncedTree F :=
  if s.dbOpen then s.setDb db else s

def diverge (s : SyncedTree F) : SyncedTree F := { s with consistent := false }

def finish (s : SyncedTree F) : SyncedTree F :=
  { s with syncInFlight := none, ready := s.ready || s.starting, starting := false }

def throw (s : SyncedTree F) : SyncedTree F := { s with syncInFlight := none, starting := false }

/-- A step that makes `needed` statements: `statements` of them take effect, then one throws. -/
def completes (s : SyncedTree F) (needed statements : ℕ) : Bool :=
  !s.dbOpen || decide (needed ≤ statements)

def isReady (s : SyncedTree F) : Bool := s.ready && s.consistent

variable [Zero F]

def fresh : SyncedTree F where
  tree := .empty
  lastBlock := cfg.beforeDeploy
  ready := false
  consistent := true
  syncInFlight := none
  starting := false
  dbOpen := false
  db := .empty
  scanned := []

def resetInMemory (s : SyncedTree F) (statements : ℕ) : SyncedTree F :=
  ((s.setTree .empty).setCursor cfg.beforeDeploy []).persist (s.db.delete statements)

variable [DecidableEq F]

def proofFor (s : SyncedTree F) (commitment : F) : Option (MerkleProof F) :=
  if s.isReady then (s.tree.indexByLeaf commitment).map (s.tree.proofForIndex poseidon2) else none

/-- The loop of `loadFromDb`; `none` at a gap. -/
def loadRows : List (ℕ × F) → CachedMerkleTree F → Option (CachedMerkleTree F)
  | [], tree => some tree
  | (idx, leaf) :: rows, tree =>
    if idx ≠ tree.nextIndex then none else loadRows rows (tree.append poseidon2 leaf)

/-- `this.lastBlock` after `loadFromDb`, with the reads behind it. -/
def loadedCursor (db : MerkleDb F) (nextIndex : ℕ) : ℕ × List (Scan F) :=
  match db.lastBlock with
  | some v => if 0 < nextIndex then (v, db.scanned) else (cfg.beforeDeploy, [])
  | none => (cfg.beforeDeploy, [])

/-- A new process over the same database: the constructor. -/
def construct (s : SyncedTree F) (opened : Bool) : SyncedTree F :=
  { (fresh cfg : SyncedTree F) with dbOpen := opened, db := s.db }

/-- `start` up to its first wait: `loadFromDb`, then `runSync`. -/
def start (s : SyncedTree F) (statements : ℕ) : SyncedTree F :=
  if s.dbOpen then
    match loadRows poseidon2 s.db.leaves s.tree with
    | none =>
      if s.completes 2 statements then (s.resetInMemory cfg statements).startSync
      else s.resetInMemory cfg statements
    | some tree =>
      let cursor := loadedCursor cfg s.db tree.nextIndex
      ((s.setTree tree).setCursor cursor.1 cursor.2).startSync
  else s.startSync

omit [Zero F] [DecidableEq F] in
/-- `persistLeaf` after the root of the new leaf has been checked. -/
def saveLeaf (s : SyncedTree F) (ev : LeafInserted F) (statements : ℕ) (next : SyncStage F) :
    SyncedTree F :=
  if s.completes 1 statements then
    (s.persist (s.db.persistLeaf ev.leafIndex ev.leaf)).setStage next
  else s.throw

/-- One event of a window. -/
def takeEvent (s : SyncedTree F) (ev : LeafInserted F) (statements : ℕ) (next : SyncStage F) :
    SyncedTree F :=
  if ev.leafIndex < s.tree.nextIndex then s.setStage next
  else if ev.leafIndex ≠ s.tree.nextIndex then
    if s.completes 2 statements then (s.resetInMemory cfg statements).finish
    else (s.resetInMemory cfg statements).throw
  else if (s.tree.append poseidon2 ev.leaf).root poseidon2 ≠ ev.newRoot then
    (s.setTree (s.tree.append poseidon2 ev.leaf)).diverge.finish
  else (s.setTree (s.tree.append poseidon2 ev.leaf)).saveLeaf ev statements next

omit [Zero F] [DecidableEq F] in
/-- The end of a window: the cursor moves and is stored, and the loop looks at the next window. -/
def moveCursor (s : SyncedTree F) (target : ℕ) (scan : Scan F) (statements : ℕ) : SyncedTree F :=
  let scanned := s.scanned ++ [scan]
  let moved := s.setCursor scan.windowEnd scanned
  if s.completes 1 statements then
    let stored := moved.persist (s.db.persistLastBlock scan.windowEnd scanned)
    if scan.windowEnd + 1 ≤ target ∧ s.consistent = true then
      stored.setStage (.window target (scan.windowEnd + 1))
    else stored.finish
  else moved.throw

end SyncedTree

inductive SyncAction (F : Type*) where
  /-- `runSync`, by the poll or by `syncNow`. -/
  | runSync
  /-- `getCachedBlockNumber` answers. -/
  | blockNumber (head : ℕ)
  /-- The logs of a window arrive. -/
  | logs (logs : List (LeafInserted F))
  /-- A read throws. -/
  | failed
  /-- The run works on the next event, or ends the window. -/
  | work (statements : ℕ)
  /-- The process dies, and another one starts over the same database. -/
  | restart (opened : Bool) (statements : ℕ)
  deriving DecidableEq

variable {F : Type*} [Zero F] [DecidableEq F] (poseidon2 : F → F → F) (cfg : SyncConfig)

/-- The read of the window that starts at `cursor`. -/
def SyncConfig.scan (cfg : SyncConfig) (target cursor : ℕ) (logs : List (LeafInserted F)) :
    Scan F :=
  ⟨cursor, min (cursor + cfg.scanWindow - 1) target, logs⟩

def syncStep (s : SyncedTree F) : SyncAction F → Option (SyncedTree F)
  | .runSync =>
    match s.syncInFlight with
    | some _ => some s
    | none => some (if s.consistent then s.setStage .blockNumber else s)
  | .blockNumber head =>
    match s.syncInFlight with
    | some .blockNumber =>
      some (if head - cfg.confirmations ≤ s.lastBlock then s.finish
        else s.setStage (.window (head - cfg.confirmations) (s.lastBlock + 1)))
    | _ => none
  | .logs logs =>
    match s.syncInFlight with
    | some (.window target cursor) =>
      some (s.setStage (.events target (cfg.scan target cursor logs)
        (logs.insertionSort fun a b => a.leafIndex ≤ b.leafIndex)))
    | _ => none
  | .failed =>
    match s.syncInFlight with
    | some .blockNumber | some (.window _ _) => some s.throw
    | _ => none
  | .work statements =>
    match s.syncInFlight with
    | some (.events target scan (ev :: events)) =>
      some (s.takeEvent poseidon2 cfg ev statements (.events target scan events))
    | some (.events target scan []) => some (s.moveCursor target scan statements)
    | _ => none
  | .restart opened statements => some ((s.construct cfg opened).start poseidon2 cfg statements)

/-- `CachedMerkleTree` over the life of a database. -/
def treeSync : Machine (SyncedTree F) (SyncAction F) := ⟨syncStep poseidon2 cfg⟩

end Polyshield

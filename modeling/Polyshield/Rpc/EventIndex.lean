import Polyshield.Rpc.LogScan
import Polyshield.Tree.Sync

/-!
# The relay's index of Vault events

`eventIndex.ts`: `VaultEventIndex` reads the logs of the Vault in windows,
inserts those of the events in its ABI, and keeps its cursor in memory and in
SQLite. A head is one that the chain had (`getCachedBlockNumber` may return an
old one), a read may throw, and the process may die between any two steps.
`block_ts` and the arguments of the events other than `BetAuthorized`, which the
readers of the index here do not use, are left out.
-/

namespace Polyshield.Rpc

open PagedScan

/-! ## The chain -/

/-- The events in `VAULT_EVENTS_ABI` besides `BetAuthorized`. -/
inductive OtherEvent where
  | deposited
  | settlementCredited
  | betCancellationCredited
  | naCancellationCredited
  | partialFillCredited
  | withdrawn
  | betSold
  | positionClosed
  | consolidated
  | marketResolved
  deriving DecidableEq

inductive EventType where
  | betAuthorized
  | other (event : OtherEvent)
  deriving DecidableEq

inductive VaultEvent (Record : Type) where
  | betAuthorized (record : Record)
  | other (event : OtherEvent)
  /-- An event with a topic that `NAME_BY_TOPIC` does not have, or one of the tree. -/
  | unnamed
  deriving DecidableEq

def VaultEvent.type? {Record : Type} : VaultEvent Record → Option EventType
  | .betAuthorized _ => some .betAuthorized
  | .other event => some (.other event)
  | .unnamed => none

def VaultEvent.record? {Record : Type} : VaultEvent Record → Option Record
  | .betAuthorized record => some record
  | _ => none

structure VaultLog (Record : Type) where
  event : VaultEvent Record
  blockNumber : ℕ
  logIndex : ℕ
  deriving DecidableEq

namespace VaultLog

variable {Record : Type}

/-- `NAME_BY_TOPIC.has`. -/
def named (l : VaultLog Record) : Bool := l.event.type?.isSome

def record? (l : VaultLog Record) : Option Record := l.event.record?

/-- The order of the chain. -/
def Before (a b : VaultLog Record) : Prop :=
  a.blockNumber < b.blockNumber ∨ a.blockNumber = b.blockNumber ∧ a.logIndex < b.logIndex

instance (a b : VaultLog Record) : Decidable (a.Before b) :=
  inferInstanceAs (Decidable (_ ∨ _))

theorem type?_of_record? {l : VaultLog Record} {r : Record} (h : l.record? = some r) :
    l.event.type? = some .betAuthorized := by
  unfold record? VaultEvent.record? at h
  split at h
  next heq => rw [heq]; rfl
  next => cases h

theorem named_of_record? {l : VaultLog Record} {r : Record} (h : l.record? = some r) :
    l.named = true := by
  rw [named, type?_of_record? h]
  rfl

end VaultLog

/-- The chain: how high it is, and the logs of its blocks in order. There are none before block
`first`, in which the Vault is deployed, and none in the genesis block. -/
structure Chain (Record : Type) (first : ℕ) where
  height : ℕ
  logs : List (VaultLog Record)
  sorted : logs.Pairwise VaultLog.Before
  le_height : ∀ l ∈ logs, l.blockNumber ≤ height
  first_le : ∀ l ∈ logs, first ≤ l.blockNumber
  pos : ∀ l ∈ logs, 0 < l.blockNumber

namespace Chain

variable {Record : Type} {first : ℕ}

def genesis : Chain Record first := ⟨0, [], .nil, nofun, nofun, nofun⟩

def blockLogs (block : ℕ) (events : List (ℕ × VaultEvent Record)) : List (VaultLog Record) :=
  events.map fun e => ⟨e.2, block, e.1⟩

/-- After `empty` blocks without a log comes one with these, each at its index. -/
def mine (c : Chain Record first) (empty : ℕ) (events : List (ℕ × VaultEvent Record))
    (hsorted : (events.map Prod.fst).Pairwise (· < ·))
    (hfirst : events ≠ [] → first ≤ c.height + empty + 1) : Chain Record first where
  height := c.height + empty + 1
  logs := c.logs ++ blockLogs (c.height + empty + 1) events
  sorted := by
    refine List.pairwise_append.mpr ⟨c.sorted, ?_, fun a ha b hb => ?_⟩
    · rw [List.pairwise_map] at hsorted
      exact List.pairwise_map.mpr (hsorted.imp fun h => .inr ⟨rfl, h⟩)
    · obtain ⟨e, -, rfl⟩ := List.mem_map.mp hb
      have hle := c.le_height a ha
      exact .inl (by show a.blockNumber < c.height + empty + 1; omega)
  le_height := by
    intro l hl
    rcases List.mem_append.mp hl with hl | hl
    · have hle := c.le_height l hl
      omega
    · obtain ⟨e, -, rfl⟩ := List.mem_map.mp hl
      exact le_rfl
  first_le := by
    intro l hl
    rcases List.mem_append.mp hl with hl | hl
    · exact c.first_le l hl
    · obtain ⟨e, he, rfl⟩ := List.mem_map.mp hl
      exact hfirst (List.ne_nil_of_mem he)
  pos := by
    intro l hl
    rcases List.mem_append.mp hl with hl | hl
    · exact c.pos l hl
    · obtain ⟨e, -, rfl⟩ := List.mem_map.mp hl
      exact Nat.succ_pos _

theorem mem_mine {c : Chain Record first} {empty : ℕ} {events : List (ℕ × VaultEvent Record)}
    (hsorted hfirst) {l : VaultLog Record} (h : l ∈ (c.mine empty events hsorted hfirst).logs) :
    l ∈ c.logs ∨ c.height < l.blockNumber ∧ ∃ e ∈ events, l.event = e.2 := by
  rcases List.mem_append.mp h with h | h
  · exact .inl h
  · obtain ⟨e, he, rfl⟩ := List.mem_map.mp h
    exact .inr ⟨by show c.height < c.height + empty + 1; omega, e, he, rfl⟩

theorem mem_mine_of_mem {c : Chain Record first} {empty : ℕ}
    {events : List (ℕ × VaultEvent Record)} {hsorted hfirst} {l : VaultLog Record}
    (h : l ∈ c.logs) : l ∈ (c.mine empty events hsorted hfirst).logs :=
  List.mem_append_left _ h

variable (c : Chain Record first)

theorem nodup : c.logs.Nodup :=
  c.sorted.imp fun {a b} h hab => by
    subst hab
    rcases h with h | ⟨-, h⟩ <;> exact lt_irrefl _ h

variable {c}

theorem eq_of_place {a b : VaultLog Record} (ha : a ∈ c.logs) (hb : b ∈ c.logs)
    (hblock : a.blockNumber = b.blockNumber) (hindex : a.logIndex = b.logIndex) : a = b := by
  have hflip : c.logs.Pairwise fun a b =>
      b.blockNumber = a.blockNumber → b.logIndex = a.logIndex → b = a :=
    c.sorted.imp fun h hblock hindex => by rcases h with h | ⟨-, h⟩ <;> omega
  have hplace : c.logs.Pairwise fun a b =>
      a.blockNumber = b.blockNumber → a.logIndex = b.logIndex → a = b :=
    c.sorted.imp fun h hblock hindex => by rcases h with h | ⟨-, h⟩ <;> omega
  exact List.Pairwise.forall_of_forall_of_flip (fun _ _ _ _ => rfl) hplace hflip ha hb hblock hindex

variable (c)

/-- The provider, for the logs that a filter keeps. -/
def provider (keep : VaultLog Record → Bool) (fails : ℕ → ℤ → ℤ → Option RpcError) :
    Provider (VaultLog Record) where
  records := c.logs.filter keep
  pos l := l.blockNumber
  sorted := (c.sorted.filter keep).imp fun h => by
    rcases h with h | ⟨h, -⟩
    · exact Int.ofNat_le.mpr h.le
    · exact Int.ofNat_le.mpr h.le
  fails
  pos_nonneg _ := Int.natCast_nonneg _

variable {c} in
theorem mem_within {keep : VaultLog Record → Bool} {fails} {fromBlock toBlock : ℕ}
    {l : VaultLog Record} :
    l ∈ (c.provider keep fails).within fromBlock toBlock ↔
      l ∈ c.logs ∧ keep l = true ∧ fromBlock ≤ l.blockNumber ∧ l.blockNumber ≤ toBlock := by
  simp only [Source.within, provider, List.mem_filter, decide_eq_true_eq, Nat.cast_le, and_assoc]

def enoughFuel (fromBlock toBlock chunk : ℤ) : ℕ := requestBound fromBlock toBlock (max 1 chunk) + 1

/-- A read of the logs ends, and what it returns are those of the range. -/
theorem getLogsChunked_eq (keep : VaultLog Record → Bool) (fails : ℕ → ℤ → ℤ → Option RpcError)
    (fromBlock toBlock : ℕ) (chunk : ℤ) :
    ∃ ended, getLogsChunked (c.provider keep fails).request fromBlock toBlock chunk
        (enoughFuel fromBlock toBlock chunk) = some ended ∧
      (ended.result = .ok ((c.provider keep fails).within fromBlock toBlock) ∨
        ∃ e, ended.result = .error e) := by
  obtain ⟨⟨ended, hread, -, hresult⟩, -⟩ := readsExactly_scan shrinks_halveChunk isRateLimit
    (c.provider keep fails) (le_refl (fromBlock : ℤ)) (le_max_left 1 chunk) le_rfl rfl
  refine ⟨ended, hread _ (Nat.lt_succ_self _), ?_⟩
  rcases hresult with h | ⟨e, -, -, -, h, -⟩
  · exact .inl h
  · exact .inr ⟨e, h⟩

theorem queryFilterChunked_eq (keep : VaultLog Record → Bool)
    (fails : ℕ → ℤ → ℤ → Option RpcError) (fromBlock toBlock : ℕ) (chunk : ℤ) :
    ∃ ended, queryFilterChunked (c.provider keep fails).request fromBlock toBlock chunk
        (enoughFuel fromBlock toBlock chunk) = some ended ∧
      (ended.result = .ok ((c.provider keep fails).within fromBlock toBlock) ∨
        ∃ e, ended.result = .error e) := by
  have hmax : max 0 (fromBlock : ℤ) = fromBlock := max_eq_right (Int.natCast_nonneg _)
  rw [queryFilterChunked, hmax]
  exact c.getLogsChunked_eq keep fails fromBlock toBlock chunk

end Chain

/-! ## The index -/

structure IndexConfig extends SyncConfig where
  /-- `LOG_SCAN_CHUNK`. -/
  logChunk : ℤ

inductive IndexStage (Record : Type) where
  /-- It waits for `getCachedBlockNumber`. -/
  | blockNumber
  /-- It waits for the logs of the window that starts at `cursor`. -/
  | window (target cursor : ℕ)
  /-- It has the events of a window, and waits for the timestamps of their blocks. -/
  | decoded (target windowEnd : ℕ) (events : List (VaultLog Record))
  /-- The events are in the table, and the cursor is to move. -/
  | inserted (target windowEnd : ℕ)

/-- The fields of `VaultEventIndex`, with its two tables. -/
structure EventIndex (Record : Type) where
  /-- `vault_events`. -/
  rows : List (VaultLog Record)
  /-- `last_block` of `event_index_meta`. -/
  storedBlock : Option ℕ
  /-- This process has the database open. -/
  dbOpen : Bool
  lastBlock : ℕ
  ready : Bool
  syncInFlight : Option (IndexStage Record)
  /-- `start` waits for the run in flight. -/
  starting : Bool

namespace EventIndex

variable {Record : Type} (cfg : IndexConfig)

def fresh : EventIndex Record where
  rows := []
  storedBlock := none
  dbOpen := false
  lastBlock := cfg.beforeDeploy
  ready := false
  syncInFlight := none
  starting := false

def isReady (s : EventIndex Record) : Bool := s.ready && s.dbOpen

def betAuthorizedEvents (s : EventIndex Record) (fromBlock toBlock : ℕ) :
    List (VaultLog Record) :=
  if s.dbOpen then
    (s.rows.filter fun l => l.event.type? = some .betAuthorized ∧ fromBlock ≤ l.blockNumber ∧
        l.blockNumber ≤ toBlock).insertionSort fun a b => ¬b.Before a
  else []

/-- The primary key of the table is the type, the block and the index. -/
def SameKey (a b : VaultLog Record) : Prop :=
  a.event.type? = b.event.type? ∧ a.blockNumber = b.blockNumber ∧ a.logIndex = b.logIndex

instance (a b : VaultLog Record) : Decidable (SameKey a b) :=
  inferInstanceAs (Decidable (_ ∧ _ ∧ _))

def insertOrIgnore (rows : List (VaultLog Record)) (l : VaultLog Record) : List (VaultLog Record) :=
  if ∃ row ∈ rows, SameKey row l then rows else rows ++ [l]

/-- The constructor, over the same database. -/
def construct (s : EventIndex Record) (opened : Bool) : EventIndex Record :=
  { (fresh cfg : EventIndex Record) with
    rows := s.rows
    storedBlock := s.storedBlock
    dbOpen := opened
    lastBlock := if opened then s.storedBlock.getD cfg.beforeDeploy else cfg.beforeDeploy }

def setStage (s : EventIndex Record) (stage : IndexStage Record) : EventIndex Record :=
  { s with syncInFlight := some stage }

def finish (s : EventIndex Record) : EventIndex Record :=
  { s with syncInFlight := none, ready := s.ready || s.starting, starting := false }

def throw (s : EventIndex Record) : EventIndex Record :=
  { s with syncInFlight := none, starting := false }

/-- `sync` up to its first wait. -/
def sync (s : EventIndex Record) : EventIndex Record :=
  if s.dbOpen then s.setStage .blockNumber else s.finish

def start (s : EventIndex Record) : EventIndex Record := { s with starting := true }.sync

/-- `this.lastBlock = windowEnd`, and the row of `event_index_meta`. -/
def setCursor (s : EventIndex Record) (windowEnd : ℕ) : EventIndex Record :=
  { s with lastBlock := windowEnd, storedBlock := some windowEnd }

def nextWindow (s : EventIndex Record) (target cursor : ℕ) : EventIndex Record :=
  if cursor ≤ target then s.setStage (.window target cursor) else s.finish

@[simp] theorem rows_finish (s : EventIndex Record) : s.finish.rows = s.rows := rfl

@[simp] theorem rows_sync (s : EventIndex Record) : s.sync.rows = s.rows := by
  unfold sync
  split <;> rfl

@[simp] theorem rows_start (s : EventIndex Record) : s.start.rows = s.rows := rows_sync _

@[simp] theorem rows_nextWindow (s : EventIndex Record) (target cursor : ℕ) :
    (s.nextWindow target cursor).rows = s.rows := by
  unfold nextWindow
  split <;> rfl

end EventIndex

inductive IndexAction where
  /-- `runSync`, by the poll or by `syncNow`. -/
  | runSync
  /-- `getCachedBlockNumber` answers, or throws. -/
  | blockNumber (head : Option ℕ)
  /-- The window is read, together with the tree's logs or by the topics. -/
  | logs (combined : Bool) (fails : ℕ → ℤ → ℤ → Option RpcError)
  /-- The timestamps are there, and the transaction on the table commits. -/
  | insert
  | moveCursor
  /-- The relay dies, and starts again over the same database. -/
  | restart (opened : Bool)

section Step

variable {Record : Type} {first : ℕ} (cfg : IndexConfig) (c : Chain Record first)

/-- The events of a window, or the error of its read. -/
def IndexConfig.readEvents (combined : Bool) (fails : ℕ → ℤ → ℤ → Option RpcError)
    (cursor windowEnd : ℕ) : Option (Except RpcError (List (VaultLog Record))) :=
  let keep : VaultLog Record → Bool := if combined then fun _ => true else VaultLog.named
  (getLogsChunked (c.provider keep fails).request cursor windowEnd cfg.logChunk
      (Chain.enoughFuel cursor windowEnd cfg.logChunk)).map fun ended =>
    ended.result.map fun logs => if combined then logs.filter VaultLog.named else logs

def indexStep (s : EventIndex Record) : IndexAction → Option (EventIndex Record)
  | .runSync =>
    match s.syncInFlight with
    | some _ => some s
    -- Before it is ready neither the poll nor `syncNow` runs.
    | none => some (if s.ready then s.sync else s)
  | .blockNumber head =>
    match s.syncInFlight, head with
    | some .blockNumber, none => some s.throw
    | some .blockNumber, some head =>
      if head ≤ c.height then
        some (if head - cfg.confirmations ≤ s.lastBlock then s.finish
          else s.nextWindow (head - cfg.confirmations) (s.lastBlock + 1))
      else none
    | _, _ => none
  | .logs combined fails =>
    match s.syncInFlight with
    | some (.window target cursor) =>
      let windowEnd := min (cursor + cfg.scanWindow - 1) target
      match cfg.readEvents c combined fails cursor windowEnd with
      | some (.ok events) => some (s.setStage (.decoded target windowEnd events))
      | some (.error _) => some s.throw
      | none => none
    | _ => none
  | .insert =>
    match s.syncInFlight with
    | some (.decoded target windowEnd events) =>
      some ({ s with rows := events.foldl EventIndex.insertOrIgnore s.rows }.setStage
        (.inserted target windowEnd))
    | _ => none
  | .moveCursor =>
    match s.syncInFlight with
    | some (.inserted target windowEnd) =>
      some ((s.setCursor windowEnd).nextWindow target (windowEnd + 1))
    | _ => none
  | .restart opened => some (s.construct cfg opened).start

end Step

/-! ## It holds every event up to its head -/

namespace EventIndex

variable {Record : Type} {first : ℕ} {cfg : IndexConfig} {c : Chain Record first}
  {s s' : EventIndex Record}

def Covers (c : Chain Record first) (rows : List (VaultLog Record)) (block : ℕ) : Prop :=
  ∀ l ∈ c.logs, l.named = true → l.blockNumber ≤ block → l ∈ rows

/-- What a run of `sync` has read and written so far. -/
def StageOk (c : Chain Record first) (s : EventIndex Record) : IndexStage Record → Prop
  | .blockNumber => True
  | .window target cursor => target ≤ c.height ∧ cursor = s.lastBlock + 1
  | .decoded target windowEnd events => target ≤ c.height ∧ windowEnd ≤ target ∧
      ∀ l, l ∈ events ↔ l ∈ c.logs ∧ l.named = true ∧ s.lastBlock + 1 ≤ l.blockNumber ∧
        l.blockNumber ≤ windowEnd
  | .inserted target windowEnd => target ≤ c.height ∧ windowEnd ≤ target ∧ Covers c s.rows windowEnd

/-- The table holds events of the chain, each once, and all of them up to the cursor, in memory and
in the database. -/
structure Ok (cfg : IndexConfig) (c : Chain Record first) (s : EventIndex Record) : Prop where
  keys : s.rows.Pairwise fun a b => ¬SameKey a b
  sound : ∀ l ∈ s.rows, l ∈ c.logs ∧ l.named = true
  cursor : s.lastBlock ≤ max c.height cfg.beforeDeploy
  covers : s.dbOpen = true → Covers c s.rows s.lastBlock
  stored : ∀ b ∈ s.storedBlock, b ≤ max c.height cfg.beforeDeploy ∧ Covers c s.rows b
  stage : ∀ stage ∈ s.syncInFlight, s.dbOpen = true ∧ StageOk c s stage

theorem lt_beforeDeploy (hfirst : cfg.deployBlock ≤ first) {l : VaultLog Record}
    (hl : l ∈ c.logs) : cfg.beforeDeploy < l.blockNumber := by
  have hge := c.first_le l hl
  have hpos := c.pos l hl
  unfold SyncConfig.beforeDeploy
  omega

theorem covers_beforeDeploy (hfirst : cfg.deployBlock ≤ first) (rows : List (VaultLog Record)) :
    Covers c rows cfg.beforeDeploy := fun _ hl _ hle =>
  absurd hle (lt_beforeDeploy hfirst hl).not_ge

namespace Ok

theorem fresh (hfirst : cfg.deployBlock ≤ first) : Ok cfg c (EventIndex.fresh cfg) where
  keys := .nil
  sound := nofun
  cursor := le_max_right ..
  covers := fun _ => covers_beforeDeploy hfirst _
  stored := nofun
  stage := nofun

/-! ### The table -/

theorem eq_of_sameKey {a b : VaultLog Record} (ha : a ∈ c.logs) (hb : b ∈ c.logs)
    (h : SameKey a b) : a = b := Chain.eq_of_place ha hb h.2.1 h.2.2

theorem mem_insertOrIgnore {rows : List (VaultLog Record)} {l x : VaultLog Record}
    (hrows : ∀ r ∈ rows, r ∈ c.logs) (hl : l ∈ c.logs) :
    x ∈ insertOrIgnore rows l ↔ x ∈ rows ∨ x = l := by
  unfold insertOrIgnore
  split
  next h =>
    obtain ⟨row, hrow, hkey⟩ := h
    obtain rfl := eq_of_sameKey (hrows row hrow) hl hkey
    exact ⟨.inl, fun h => h.elim id (· ▸ hrow)⟩
  next h => rw [List.mem_append, List.mem_singleton]

theorem mem_foldl_insertOrIgnore {rows events : List (VaultLog Record)} {x : VaultLog Record}
    (hrows : ∀ r ∈ rows, r ∈ c.logs) (hevents : ∀ l ∈ events, l ∈ c.logs) :
    x ∈ events.foldl insertOrIgnore rows ↔ x ∈ rows ∨ x ∈ events := by
  induction events generalizing rows with
  | nil => simp
  | cons l events ih =>
    have hl : l ∈ c.logs := hevents l List.mem_cons_self
    have hmem : ∀ {y}, y ∈ insertOrIgnore rows l ↔ y ∈ rows ∨ y = l := mem_insertOrIgnore hrows hl
    have hrows' : ∀ r ∈ insertOrIgnore rows l, r ∈ c.logs := fun r hr =>
      (hmem.mp hr).elim (hrows r) (· ▸ hl)
    rw [List.foldl_cons, ih hrows' fun l hl => hevents l (List.mem_cons_of_mem _ hl), hmem,
      List.mem_cons, or_assoc]

theorem subset_foldl_insertOrIgnore (rows events : List (VaultLog Record)) :
    rows ⊆ events.foldl insertOrIgnore rows := by
  induction events generalizing rows with
  | nil => exact fun _ h => h
  | cons l events ih =>
    refine List.Subset.trans ?_ (ih _)
    unfold insertOrIgnore
    split
    · exact fun _ h => h
    · exact List.subset_append_left ..

theorem keys_foldl_insertOrIgnore {rows events : List (VaultLog Record)}
    (h : rows.Pairwise fun a b => ¬SameKey a b) :
    (events.foldl insertOrIgnore rows).Pairwise fun a b => ¬SameKey a b := by
  induction events generalizing rows with
  | nil => exact h
  | cons l events ih =>
    refine ih ?_
    unfold insertOrIgnore
    split
    next => exact h
    next hnew =>
      refine List.pairwise_append.mpr ⟨h, List.pairwise_singleton .., fun a ha b hb hkey => ?_⟩
      rw [List.mem_singleton.mp hb] at hkey
      exact hnew ⟨a, ha, hkey⟩

/-! ### The reads -/

/-- A window that is read has the events of its blocks. -/
theorem mem_readEvents {combined : Bool} {fails} {cursor windowEnd : ℕ}
    {events : List (VaultLog Record)} {l : VaultLog Record}
    (h : cfg.readEvents c combined fails cursor windowEnd = some (.ok events)) :
    l ∈ events ↔ l ∈ c.logs ∧ l.named = true ∧ cursor ≤ l.blockNumber ∧
      l.blockNumber ≤ windowEnd := by
  obtain ⟨ended, hread, hresult⟩ := c.getLogsChunked_eq
    (if combined then fun _ => true else VaultLog.named) fails cursor windowEnd cfg.logChunk
  simp only [IndexConfig.readEvents, hread, Option.map_some, Option.some.injEq] at h
  rcases hresult with hok | ⟨e, he⟩
  · rw [hok] at h
    cases combined with
    | true =>
      obtain rfl := Except.ok.inj h
      simp only [if_true, List.mem_filter, Chain.mem_within]
      tauto
    | false =>
      obtain rfl := Except.ok.inj h
      simp only [Bool.false_eq_true, if_false, Chain.mem_within]
  · rw [he] at h
    cases h

/-! ### The steps -/

theorem setStage (h : Ok cfg c s) {stage : IndexStage Record} (hopen : s.dbOpen = true)
    (hstage : StageOk c s stage) : Ok cfg c (s.setStage stage) where
  keys := h.keys
  sound := h.sound
  cursor := h.cursor
  covers := h.covers
  stored := h.stored
  stage := by
    rintro _ ⟨⟩
    refine ⟨hopen, ?_⟩
    cases stage <;> exact hstage

theorem finish (h : Ok cfg c s) : Ok cfg c s.finish :=
  ⟨h.keys, h.sound, h.cursor, h.covers, h.stored, nofun⟩

theorem throw (h : Ok cfg c s) : Ok cfg c s.throw :=
  ⟨h.keys, h.sound, h.cursor, h.covers, h.stored, nofun⟩

theorem sync (h : Ok cfg c s) : Ok cfg c s.sync := by
  unfold EventIndex.sync
  split
  next hopen => exact h.setStage hopen trivial
  next => exact h.finish

theorem start (h : Ok cfg c s) (hnone : s.syncInFlight = none) : Ok cfg c s.start := by
  refine sync ⟨h.keys, h.sound, h.cursor, h.covers, h.stored, ?_⟩
  intro stage hstage
  cases hnone.symm.trans hstage

theorem construct (hfirst : cfg.deployBlock ≤ first) (h : Ok cfg c s) (opened : Bool) :
    Ok cfg c (s.construct cfg opened) := by
  have hcursor : (s.storedBlock.getD cfg.beforeDeploy) ≤ max c.height cfg.beforeDeploy ∧
      Covers c s.rows (s.storedBlock.getD cfg.beforeDeploy) := by
    cases hb : s.storedBlock with
    | none => exact ⟨le_max_right .., covers_beforeDeploy hfirst _⟩
    | some b => exact h.stored b hb
  refine ⟨h.keys, h.sound, ?_, fun hopen => ?_, h.stored, nofun⟩
  · unfold EventIndex.construct
    dsimp only
    split
    · exact hcursor.1
    · exact le_max_right ..
  · obtain rfl : opened = true := hopen
    exact hcursor.2

theorem nextWindow (h : Ok cfg c s) {target cursor : ℕ} (hopen : s.dbOpen = true)
    (htarget : target ≤ c.height) (hcursor : cursor = s.lastBlock + 1) :
    Ok cfg c (s.nextWindow target cursor) := by
  unfold EventIndex.nextWindow
  split
  · exact h.setStage hopen ⟨htarget, hcursor⟩
  · exact h.finish

theorem idle (h : Ok cfg c s) : Ok cfg c { s with syncInFlight := none } :=
  ⟨h.keys, h.sound, h.cursor, h.covers, h.stored, nofun⟩

theorem setCursor (h : Ok cfg c s) {windowEnd : ℕ} (hle : windowEnd ≤ c.height)
    (hcovers : Covers c s.rows windowEnd) (hnone : s.syncInFlight = none) :
    Ok cfg c (s.setCursor windowEnd) where
  keys := h.keys
  sound := h.sound
  cursor := hle.trans (le_max_left ..)
  covers := fun _ => hcovers
  stored := by
    rintro _ ⟨⟩
    exact ⟨hle.trans (le_max_left ..), hcovers⟩
  stage := by
    intro stage hstage
    cases hnone.symm.trans hstage

theorem nextWindow_idle (s : EventIndex Record) (target cursor : ℕ) :
    s.nextWindow target cursor = { s with syncInFlight := none }.nextWindow target cursor := by
  unfold EventIndex.nextWindow
  split <;> rfl

theorem insert (h : Ok cfg c s) {target windowEnd : ℕ} {events : List (VaultLog Record)}
    (hopen : s.dbOpen = true) (htarget : target ≤ c.height) (hle : windowEnd ≤ target)
    (hevents : ∀ l, l ∈ events ↔ l ∈ c.logs ∧ l.named = true ∧ s.lastBlock + 1 ≤ l.blockNumber ∧
      l.blockNumber ≤ windowEnd) :
    Ok cfg c ({ s with rows := events.foldl insertOrIgnore s.rows }.setStage
      (.inserted target windowEnd)) := by
  have hmem : ∀ {l}, l ∈ events.foldl insertOrIgnore s.rows ↔ l ∈ s.rows ∨ l ∈ events :=
    mem_foldl_insertOrIgnore (fun l hl => (h.sound l hl).1) fun l hl => ((hevents l).mp hl).1
  have hgrows : ∀ {b}, Covers c s.rows b → Covers c (events.foldl insertOrIgnore s.rows) b :=
    fun hb l hl hnamed hle => hmem.mpr (.inl (hb l hl hnamed hle))
  refine ⟨keys_foldl_insertOrIgnore h.keys, fun l hl => ?_, h.cursor,
    fun hopen => hgrows (h.covers hopen), fun b hb => ⟨(h.stored b hb).1, hgrows (h.stored b hb).2⟩,
    ?_⟩
  · rcases hmem.mp hl with hl | hl
    · exact h.sound l hl
    · exact ⟨((hevents l).mp hl).1, ((hevents l).mp hl).2.1⟩
  · rintro _ ⟨⟩
    refine ⟨hopen, htarget, hle, fun l hl hnamed hend => ?_⟩
    -- Up to the cursor the table had them, and after it they were just read.
    by_cases hcursor : l.blockNumber ≤ s.lastBlock
    · exact hmem.mpr (.inl (h.covers hopen l hl hnamed hcursor))
    · exact hmem.mpr (.inr ((hevents l).mpr ⟨hl, hnamed, not_le.mp hcursor, hend⟩))

theorem step (hfirst : cfg.deployBlock ≤ first) (h : Ok cfg c s) {a : IndexAction}
    (hs : indexStep cfg c s a = some s') : Ok cfg c s' := by
  cases a with
  | runSync =>
    simp only [indexStep] at hs
    split at hs
    next => exact Option.some.inj hs ▸ h
    next =>
      split at hs
      · exact Option.some.inj hs ▸ h.sync
      · exact Option.some.inj hs ▸ h
  | blockNumber head =>
    simp only [indexStep] at hs
    split at hs
    next => exact Option.some.inj hs ▸ h.throw
    next head hstage =>
      split at hs
      next hle =>
        obtain rfl := Option.some.inj hs
        split
        · exact h.finish
        · exact h.nextWindow (h.stage _ hstage).1 ((Nat.sub_le ..).trans hle) rfl
      next => cases hs
    next => cases hs
  | logs combined fails =>
    simp only [indexStep] at hs
    split at hs
    next target cursor hstage =>
      obtain ⟨hopen, htarget, rfl⟩ := h.stage _ hstage
      split at hs
      next events hread =>
        obtain rfl := Option.some.inj hs
        exact h.setStage hopen ⟨htarget, min_le_right .., fun l => mem_readEvents hread⟩
      next => exact Option.some.inj hs ▸ h.throw
      next => cases hs
    next => cases hs
  | insert =>
    simp only [indexStep] at hs
    split at hs
    next target windowEnd events hstage =>
      obtain ⟨hopen, htarget, hle, hevents⟩ := h.stage _ hstage
      exact Option.some.inj hs ▸ h.insert hopen htarget hle hevents
    next => cases hs
  | moveCursor =>
    simp only [indexStep] at hs
    split at hs
    next target windowEnd hstage =>
      obtain ⟨hopen, htarget, hle, hcovers⟩ := h.stage _ hstage
      obtain rfl := Option.some.inj hs
      rw [nextWindow_idle]
      exact (h.idle.setCursor (hle.trans htarget) hcovers rfl).nextWindow hopen htarget rfl
    next => cases hs
  | restart opened =>
    obtain rfl := Option.some.inj hs
    exact (h.construct hfirst opened).start rfl

theorem rows_subset {a : IndexAction} (hs : indexStep cfg c s a = some s') : s.rows ⊆ s'.rows := by
  have hsame : ∀ {t : EventIndex Record}, some t = some s' → t.rows = s.rows → s.rows ⊆ s'.rows :=
    fun h ht => by rw [← Option.some.inj h, ht]; exact fun _ h => h
  cases a with
  | runSync =>
    simp only [indexStep] at hs
    split at hs
    next => exact hsame hs rfl
    next => exact hsame hs (by split <;> simp)
  | blockNumber head =>
    simp only [indexStep] at hs
    split at hs
    next => exact hsame hs rfl
    next =>
      split at hs
      · exact hsame hs (by split <;> simp)
      · cases hs
    next => cases hs
  | logs combined fails =>
    simp only [indexStep] at hs
    split at hs
    next =>
      split at hs
      next => exact hsame hs rfl
      next => exact hsame hs rfl
      next => cases hs
    next => cases hs
  | insert =>
    simp only [indexStep] at hs
    split at hs
    next target windowEnd events hstage =>
      rw [← Option.some.inj hs]
      exact subset_foldl_insertOrIgnore s.rows events
    next => cases hs
  | moveCursor =>
    simp only [indexStep] at hs
    split at hs
    next => exact hsame hs (rows_nextWindow ..)
    next => cases hs
  | restart opened =>
    simp only [indexStep] at hs
    exact hsame hs (rows_start ..)

theorem mine (hfirst : cfg.deployBlock ≤ first) (h : Ok cfg c s) {empty : ℕ}
    {events : List (ℕ × VaultEvent Record)} (hsorted hblock) :
    Ok cfg (c.mine empty events hsorted hblock) s := by
  have hheight : c.height ≤ (c.mine empty events hsorted hblock).height := by
    show c.height ≤ c.height + empty + 1
    omega
  have hold : ∀ {l}, l ∈ (c.mine empty events hsorted hblock).logs →
      l.blockNumber ≤ max c.height cfg.beforeDeploy → l ∈ c.logs := by
    intro l hl hle
    rcases Chain.mem_mine hsorted hblock hl with hold | ⟨habove, -⟩
    · exact hold
    · have := lt_beforeDeploy hfirst hl
      omega
  have hmax : ∀ {b}, b ≤ max c.height cfg.beforeDeploy →
      b ≤ max (c.mine empty events hsorted hblock).height cfg.beforeDeploy :=
    fun hb => hb.trans (max_le_max hheight le_rfl)
  have hcovers : ∀ {rows b}, Covers c rows b → b ≤ max c.height cfg.beforeDeploy →
      Covers (c.mine empty events hsorted hblock) rows b :=
    fun hcov hb l hl hnamed hle => hcov l (hold hl (hle.trans hb)) hnamed hle
  refine ⟨h.keys, fun l hl => ?_, hmax h.cursor, fun hopen => hcovers (h.covers hopen) h.cursor,
    fun b hb => ⟨hmax (h.stored b hb).1, hcovers (h.stored b hb).2 (h.stored b hb).1⟩,
    fun stage hstage => ?_⟩
  · exact ⟨Chain.mem_mine_of_mem (h.sound l hl).1, (h.sound l hl).2⟩
  · obtain ⟨hopen, hok⟩ := h.stage stage hstage
    refine ⟨hopen, ?_⟩
    cases stage with
    | blockNumber => trivial
    | window target cursor => exact ⟨hok.1.trans hheight, hok.2⟩
    | decoded target windowEnd read =>
      obtain ⟨htarget, hle, hread⟩ := hok
      refine ⟨htarget.trans hheight, hle, fun l => (hread l).trans ?_⟩
      constructor
      · rintro ⟨hl, hrest⟩
        exact ⟨Chain.mem_mine_of_mem hl, hrest⟩
      · rintro ⟨hl, hnamed, hcursor, hend⟩
        exact ⟨hold hl (by omega), hnamed, hcursor, hend⟩
    | inserted target windowEnd =>
      obtain ⟨htarget, hle, hcov⟩ := hok
      exact ⟨htarget.trans hheight, hle, hcovers hcov (by omega)⟩

/-- From the deploy block to the head that it reports, the table holds each event of the chain
once. -/
theorem exact_upTo_head (h : Ok cfg c s) (hopen : s.dbOpen = true) :
    (s.rows.filter fun l => cfg.deployBlock ≤ l.blockNumber ∧ l.blockNumber ≤ s.lastBlock).Perm
      (c.logs.filter fun l => l.named = true ∧ cfg.deployBlock ≤ l.blockNumber ∧
        l.blockNumber ≤ s.lastBlock) := by
  have hnodup : s.rows.Nodup := h.keys.imp fun {a b} hkey heq => by
    subst heq
    exact hkey ⟨rfl, rfl, rfl⟩
  refine (List.perm_ext_iff_of_nodup (hnodup.filter _) (c.nodup.filter _)).mpr fun l => ?_
  simp only [List.mem_filter, decide_eq_true_eq]
  constructor
  · rintro ⟨hl, hrange⟩
    exact ⟨(h.sound l hl).1, (h.sound l hl).2, hrange⟩
  · rintro ⟨hl, hnamed, hrange⟩
    exact ⟨h.covers hopen l hl hnamed hrange.2, hrange⟩

/-- What the index serves, when it has every event up to `block`. -/
theorem mem_betAuthorizedEvents {fromBlock toBlock block : ℕ} (hopen : s.dbOpen = true)
    (hcovers : Covers c s.rows block) (hle : toBlock ≤ block) {l : VaultLog Record} {r : Record}
    (hl : l ∈ c.logs) (hr : l.record? = some r) (hfrom : fromBlock ≤ l.blockNumber)
    (hto : l.blockNumber ≤ toBlock) : l ∈ s.betAuthorizedEvents fromBlock toBlock := by
  rw [betAuthorizedEvents, if_pos hopen, List.mem_insertionSort, List.mem_filter,
    decide_eq_true_eq]
  exact ⟨hcovers l hl (VaultLog.named_of_record? hr) (hto.trans hle),
    VaultLog.type?_of_record? hr, hfrom, hto⟩

end Ok

end EventIndex

end Polyshield.Rpc

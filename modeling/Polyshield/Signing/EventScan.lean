import Polyshield.Rpc.EventIndex
import Polyshield.Signing.Frames
import Polyshield.Signing.Outcomes

/-!
# The scans of the event listener

`eventListener.ts` and `vaultEventSource.ts`, together with the chain, the
relay's index and the signing layer. A scan reads the head, then the
`BetAuthorized` logs window by window, from the index or from the chain, hands
each to `handleBetRecord`, and keeps its cursor in a file. Every read returns the
truth or throws, and either service may die at any await. `seen` is a ghost: the
bets that were handed to `processBetEvent`, or had an attestation or a tracked
order when they were scanned.
-/

namespace Polyshield.Signing

open Rpc

def safetyBuffer : ℕ := 100

structure ScanConfig where
  relay : IndexConfig
  /-- `DEPLOY_BLOCK` of the listener. -/
  deployBlock : ℕ
  /-- `LOG_SCAN_WINDOW`. -/
  scanWindow : ℕ
  /-- `LOG_SCAN_CHUNK`. -/
  logChunk : ℤ
  /-- `DEEP_LOOKBACK_BLOCKS`. -/
  deepLookback : ℕ

/-- The Vault is deployed in neither service's past. -/
def ScanConfig.first (cfg : ScanConfig) : ℕ := max cfg.relay.deployBlock cfg.deployBlock

structure ScanOpts where
  fromOverride : Option ℤ
  persist : Bool

inductive ScanSource where
  | index
  | chain
  deriving DecidableEq

structure Scan where
  persist : Bool
  head : ℕ
  source : ScanSource

inductive ScanStage where
  /-- It waits for `/index-head`. -/
  | indexHead (opts : ScanOpts)
  /-- It waits for `getBlockNumber`. -/
  | blockNumber (opts : ScanOpts)
  /-- It waits for `/bet-authorized`, for the window at `cursor`. -/
  | betAuthorized (scan : Scan) (cursor : ℕ)
  /-- It waits for `queryFilterChunked`. -/
  | queryFilter (scan : Scan) (cursor : ℕ)
  /-- It handles the records of a window; `current` waits for `betRecords`. -/
  | records (scan : Scan) (windowEnd : ℕ) (current : Option BetAuthorizedRecord)
      (pending : List BetAuthorizedRecord)

structure ScanSystem (first : ℕ) where
  chain : Chain BetAuthorizedRecord first
  index : EventIndex BetAuthorizedRecord
  layer : SigningLayer
  /-- `lastBlock` in `STATE_FILE`. -/
  stateFile : Option ℕ
  /-- The scan in flight; `scanning` when there is one. -/
  scan : Option ScanStage
  seen : List Hex32

def blockBets (events : List (ℕ × VaultEvent BetAuthorizedRecord)) : List BetAuthorizedRecord :=
  events.filterMap fun e => e.2.record?

def recordOf (r : BetAuthorizedRecord) : ChainBet :=
  ⟨r.nullifier.bytes32, r.expectedShares, r.betAmount, r.outcomeSide, .active⟩

namespace ScanSystem

variable (cfg : ScanConfig)

def initial : ScanSystem cfg.first where
  chain := .genesis
  index := .fresh cfg.relay
  layer := .initial
  stateFile := none
  scan := none
  seen := []

variable {cfg} {first : ℕ} (s : ScanSystem first)

def lastBlock : ℕ := s.stateFile.getD 0

def setScan (stage : Option ScanStage) : ScanSystem first := { s with scan := stage }

def setIndex (index : EventIndex BetAuthorizedRecord) : ScanSystem first :=
  { s with index := index }

def setLayer (layer : SigningLayer) : ScanSystem first := { s with layer := layer }

def saveLastBlock (block : ℕ) : ScanSystem first := { s with stateFile := some block }

def see (n : Hex32) : ScanSystem first := { s with seen := n :: s.seen }

/-- `runScan` up to its first wait. -/
def runScan (opts : ScanOpts) : ScanSystem first :=
  match s.scan with
  | some _ => s
  | none => s.setScan (some (.indexHead opts))

def nextWindow (scan : Scan) (cursor : ℕ) : ScanSystem first :=
  if cursor ≤ scan.head then
    match scan.source with
    | .index => s.setScan (some (.betAuthorized scan cursor))
    | .chain => s.setScan (some (.queryFilter scan cursor))
  else s.setScan none

variable (cfg)

/-- `fromBlock`, once the head is known. -/
def fromBlock (opts : ScanOpts) (head : ℕ) : ℕ :=
  match opts.fromOverride with
  | some fromOverride => max cfg.deployBlock (min fromOverride head).toNat
  | none => max cfg.deployBlock (min s.lastBlock head - safetyBuffer)

def begin (opts : ScanOpts) (head : ℕ) (source : ScanSource) : ScanSystem first :=
  s.nextWindow ⟨opts.persist, head, source⟩ (s.fromBlock cfg opts head)

def windowEnd (scan : Scan) (cursor : ℕ) : ℕ := min (cursor + cfg.scanWindow - 1) scan.head

def fetched (scan : Scan) (cursor : ℕ) (logs : List (VaultLog BetAuthorizedRecord)) :
    ScanSystem first :=
  s.setScan (some (.records scan (windowEnd cfg scan cursor) none
    (logs.filterMap VaultLog.record?)))

/-- The logs with the topic of `BetAuthorized`, or the error of the read. -/
def queryFilter (scan : Scan) (cursor : ℕ) (fails : ℕ → ℤ → ℤ → Option RpcError) :
    Option (Except RpcError (List (VaultLog BetAuthorizedRecord))) :=
  let windowEnd := windowEnd cfg scan cursor
  (queryFilterChunked (s.chain.provider (fun l => l.record?.isSome) fails).request cursor windowEnd
      cfg.logChunk (Chain.enoughFuel cursor windowEnd cfg.logChunk)).map PagedScan.Ended.result

variable {cfg}

/-- The next block with these events, after `empty` ones without; the Vault has a record of a bet
of a market that is not zero. -/
def mine (empty : ℕ) (events : List (ℕ × VaultEvent BetAuthorizedRecord))
    (recorded : BetAuthorizedRecord → Bool) (hsorted : (events.map Prod.fst).Pairwise (· < ·))
    (hfirst : events ≠ [] → first ≤ s.chain.height + empty + 1) : ScanSystem first :=
  { s with
    chain := s.chain.mine empty events hsorted hfirst
    layer := { s.layer with
      bets := s.layer.bets ++ ((blockBets events).filter recorded).map recordOf } }

/-- `handleBetRecord` up to its await: a bet that is attested or tracked is seen. -/
def handle (scan : Scan) (windowEnd : ℕ) (r : BetAuthorizedRecord)
    (pending : List BetAuthorizedRecord) : ScanSystem first :=
  let handled := s.setLayer (s.layer.handleBetRecord r)
  if TakesUp s.layer r then handled.setScan (some (.records scan windowEnd (some r) pending))
  else
    let next := handled.setScan (some (.records scan windowEnd none pending))
    if (getAttestation s.layer.attestations r.nullifier none).isSome ∨
        s.layer.isOrderTracked r.nullifier = true then next.see r.nullifier
    else next

/-- `betRecords` answers, or throws, and the record is handed to `processBetEvent` if it exists. -/
def confirm (scan : Scan) (windowEnd : ℕ) (r : BetAuthorizedRecord)
    (pending : List BetAuthorizedRecord) (answer : Option (Option RegistryHit)) :
    ScanSystem first :=
  let next := s.setScan (some (.records scan windowEnd none pending))
  match answer with
  | none => next.setLayer (s.layer.setListener .idle)
  | some resolved =>
    let confirmed := next.setLayer (s.layer.confirmed r resolved)
    if (s.layer.betRecord r.nullifier).isSome then confirmed.see r.nullifier else confirmed

end ScanSystem

/-! ## Steps -/

/-- An action of the signing layer other than a scan's, a restart and the chain's. -/
def Action.apart : Action → Bool
  | .handleBetRecord _ | .confirmed _ | .authorizeBet _ | .restart => false
  | _ => true

inductive ScanAction where
  /-- Blocks are mined. -/
  | mine (empty : ℕ) (events : List (ℕ × VaultEvent BetAuthorizedRecord))
      (recorded : BetAuthorizedRecord → Bool)
  | index (action : IndexAction)
  /-- `runScan` of the poll. -/
  | poll
  /-- `runScan` of the deep sweep, with the block number it has read. -/
  | deepSweep (current : ℕ)
  /-- `/index-head` is answered, or throws. -/
  | indexHead (answered : Bool)
  | blockNumber (answered : Bool)
  | betAuthorized (answered : Bool)
  | queryFilter (fails : ℕ → ℤ → ℤ → Option RpcError)
  /-- The next record of the window. -/
  | record
  /-- `betRecords` answers, or throws. -/
  | confirmed (answer : Option (Option RegistryHit))
  | windowDone
  | layer (action : Action)
  /-- The signing layer dies, and starts again. -/
  | restart

section Step

variable (cfg : ScanConfig)

open ScanSystem in
def scanStep (s : ScanSystem cfg.first) : ScanAction → Option (ScanSystem cfg.first)
  | .mine empty events recorded =>
    if h : (events.map Prod.fst).Pairwise (· < ·) ∧
        (events ≠ [] → cfg.first ≤ s.chain.height + empty + 1) then
      -- Its nullifier is spent: a bet is authorized once.
      if ((s.chain.logs.filterMap VaultLog.record? ++ blockBets events).map
          BetAuthorizedRecord.nullifier).Nodup then
        some (s.mine empty events recorded h.1 h.2)
      else none
    else none
  | .index a => (indexStep cfg.relay s.chain s.index a).map s.setIndex
  | .poll => some (s.runScan ⟨none, true⟩)
  | .deepSweep current =>
    if 0 < current ∧ current ≤ s.chain.height then
      some (s.runScan ⟨some (current - cfg.deepLookback), false⟩)
    else none
  | .indexHead answered =>
    match s.scan with
    | some (.indexHead opts) =>
      some (if answered && s.index.isReady then s.begin cfg opts s.index.lastBlock .index
        else s.setScan (some (.blockNumber opts)))
    | _ => none
  | .blockNumber answered =>
    match s.scan with
    | some (.blockNumber opts) =>
      some (if answered then s.begin cfg opts s.chain.height .chain else s.setScan none)
    | _ => none
  | .betAuthorized answered =>
    match s.scan with
    | some (.betAuthorized scan cursor) =>
      some (if answered && s.index.isReady then
          s.fetched cfg scan cursor (s.index.betAuthorizedEvents cursor (windowEnd cfg scan cursor))
        else s.setScan (some (.queryFilter scan cursor)))
    | _ => none
  | .queryFilter fails =>
    match s.scan with
    | some (.queryFilter scan cursor) =>
      match s.queryFilter cfg scan cursor fails with
      | some (.ok logs) => some (s.fetched cfg scan cursor logs)
      | some (.error _) => some (s.setScan none)
      | none => none
    | _ => none
  | .record =>
    match s.scan with
    | some (.records scan windowEnd none (r :: pending)) =>
      if s.layer.listener = .idle then some (s.handle scan windowEnd r pending) else none
    | _ => none
  | .confirmed answer =>
    match s.scan with
    | some (.records scan windowEnd (some r) pending) =>
      some (s.confirm scan windowEnd r pending answer)
    | _ => none
  | .windowDone =>
    match s.scan with
    | some (.records scan windowEnd none []) =>
      if s.layer.listener = .idle then
        some ((if scan.persist then s.saveLastBlock windowEnd else s).nextWindow scan
          (windowEnd + 1))
      else none
    | _ => none
  | .layer a => if a.apart then (machine.step s.layer a).map s.setLayer else none
  | .restart => some ((s.setLayer s.layer.restart).setScan none)

/-- The chain, the relay and the signing layer, one step at a time. -/
def scanMachine : Machine (ScanSystem cfg.first) ScanAction := ⟨scanStep cfg⟩

end Step

/-! ## The bets seen and the events indexed -/

def ScanSystem.Recorded {first : ℕ} (s : ScanSystem first) (r : BetAuthorizedRecord) : Prop :=
  (s.layer.betRecord r.nullifier).isSome = true

/-- Every recorded bet of a block that the cursor has left behind by the safety buffer was seen. -/
def NoBetSkipped {first : ℕ} (s : ScanSystem first) : Prop :=
  ∀ l ∈ s.chain.logs, ∀ r ∈ l.record?, l.blockNumber + safetyBuffer ≤ s.lastBlock →
    s.Recorded r → r.nullifier ∈ s.seen

/-- The table of the index holds each event of the chain up to the head that it reports once. -/
def IndexExact (cfg : ScanConfig) (s : ScanSystem cfg.first) : Prop :=
  s.index.dbOpen = true →
    (s.index.rows.filter fun l => cfg.relay.deployBlock ≤ l.blockNumber ∧
        l.blockNumber ≤ s.index.lastBlock).Perm
      (s.chain.logs.filter fun l => l.named = true ∧ cfg.relay.deployBlock ≤ l.blockNumber ∧
        l.blockNumber ≤ s.index.lastBlock)

/-- `betRecords` throws, in a scan that moves the cursor, only for a bet of the last blocks before
its head, or one that was seen before. -/
def RecordRead {first : ℕ} (s : ScanSystem first) : ScanAction → Prop
  | .confirmed none =>
    match s.scan with
    | some (.records scan _ (some r) _) =>
      scan.persist = true → s.Recorded r → r.nullifier ∈ s.seen ∨
        ∀ l ∈ s.chain.logs, l.record? = some r → scan.head < l.blockNumber + safetyBuffer
    | _ => True
  | _ => True

/-! ## The signing layer -/

section Layer

open SigningLayer

variable {s s' : SigningLayer}

/-- The bets in flight and those with a record are the same. -/
structure SameBets (s s' : SigningLayer) : Prop where
  inFlight : s'.inFlight = s.inFlight
  bets : s'.bets.map ChainBet.nullifier = s.bets.map ChainBet.nullifier

theorem SameBets.of_eq (hflight : s'.inFlight = s.inFlight) (hbets : s'.bets = s.bets) :
    SameBets s s' := ⟨hflight, by rw [hbets]⟩

theorem Quiet.sameBets {t : SigningLayer} (h : Quiet t s') (hflight : t.inFlight = s.inFlight)
    (hbets : t.bets = s.bets) : SameBets s s' :=
  .of_eq (h.inFlight.trans hflight) (h.bets.trans hbets)

theorem sameBets_afterAttest {t : SigningLayer} (after : AfterAttest)
    (hflight : t.inFlight = s.inFlight) (hbets : t.bets = s.bets) :
    SameBets s (t.afterAttest after) := by
  cases after with
  | done => exact .of_eq hflight hbets
  | listener => exact .of_eq hflight hbets
  | untrack o => exact (Quiet.untrack t o).sameBets hflight hbets

theorem sameBets_step {a : Action} (hapart : a.apart = true)
    (hs : machine.step s a = some s') : SameBets s s' := by
  cases steps_of_step hs with
  | handleBetRecord | confirmed | confirmThrew | restart | authorizeBet => cases hapart
  | @funded e _ ok =>
    unfold SigningLayer.funded
    split
    · split
      · unfold markMarketSubmitting
        split <;> exact .of_eq rfl rfl
      · exact .of_eq rfl rfl
    · exact .of_eq (Quiet.attestFailedFor s e.nullifier .listener).inFlight
        (Quiet.attestFailedFor s e.nullifier .listener).bets
  | prepared =>
    unfold SigningLayer.prepared
    split <;> exact .of_eq rfl rfl
  | @fakResponded e _ p resp =>
    cases resp with
    | none => exact .of_eq rfl rfl
    | some resp =>
      have hrec : SameBets s (s.recordOrderId e.nullifier resp.orderID) := by
        cases resp.orderID <;> exact .of_eq rfl rfl
      simp only [SigningLayer.fakResponded]
      split
      · exact ⟨hrec.inFlight, hrec.bets⟩
      · have hq := fun bet filled spent => Quiet.attestTerminal
          (s.recordOrderId e.nullifier resp.orderID) bet filled spent .listener
        exact ⟨(hq _ _ _).inFlight.trans hrec.inFlight,
          (congrArg _ (hq _ _ _).bets).trans hrec.bets⟩
  | @limitResponded e t =>
    unfold SigningLayer.limitResponded
    split
    · exact .of_eq rfl rfl
    · split
      · split
        · exact .of_eq rfl rfl
        · have hq := Quiet.attestFailedFor s e.nullifier .listener
          exact .of_eq hq.inFlight hq.bets
      · split
        · exact .of_eq rfl rfl
        · rename_i id _ _
          have hq := Quiet.trackOrder s (limitTracked e t id 0)
          exact .of_eq hq.inFlight hq.bets
  | @crossed e t id =>
    unfold SigningLayer.crossed
    split
    · exact .of_eq rfl rfl
    · rename_i fee
      have hq := Quiet.trackOrder s (limitTracked e t id fee)
      exact .of_eq hq.inFlight hq.bets
  | limitOrder => exact .of_eq rfl rfl
  | cancelBet => exact (Quiet.cancelBet s _).sameBets rfl rfl
  | closeRequest => exact (Quiet.closeRequest s _ _).sameBets rfl rfl
  | signed => exact sameBets_afterAttest _ rfl rfl
  | signThrew => exact sameBets_afterAttest _ rfl rfl
  | attested => exact sameBets_afterAttest _ rfl rfl
  | cancelClient => exact (Quiet.cancelTrackedOrder _ _ _).sameBets rfl rfl
  | cancelled _ _ hc => exact (Quiet.cancelled hc).sameBets rfl rfl
  | reconciled _ _ hc => exact (Quiet.reconciled hc).sameBets rfl rfl
  | marketClient => exact (Quiet.reconcileMarketSubmission _ _ _ _).sameBets rfl rfl
  | marketQueried _ hc => exact (Quiet.marketQueried hc).sameBets rfl rfl
  | @sell i req t client resolved bestBid =>
    rcases Quiet.sell (s.dropTask i) req t client resolved bestBid with h | ⟨hit, -, h⟩
    · rw [h]
      exact .of_eq rfl rfl
    · rw [h]
      exact .of_eq rfl rfl
  | sellThrew => exact .of_eq rfl rfl
  | marketSold => exact (Quiet.marketSold _ _ _ _ _ _).sameBets rfl rfl
  | limitSellResponded => exact (Quiet.limitSellResponded _ _ _ _ _ _).sameBets rfl rfl
  | sellCrossed => exact (Quiet.trackOrder _ _).sameBets rfl rfl
  | sellCrossThrew => exact .of_eq rfl rfl
  | message => exact (Quiet.handleOne s _).sameBets rfl rfl
  | reconcile => exact (Quiet.reconcileOne s _).sameBets rfl rfl
  | marketResolved => exact (Quiet.cancelOrdersForMarket s _).sameBets rfl rfl
  | clob => exact .of_eq rfl rfl
  | setBetStatus =>
    refine ⟨rfl, ?_⟩
    rw [List.map_map]
    refine List.map_congr_left fun b _ => ?_
    simp only [Function.comp_apply]
    split <;> rfl
  | tick => exact .of_eq rfl rfl

theorem betRecord_isSome {n : Hex32} :
    (s.betRecord n).isSome = true ↔ n.bytes32 ∈ s.bets.map ChainBet.nullifier := by
  simp only [betRecord, List.find?_isSome, decide_eq_true_eq, List.mem_map]

theorem sameBets_confirmed (s : SigningLayer) (r : BetAuthorizedRecord)
    (resolved : Option RegistryHit) :
    (s.confirmed r resolved).bets = s.bets ∧
      ∀ e ∈ (s.confirmed r resolved).inFlight, e ∈ s.inFlight ∨
        e.1 = r.nullifier ∧ (s.betRecord r.nullifier).isSome = true := by
  have hset : ∀ e ∈ (s.setInFlight r.nullifier).inFlight, e ∈ s.inFlight ∨ e.1 = r.nullifier := by
    intro e he
    rcases List.mem_append.mp he with he | he
    · exact .inl (List.mem_of_mem_filter he)
    · exact .inr (congrArg Prod.fst (List.mem_singleton.mp he))
  unfold SigningLayer.confirmed
  split
  next => exact ⟨rfl, fun e he => .inl he⟩
  next h =>
    have hsome : (s.betRecord r.nullifier).isSome = true := by
      rwa [Option.isNone_iff_eq_none, ← ne_eq, Option.ne_none_iff_isSome] at h
    unfold processBetEvent
    split
    · have hq := Quiet.attestFailedFor (s.setInFlight r.nullifier) r.nullifier .listener
      exact ⟨hq.bets, fun e he => (hset e (hq.inFlight ▸ he)).imp_right fun h => ⟨h, hsome⟩⟩
    · exact ⟨rfl, fun e he => (hset e he).imp_right fun h => ⟨h, hsome⟩⟩

end Layer

/-! ## The invariant -/

namespace ScanSystem

variable {cfg : ScanConfig} {s s' : ScanSystem cfg.first}

/-- Up to here the chain gets no further log. -/
def reach (cfg : ScanConfig) (s : ScanSystem cfg.first) : ℕ :=
  max s.chain.height cfg.relay.beforeDeploy

/-- The recorded bets of these blocks were seen. -/
def SeenIn (s : ScanSystem cfg.first) (P : ℕ → Prop) : Prop :=
  ∀ l ∈ s.chain.logs, ∀ r, l.record? = some r → P l.blockNumber → s.Recorded r →
    r.nullifier ∈ s.seen

/-- The chain has the head of the scan, and the index has its events if it is to serve them. -/
structure HeadOk (cfg : ScanConfig) (s : ScanSystem cfg.first) (scan : Scan) : Prop where
  head : scan.head ≤ s.reach cfg
  source : scan.source = .index → EventIndex.Covers s.chain s.index.rows scan.head

/-- Of the window that is handled, each recorded bet far enough below the head was seen, or its turn
is now or later. -/
def Handling (s : ScanSystem cfg.first) (scan : Scan) (windowEnd : ℕ)
    (current : Option BetAuthorizedRecord) (pending : List BetAuthorizedRecord) : Prop :=
  ∀ l ∈ s.chain.logs, ∀ r, l.record? = some r → l.blockNumber ≤ windowEnd →
    l.blockNumber + safetyBuffer ≤ scan.head → s.Recorded r →
      r.nullifier ∈ s.seen ∨ current = some r ∨ r ∈ pending

theorem Handling.take {scan : Scan} {windowEnd : ℕ} {r : BetAuthorizedRecord}
    {pending : List BetAuthorizedRecord} (h : Handling s scan windowEnd none (r :: pending)) :
    Handling s scan windowEnd (some r) pending := by
  intro l hl q hq hend hbuffer hrec
  rcases h l hl q hq hend hbuffer hrec with hs | hs | hs
  · exact .inl hs
  · cases hs
  · rcases List.mem_cons.mp hs with rfl | hs
    · exact .inr (.inl rfl)
    · exact .inr (.inr hs)

/-- The scan leaves a record that was seen, or need not be. -/
theorem Handling.leave {scan : Scan} {windowEnd : ℕ} {r : BetAuthorizedRecord}
    {pending : List BetAuthorizedRecord} (h : Handling s scan windowEnd (some r) pending)
    (hr : s.Recorded r → r.nullifier ∈ s.seen ∨
      ∀ l ∈ s.chain.logs, l.record? = some r → scan.head < l.blockNumber + safetyBuffer) :
    Handling s scan windowEnd none pending := by
  intro l hl q hq hend hbuffer hrec
  rcases h l hl q hq hend hbuffer hrec with hs | hs | hs
  · exact .inl hs
  · obtain rfl := Option.some.inj hs
    rcases hr hrec with hs | habove
    · exact .inl hs
    · exact absurd hbuffer (habove l hl hq).not_ge
  · exact .inr (.inr hs)

/-- How far a scan that moves the cursor is. -/
def StageOk (cfg : ScanConfig) (s : ScanSystem cfg.first) : ScanStage → Prop
  | .indexHead opts | .blockNumber opts => opts.persist = true → opts.fromOverride = none
  | .betAuthorized scan cursor => HeadOk cfg s scan ∧ scan.source = .index ∧
      (scan.persist = true →
        s.SeenIn fun block => block < cursor ∧ block + safetyBuffer ≤ scan.head)
  | .queryFilter scan cursor => HeadOk cfg s scan ∧
      (scan.persist = true →
        s.SeenIn fun block => block < cursor ∧ block + safetyBuffer ≤ scan.head)
  | .records scan windowEnd current pending => HeadOk cfg s scan ∧ windowEnd ≤ scan.head ∧
      (scan.persist = true → Handling s scan windowEnd current pending)

/-- What is in flight was seen, and so were the bets behind the cursor and behind the scan. -/
structure Ok (cfg : ScanConfig) (s : ScanSystem cfg.first) : Prop where
  index : s.index.Ok cfg.relay s.chain
  inFlight : ∀ e ∈ s.layer.inFlight, e.1 ∈ s.seen
  lastBlock : s.lastBlock ≤ s.reach cfg
  behind : s.SeenIn fun block => block + safetyBuffer ≤ s.lastBlock
  stage : ∀ stage ∈ s.scan, StageOk cfg s stage

/-- Nothing of what was seen, indexed or mined is lost, and a bet gets no record later. -/
structure Grows (cfg : ScanConfig) (s s' : ScanSystem cfg.first) : Prop where
  reach : s.reach cfg ≤ s'.reach cfg
  logs : ∀ l ∈ s'.chain.logs, l ∈ s.chain.logs ∨ s.reach cfg < l.blockNumber
  recorded : ∀ l ∈ s.chain.logs, ∀ r, l.record? = some r → s'.Recorded r → s.Recorded r
  rows : s.index.rows ⊆ s'.index.rows
  seen : s.seen ⊆ s'.seen

namespace Grows

theorem of_eq (hchain : s'.chain = s.chain) (hindex : s'.index = s.index)
    (hbets : s'.layer.bets.map ChainBet.nullifier = s.layer.bets.map ChainBet.nullifier)
    (hseen : s.seen ⊆ s'.seen) : Grows cfg s s' where
  reach := by rw [ScanSystem.reach, ScanSystem.reach, hchain]
  logs := fun l hl => .inl (hchain ▸ hl)
  recorded := fun l _ r _ hr => by
    rw [Recorded, betRecord_isSome] at hr ⊢
    rwa [hbets] at hr
  rows := by rw [hindex]; exact fun _ h => h
  seen := hseen

theorem refl (s : ScanSystem cfg.first) : Grows cfg s s := .of_eq rfl rfl rfl fun _ h => h

variable (h : Grows cfg s s')
include h

theorem seenIn {P : ℕ → Prop} (hP : ∀ block, P block → block ≤ s.reach cfg)
    (hs : s.SeenIn P) : s'.SeenIn P := by
  intro l hl r hr hp hrec
  rcases h.logs l hl with hl | habove
  · exact h.seen (hs l hl r hr hp (h.recorded l hl r hr hrec))
  · exact absurd (hP _ hp) habove.not_ge

theorem headOk {scan : Scan} (hs : HeadOk cfg s scan) : HeadOk cfg s' scan where
  head := hs.head.trans h.reach
  source := by
    intro hsource l hl hnamed hle
    rcases h.logs l hl with hl | habove
    · exact h.rows (hs.source hsource l hl hnamed hle)
    · exact absurd (hle.trans hs.head) habove.not_ge

theorem handling {scan : Scan} {windowEnd : ℕ} {current : Option BetAuthorizedRecord}
    {pending : List BetAuthorizedRecord} (hhead : scan.head ≤ s.reach cfg)
    (hs : Handling s scan windowEnd current pending) :
    Handling s' scan windowEnd current pending := by
  intro l hl r hr hend hbuffer hrec
  rcases h.logs l hl with hl | habove
  · exact (hs l hl r hr hend hbuffer (h.recorded l hl r hr hrec)).imp_left (@h.seen _)
  · exact absurd (Nat.le_of_add_right_le (hbuffer.trans hhead)) habove.not_ge

theorem stageOk {stage : ScanStage} (hs : StageOk cfg s stage) : StageOk cfg s' stage := by
  have hbelow : ∀ {scan : Scan} {cursor : ℕ}, HeadOk cfg s scan →
      ∀ block, block < cursor ∧ block + safetyBuffer ≤ scan.head → block ≤ s.reach cfg :=
    fun hhead _ hb => (Nat.le_of_add_right_le hb.2).trans hhead.head
  cases stage with
  | indexHead => exact hs
  | blockNumber => exact hs
  | betAuthorized scan cursor =>
    exact ⟨h.headOk hs.1, hs.2.1, fun hp => h.seenIn (hbelow hs.1) (hs.2.2 hp)⟩
  | queryFilter scan cursor =>
    exact ⟨h.headOk hs.1, fun hp => h.seenIn (hbelow hs.1) (hs.2 hp)⟩
  | records scan windowEnd current pending =>
    exact ⟨h.headOk hs.1, hs.2.1, fun hp => h.handling hs.1.head (hs.2.2 hp)⟩

end Grows

theorem Ok.grows {s s' : ScanSystem cfg.first} (h : Ok cfg s) (hg : Grows cfg s s')
    (hindex : s'.index.Ok cfg.relay s'.chain) (hflight : ∀ e ∈ s'.layer.inFlight, e.1 ∈ s'.seen)
    (hfile : s'.stateFile = s.stateFile) (hscan : ∀ stage ∈ s'.scan, StageOk cfg s' stage) :
    Ok cfg s' where
  index := hindex
  inFlight := hflight
  lastBlock := by
    rw [ScanSystem.lastBlock, hfile]
    exact h.lastBlock.trans hg.reach
  behind := by
    rw [ScanSystem.lastBlock, hfile]
    exact hg.seenIn (fun _ hb => (Nat.le_of_add_right_le hb).trans h.lastBlock) h.behind
  stage := hscan

/-! ### The steps of a scan -/

namespace Ok

theorem initial : Ok cfg (.initial cfg) where
  index := .fresh (le_max_left ..)
  inFlight := nofun
  lastBlock := Nat.zero_le _
  behind := nofun
  stage := nofun

theorem setScan (h : Ok cfg s) {stage : Option ScanStage}
    (hstage : ∀ x ∈ stage, StageOk cfg s x) : Ok cfg (s.setScan stage) := by
  have hg : Grows cfg s (s.setScan stage) := .of_eq rfl rfl rfl fun _ h => h
  exact h.grows hg h.index h.inFlight rfl fun x hx => hg.stageOk (hstage x hx)

theorem nextWindow (h : Ok cfg s) {scan : Scan} {cursor : ℕ} (hhead : HeadOk cfg s scan)
    (hseen : scan.persist = true →
      s.SeenIn fun block => block < cursor ∧ block + safetyBuffer ≤ scan.head) :
    Ok cfg (s.nextWindow scan cursor) := by
  unfold ScanSystem.nextWindow
  split
  · split
    next hsource =>
      refine h.setScan ?_
      rintro _ ⟨⟩
      exact ⟨hhead, hsource, hseen⟩
    next =>
      refine h.setScan ?_
      rintro _ ⟨⟩
      exact ⟨hhead, hseen⟩
  · exact h.setScan nofun

theorem begin (h : Ok cfg s) {opts : ScanOpts} {head : ℕ} {source : ScanSource}
    (hforward : opts.persist = true → opts.fromOverride = none)
    (hhead : HeadOk cfg s ⟨opts.persist, head, source⟩) :
    Ok cfg (s.begin cfg opts head source) := by
  refine h.nextWindow hhead fun hpersist l hl r hr hblock hrec => ?_
  -- The first window starts the buffer below the cursor, or where the Vault was deployed.
  have hfirst : cfg.first ≤ l.blockNumber := s.chain.first_le l hl
  have hdeploy : cfg.deployBlock ≤ cfg.first := le_max_right ..
  have hfrom := hblock.1
  rw [fromBlock, hforward hpersist] at hfrom
  dsimp only at hfrom
  exact h.behind l hl r hr (by omega) hrec

theorem fetched (h : Ok cfg s) {scan : Scan} {cursor : ℕ}
    {logs : List (VaultLog BetAuthorizedRecord)} (hhead : HeadOk cfg s scan)
    (hseen : scan.persist = true →
      s.SeenIn fun block => block < cursor ∧ block + safetyBuffer ≤ scan.head)
    (hlogs : ∀ l ∈ s.chain.logs, ∀ r, l.record? = some r → cursor ≤ l.blockNumber →
      l.blockNumber ≤ windowEnd cfg scan cursor → l ∈ logs) :
    Ok cfg (s.fetched cfg scan cursor logs) := by
  refine h.setScan ?_
  rintro _ ⟨⟩
  refine ⟨hhead, min_le_right .., fun hpersist l hl r hr hend hbuffer hrec => ?_⟩
  by_cases hcursor : l.blockNumber < cursor
  · exact .inl (hseen hpersist l hl r hr ⟨hcursor, hbuffer⟩ hrec)
  · have hmem := hlogs l hl r hr (not_lt.mp hcursor) hend
    exact .inr (.inr (List.mem_filterMap.mpr ⟨l, hmem, hr⟩))

theorem mem_queryFilter {scan : Scan} {cursor : ℕ} {fails}
    {logs : List (VaultLog BetAuthorizedRecord)}
    (h : s.queryFilter cfg scan cursor fails = some (.ok logs))
    {l : VaultLog BetAuthorizedRecord} {r : BetAuthorizedRecord} (hl : l ∈ s.chain.logs)
    (hr : l.record? = some r) (hcursor : cursor ≤ l.blockNumber)
    (hend : l.blockNumber ≤ windowEnd cfg scan cursor) : l ∈ logs := by
  obtain ⟨ended, hread, hresult⟩ := s.chain.queryFilterChunked_eq
    (fun l => l.record?.isSome) fails cursor (windowEnd cfg scan cursor) cfg.logChunk
  simp only [queryFilter, hread, Option.map_some, Option.some.injEq] at h
  rcases hresult with hok | ⟨e, he⟩
  · obtain rfl := Except.ok.inj (hok.symm.trans h)
    exact Chain.mem_within.mpr ⟨hl, by rw [hr]; rfl, hcursor, hend⟩
  · cases he.symm.trans h

theorem handle (h : Ok cfg s) {scan : Scan} {windowEnd : ℕ} {r : BetAuthorizedRecord}
    {pending : List BetAuthorizedRecord} (hhead : HeadOk cfg s scan) (hend : windowEnd ≤ scan.head)
    (hpending : scan.persist = true → Handling s scan windowEnd none (r :: pending)) :
    Ok cfg (s.handle scan windowEnd r pending) := by
  have hlayer : (s.layer.handleBetRecord r).inFlight = s.layer.inFlight ∧
      (s.layer.handleBetRecord r).bets = s.layer.bets := by
    rw [handleBetRecord_eq]
    split <;> exact ⟨rfl, rfl⟩
  have hflight : ∀ e ∈ (s.layer.handleBetRecord r).inFlight, e.1 ∈ s.seen := by
    rw [hlayer.1]
    exact h.inFlight
  have hbets := congrArg (List.map ChainBet.nullifier) hlayer.2
  unfold ScanSystem.handle
  dsimp only
  split
  next =>
    have hg : Grows cfg s ((s.setLayer (s.layer.handleBetRecord r)).setScan
        (some (.records scan windowEnd (some r) pending))) :=
      .of_eq rfl rfl hbets fun _ h => h
    refine h.grows hg h.index hflight rfl ?_
    rintro _ ⟨⟩
    exact hg.stageOk ⟨hhead, hend, fun hp => (hpending hp).take⟩
  next hskip =>
    split
    next =>
      have hg : Grows cfg s (((s.setLayer (s.layer.handleBetRecord r)).setScan
          (some (.records scan windowEnd none pending))).see r.nullifier) :=
        .of_eq rfl rfl hbets fun _ h => List.mem_cons_of_mem _ h
      refine h.grows hg h.index (fun e he => List.mem_cons_of_mem _ (hflight e he)) rfl ?_
      rintro _ ⟨⟩
      exact ⟨hg.headOk hhead, hend, fun hp => (hg.handling hhead.head (hpending hp).take).leave
        fun _ => .inl List.mem_cons_self⟩
    next hno =>
      -- It is in flight, so it was handed on before.
      have hseen : r.nullifier ∈ s.seen := by
        have hany : (s.layer.inFlight.any fun entry => entry.1 = r.nullifier) = true := by
          by_contra hany
          refine hskip ⟨?_, Bool.eq_false_of_not_eq_true hany, ?_⟩
          · exact Bool.eq_false_of_not_eq_true fun h => hno (.inl h)
          · exact Bool.eq_false_of_not_eq_true fun h => hno (.inr h)
        obtain ⟨e, he, heq⟩ := List.any_eq_true.mp hany
        exact of_decide_eq_true heq ▸ h.inFlight e he
      have hg : Grows cfg s ((s.setLayer (s.layer.handleBetRecord r)).setScan
          (some (.records scan windowEnd none pending))) :=
        .of_eq rfl rfl hbets fun _ h => h
      refine h.grows hg h.index hflight rfl ?_
      rintro _ ⟨⟩
      exact hg.stageOk ⟨hhead, hend, fun hp => (hpending hp).take.leave fun _ => .inl hseen⟩

theorem confirm (h : Ok cfg s) {scan : Scan} {windowEnd : ℕ} {r : BetAuthorizedRecord}
    {pending : List BetAuthorizedRecord} {answer : Option (Option RegistryHit)}
    (hhead : HeadOk cfg s scan) (hend : windowEnd ≤ scan.head)
    (hpending : scan.persist = true → Handling s scan windowEnd (some r) pending)
    (hthrew : answer = none → scan.persist = true → s.Recorded r → r.nullifier ∈ s.seen ∨
      ∀ l ∈ s.chain.logs, l.record? = some r → scan.head < l.blockNumber + safetyBuffer) :
    Ok cfg (s.confirm scan windowEnd r pending answer) := by
  unfold ScanSystem.confirm
  dsimp only
  split
  next =>
    have hg : Grows cfg s ((s.setScan (some (.records scan windowEnd none pending))).setLayer
        (s.layer.setListener .idle)) := .of_eq rfl rfl rfl fun _ h => h
    refine h.grows hg h.index h.inFlight rfl ?_
    rintro _ ⟨⟩
    exact hg.stageOk ⟨hhead, hend, fun hp => (hpending hp).leave (hthrew rfl hp)⟩
  next resolved =>
    obtain ⟨hbets, hconfirmed⟩ := sameBets_confirmed s.layer r resolved
    have hbets := congrArg (List.map ChainBet.nullifier) hbets
    split
    next hrec =>
      have hg : Grows cfg s (((s.setScan (some (.records scan windowEnd none pending))).setLayer
          (s.layer.confirmed r resolved)).see r.nullifier) :=
        .of_eq rfl rfl hbets fun _ h => List.mem_cons_of_mem _ h
      refine h.grows hg h.index (fun e he => ?_) rfl ?_
      · rcases hconfirmed e he with he | ⟨heq, -⟩
        · exact List.mem_cons_of_mem _ (h.inFlight e he)
        · exact heq ▸ List.mem_cons_self
      · rintro _ ⟨⟩
        exact ⟨hg.headOk hhead, hend, fun hp => (hg.handling hhead.head (hpending hp)).leave
          fun _ => .inl List.mem_cons_self⟩
    next hrec =>
      have hg : Grows cfg s ((s.setScan (some (.records scan windowEnd none pending))).setLayer
          (s.layer.confirmed r resolved)) := .of_eq rfl rfl hbets fun _ h => h
      refine h.grows hg h.index (fun e he => ?_) rfl ?_
      · rcases hconfirmed e he with he | ⟨-, hsome⟩
        · exact h.inFlight e he
        · exact absurd hsome hrec
      · rintro _ ⟨⟩
        exact hg.stageOk ⟨hhead, hend, fun hp => (hpending hp).leave fun hsome =>
          absurd hsome hrec⟩

theorem windowDone (h : Ok cfg s) {scan : Scan} {windowEnd : ℕ} (hhead : HeadOk cfg s scan)
    (hend : windowEnd ≤ scan.head)
    (hdone : scan.persist = true → Handling s scan windowEnd none []) :
    Ok cfg ((if scan.persist then s.saveLastBlock windowEnd else s).nextWindow scan
      (windowEnd + 1)) := by
  have hseen : scan.persist = true → s.SeenIn fun block =>
      block < windowEnd + 1 ∧ block + safetyBuffer ≤ scan.head := by
    intro hp l hl r hr hblock hrec
    rcases hdone hp l hl r hr (Nat.le_of_lt_succ hblock.1) hblock.2 hrec with hs | hs | hs
    · exact hs
    · cases hs
    · cases hs
  split
  next hpersist =>
    have hsaved : Ok cfg (s.saveLastBlock windowEnd) := by
      refine ⟨h.index, h.inFlight, hend.trans hhead.head, fun l hl r hr hblock hrec => ?_,
        fun stage hs => ?_⟩
      · have hblock : l.blockNumber + safetyBuffer ≤ windowEnd := hblock
        exact hseen hpersist l hl r hr ⟨by omega, hblock.trans hend⟩ hrec
      · have hg : Grows cfg s (s.saveLastBlock windowEnd) := .of_eq rfl rfl rfl fun _ h => h
        exact hg.stageOk (h.stage stage hs)
    exact hsaved.nextWindow ⟨hhead.head, hhead.source⟩ hseen
  next => exact h.nextWindow hhead hseen

theorem layer (h : Ok cfg s) {layer : SigningLayer} (hsame : SameBets s.layer layer) :
    Ok cfg (s.setLayer layer) := by
  have hg : Grows cfg s (s.setLayer layer) := .of_eq rfl rfl hsame.bets fun _ h => h
  refine h.grows hg h.index (fun e he => ?_) rfl fun stage hs => hg.stageOk (h.stage stage hs)
  exact h.inFlight e (hsame.inFlight ▸ he)

theorem restart (h : Ok cfg s) : Ok cfg ((s.setLayer s.layer.restart).setScan none) := by
  have hframe := restart_frame s.layer
  have hg : Grows cfg s ((s.setLayer s.layer.restart).setScan none) :=
    .of_eq rfl rfl (congrArg _ hframe.2.2.2.2.2) fun _ h => h
  refine h.grows hg h.index (fun e he => ?_) rfl nofun
  rw [show ((s.setLayer s.layer.restart).setScan none).layer.inFlight = [] from
    hframe.2.2.1] at he
  cases he

theorem indexStep (h : Ok cfg s) {a : IndexAction} {index : EventIndex BetAuthorizedRecord}
    (hs : Rpc.indexStep cfg.relay s.chain s.index a = some index) : Ok cfg (s.setIndex index) := by
  have hg : Grows cfg s (s.setIndex index) :=
    ⟨le_rfl, fun _ hl => .inl hl, fun _ _ _ _ hr => hr, EventIndex.Ok.rows_subset hs,
      fun _ h => h⟩
  exact h.grows hg (h.index.step (le_max_left ..) hs) h.inFlight rfl fun stage hs =>
    hg.stageOk (h.stage stage hs)

theorem recorded_mine {bets : List ChainBet} {old new : List BetAuthorizedRecord}
    {recorded : BetAuthorizedRecord → Bool} {r : BetAuthorizedRecord}
    (hnodup : ((old ++ new).map BetAuthorizedRecord.nullifier).Nodup) (hr : r ∈ old)
    (h : r.nullifier.bytes32 ∈
      (bets ++ (new.filter recorded).map recordOf).map ChainBet.nullifier) :
    r.nullifier.bytes32 ∈ bets.map ChainBet.nullifier := by
  rw [List.map_append, List.mem_append] at h
  refine h.resolve_right fun h => ?_
  obtain ⟨b, hb, hbytes⟩ := List.mem_map.mp h
  obtain ⟨q, hq, rfl⟩ := List.mem_map.mp hb
  have heq : q.nullifier = r.nullifier := Hex32.lowercase_inj q.lowercase r.lowercase hbytes
  rw [List.map_append, List.nodup_append] at hnodup
  exact hnodup.2.2 _ (List.mem_map_of_mem hr) _
    (List.mem_map_of_mem (List.mem_of_mem_filter hq)) heq.symm

theorem mine (h : Ok cfg s) {empty : ℕ} {events : List (ℕ × VaultEvent BetAuthorizedRecord)}
    {recorded : BetAuthorizedRecord → Bool} (hsorted hfirst)
    (hnodup : ((s.chain.logs.filterMap VaultLog.record? ++ blockBets events).map
      BetAuthorizedRecord.nullifier).Nodup) :
    Ok cfg (s.mine empty events recorded hsorted hfirst) := by
  have hmem : ∀ l ∈ (s.mine empty events recorded hsorted hfirst).chain.logs,
      l ∈ s.chain.logs ∨ s.chain.height < l.blockNumber ∧ ∃ e ∈ events, l.event = e.2 :=
    fun l hl => Chain.mem_mine hsorted hfirst hl
  have hg : Grows cfg s (s.mine empty events recorded hsorted hfirst) := by
    refine ⟨max_le_max ?_ le_rfl, fun l hl => ?_, fun l hl r hr hrec => ?_, fun _ h => h,
      fun _ h => h⟩
    · show s.chain.height ≤ s.chain.height + empty + 1
      omega
    · exact (hmem l hl).imp_right fun h =>
        max_lt h.1 (EventIndex.lt_beforeDeploy (le_max_left ..) hl)
    · rw [Recorded, betRecord_isSome] at hrec ⊢
      exact recorded_mine hnodup (List.mem_filterMap.mpr ⟨l, hl, hr⟩) hrec
  exact h.grows hg (h.index.mine (le_max_left ..) hsorted hfirst) h.inFlight rfl fun stage hs =>
    hg.stageOk (h.stage stage hs)

theorem runScan (h : Ok cfg s) {opts : ScanOpts}
    (hforward : opts.persist = true → opts.fromOverride = none) : Ok cfg (s.runScan opts) := by
  unfold ScanSystem.runScan
  split
  · exact h
  · refine h.setScan ?_
    rintro _ ⟨⟩
    exact hforward

theorem step (h : Ok cfg s) {a : ScanAction} (hread : RecordRead s a)
    (hs : scanStep cfg s a = some s') : Ok cfg s' := by
  cases a with
  | mine empty events recorded =>
    simp only [scanStep] at hs
    split at hs
    next hblock =>
      split at hs
      next hnodup => exact Option.some.inj hs ▸ h.mine hblock.1 hblock.2 hnodup
      next => cases hs
    next => cases hs
  | index a =>
    obtain ⟨index, hindex, rfl⟩ := Option.map_eq_some_iff.mp hs
    exact h.indexStep hindex
  | poll => exact Option.some.inj hs ▸ h.runScan fun _ => rfl
  | deepSweep current =>
    simp only [scanStep] at hs
    split at hs
    · exact Option.some.inj hs ▸ h.runScan nofun
    · cases hs
  | indexHead answered =>
    simp only [scanStep] at hs
    split at hs
    next opts hscan =>
      have hforward := h.stage _ hscan
      obtain rfl := Option.some.inj hs
      split
      next hready =>
        simp only [EventIndex.isReady, Bool.and_eq_true] at hready
        exact h.begin hforward ⟨h.index.cursor, fun _ => h.index.covers hready.2.2⟩
      next =>
        refine h.setScan ?_
        rintro _ ⟨⟩
        exact hforward
    next => cases hs
  | blockNumber answered =>
    simp only [scanStep] at hs
    split at hs
    next opts hscan =>
      obtain rfl := Option.some.inj hs
      split
      · exact h.begin (h.stage _ hscan) ⟨le_max_left .., nofun⟩
      · exact h.setScan nofun
    next => cases hs
  | betAuthorized answered =>
    simp only [scanStep] at hs
    split at hs
    next scan cursor hscan =>
      obtain ⟨hhead, hsource, hseen⟩ := h.stage _ hscan
      obtain rfl := Option.some.inj hs
      split
      next hready =>
        simp only [EventIndex.isReady, Bool.and_eq_true] at hready
        exact h.fetched hhead hseen fun l hl r hr hcursor hend =>
          EventIndex.Ok.mem_betAuthorizedEvents hready.2.2 (hhead.source hsource)
            (min_le_right ..) hl hr hcursor hend
      next =>
        refine h.setScan ?_
        rintro _ ⟨⟩
        exact ⟨hhead, hseen⟩
    next => cases hs
  | queryFilter fails =>
    simp only [scanStep] at hs
    split at hs
    next scan cursor hscan =>
      obtain ⟨hhead, hseen⟩ := h.stage _ hscan
      split at hs
      next logs hlogs =>
        obtain rfl := Option.some.inj hs
        exact h.fetched hhead hseen fun l hl r hr hcursor hend =>
          mem_queryFilter hlogs hl hr hcursor hend
      next => exact Option.some.inj hs ▸ h.setScan nofun
      next => cases hs
    next => cases hs
  | record =>
    simp only [scanStep] at hs
    split at hs
    next scan windowEnd r pending hscan =>
      obtain ⟨hhead, hend, hpending⟩ := h.stage _ hscan
      split at hs
      · exact Option.some.inj hs ▸ h.handle hhead hend hpending
      · cases hs
    next => cases hs
  | confirmed answer =>
    simp only [scanStep] at hs
    split at hs
    next scan windowEnd r pending hscan =>
      obtain ⟨hhead, hend, hpending⟩ := h.stage _ hscan
      obtain rfl := Option.some.inj hs
      refine h.confirm hhead hend hpending ?_
      rintro rfl
      simpa only [RecordRead, hscan] using hread
    next => cases hs
  | windowDone =>
    simp only [scanStep] at hs
    split at hs
    next scan windowEnd hscan =>
      obtain ⟨hhead, hend, hdone⟩ := h.stage _ hscan
      split at hs
      · exact Option.some.inj hs ▸ h.windowDone hhead hend hdone
      · cases hs
    next => cases hs
  | layer a =>
    simp only [scanStep] at hs
    split at hs
    next hapart =>
      obtain ⟨layer, hlayer, rfl⟩ := Option.map_eq_some_iff.mp hs
      exact h.layer (sameBets_step hapart hlayer)
    next => cases hs
  | restart => exact Option.some.inj hs ▸ h.restart

theorem of_run (h : (scanMachine cfg).Run RecordRead (.initial cfg) s) : Ok cfg s :=
  h.invariant initial fun _ _ _ hi hread hs => hi.step hread hs

end Ok

/-! ### The index, whatever the listener reads -/

/-- The chain and the index are left alone. -/
structure Still (s s' : ScanSystem cfg.first) : Prop where
  chain : s'.chain = s.chain
  index : s'.index = s.index

theorem still_nextWindow (s : ScanSystem cfg.first) (scan : Scan) (cursor : ℕ) :
    Still s (s.nextWindow scan cursor) := by
  unfold nextWindow
  split
  · split <;> exact ⟨rfl, rfl⟩
  · exact ⟨rfl, rfl⟩

theorem still_runScan (s : ScanSystem cfg.first) (opts : ScanOpts) : Still s (s.runScan opts) := by
  unfold runScan
  split <;> exact ⟨rfl, rfl⟩

theorem still_handle (s : ScanSystem cfg.first) (scan : Scan) (windowEnd : ℕ)
    (r : BetAuthorizedRecord) (pending : List BetAuthorizedRecord) :
    Still s (s.handle scan windowEnd r pending) := by
  unfold handle
  dsimp only
  split
  · exact ⟨rfl, rfl⟩
  · split <;> exact ⟨rfl, rfl⟩

theorem still_confirm (s : ScanSystem cfg.first) (scan : Scan) (windowEnd : ℕ)
    (r : BetAuthorizedRecord) (pending : List BetAuthorizedRecord)
    (answer : Option (Option RegistryHit)) :
    Still s (s.confirm scan windowEnd r pending answer) := by
  unfold confirm
  dsimp only
  split
  · exact ⟨rfl, rfl⟩
  · split <;> exact ⟨rfl, rfl⟩

theorem index_step (h : s.index.Ok cfg.relay s.chain) {a : ScanAction}
    (hs : scanStep cfg s a = some s') : s'.index.Ok cfg.relay s'.chain := by
  have hstill : ∀ {t : ScanSystem cfg.first}, some t = some s' → Still s t →
      s'.index.Ok cfg.relay s'.chain := by
    intro t ht hst
    rw [← Option.some.inj ht, hst.chain, hst.index]
    exact h
  cases a with
  | mine empty events recorded =>
    simp only [scanStep] at hs
    split at hs
    next hblock =>
      split at hs
      · exact Option.some.inj hs ▸ h.mine (le_max_left ..) hblock.1 hblock.2
      · cases hs
    next => cases hs
  | index a =>
    obtain ⟨index, hindex, rfl⟩ := Option.map_eq_some_iff.mp hs
    exact h.step (le_max_left ..) hindex
  | poll => exact hstill hs (still_runScan ..)
  | deepSweep current =>
    simp only [scanStep] at hs
    split at hs
    · exact hstill hs (still_runScan ..)
    · cases hs
  | indexHead answered =>
    simp only [scanStep] at hs
    split at hs
    next => exact hstill hs (by split; exacts [still_nextWindow .., ⟨rfl, rfl⟩])
    next => cases hs
  | blockNumber answered =>
    simp only [scanStep] at hs
    split at hs
    next => exact hstill hs (by split; exacts [still_nextWindow .., ⟨rfl, rfl⟩])
    next => cases hs
  | betAuthorized answered =>
    simp only [scanStep] at hs
    split at hs
    next => exact hstill hs (by split <;> exact ⟨rfl, rfl⟩)
    next => cases hs
  | queryFilter fails =>
    simp only [scanStep] at hs
    split at hs
    next =>
      split at hs
      next => exact hstill hs ⟨rfl, rfl⟩
      next => exact hstill hs ⟨rfl, rfl⟩
      next => cases hs
    next => cases hs
  | record =>
    simp only [scanStep] at hs
    split at hs
    next =>
      split at hs
      · exact hstill hs (still_handle ..)
      · cases hs
    next => cases hs
  | confirmed answer =>
    simp only [scanStep] at hs
    split at hs
    next => exact hstill hs (still_confirm ..)
    next => cases hs
  | windowDone =>
    simp only [scanStep] at hs
    split at hs
    next scan windowEnd hscan =>
      split at hs
      · refine hstill hs ?_
        split
        · exact ⟨(still_nextWindow ..).chain, (still_nextWindow ..).index⟩
        · exact still_nextWindow ..
      · cases hs
    next => cases hs
  | layer a =>
    simp only [scanStep] at hs
    split at hs
    next =>
      obtain ⟨layer, -, rfl⟩ := Option.map_eq_some_iff.mp hs
      exact h
    next => cases hs
  | restart => exact hstill hs ⟨rfl, rfl⟩

theorem index_of_run {cond : ScanSystem cfg.first → ScanAction → Prop}
    (h : (scanMachine cfg).Run cond (.initial cfg) s) : s.index.Ok cfg.relay s.chain :=
  h.invariant (I := fun s => s.index.Ok cfg.relay s.chain) (.fresh (le_max_left ..))
    fun _ _ _ hi _ hs => index_step hi hs

end ScanSystem

/-- In every run the index has each event up to the head that it reports once, and in every run in
which `betRecords` answers for the bets that the cursor leaves behind no bet is skipped. -/
theorem no_bet_skipped (cfg : ScanConfig) (s : ScanSystem cfg.first) :
    ((scanMachine cfg).Run (fun _ _ => True) (.initial cfg) s → IndexExact cfg s) ∧
      ((scanMachine cfg).Run RecordRead (.initial cfg) s → NoBetSkipped s) := by
  refine ⟨fun h hopen => ?_, fun h => (ScanSystem.Ok.of_run h).behind⟩
  exact (ScanSystem.index_of_run h).exact_upTo_head hopen

instance {first : ℕ} (s : ScanSystem first) (r : BetAuthorizedRecord) :
    Decidable (s.Recorded r) := inferInstanceAs (Decidable (_ = true))

instance {first : ℕ} (s : ScanSystem first) : Decidable (NoBetSkipped s) :=
  inferInstanceAs (Decidable (∀ l ∈ s.chain.logs, ∀ r ∈ l.record?, _ → _ → _))

instance {first : ℕ} (s : ScanSystem first) (a : ScanAction) : Decidable (RecordRead s a) := by
  unfold RecordRead
  split
  · split <;> infer_instance
  · infer_instance

def sampleScanConfig : ScanConfig := ⟨⟨⟨1, 3, 5000⟩, 10000⟩, 1, 5000, 9000, 100000⟩

def pollChain : List ScanAction :=
  [.poll, .indexHead false, .blockNumber true, .queryFilter fun _ _ _ => none]

/-- A bet is mined, and ten blocks later the relay indexes it and a scan does not get its record.
The next scan gets it, rejects the bet, and its FAILED is stored; a later one finds that. -/
def readAgain : List ScanAction :=
  [.mine 0 [(0, .betAuthorized sampleLog)] fun _ => true, .mine 9 [] fun _ => true,
    .index (.restart true), .index (.blockNumber (some 11)), .index (.logs true fun _ _ _ => none),
    .index .insert, .index .moveCursor]
    ++ pollChain ++ [.record, .confirmed none, .windowDone]
    ++ pollChain
    ++ [.record, .confirmed (some none), .layer (.signed 0 (some "failed")), .windowDone]
    ++ .mine 99 [] (fun _ => true) :: pollChain ++ [.record, .windowDone]

theorem no_bet_skipped_read_again :
    ∃ s, s.lastBlock = 111 ∧ s.index.lastBlock = 8 ∧ IndexExact sampleScanConfig s ∧
      NoBetSkipped s := by
  have hrun : (((scanMachine sampleScanConfig).checkFrom RecordRead (.initial _) readAgain).map
      fun s => (s.lastBlock, s.index.lastBlock)) = some (111, 8) := by
    decide +kernel
  obtain ⟨s, hs, heq⟩ := Option.map_eq_some_iff.mp hrun
  obtain ⟨hlast, hindex⟩ := Prod.mk.inj heq
  have h := Machine.run_of_checkFrom hs
  exact ⟨s, hlast, hindex, (no_bet_skipped _ s).1 (h.mono fun _ _ _ => trivial),
    (no_bet_skipped _ s).2 h⟩

/-- More than a hundred blocks behind the head the record of a bet is not read, and the cursor moves
on. -/
def skippedBet : List ScanAction :=
  [.mine 0 [(0, .betAuthorized sampleLog)] fun _ => true, .mine 100 [] fun _ => true] ++ pollChain
    ++ [.record, .confirmed none, .windowDone]

theorem bet_skipped :
    ∃ s, (scanMachine sampleScanConfig).Run (fun _ _ => True) (.initial _) s ∧
      s.lastBlock = 102 ∧ ¬NoBetSkipped s := by
  have hrun : (((scanMachine sampleScanConfig).runFrom (.initial _) skippedBet).map
      fun s => (s.lastBlock, decide (NoBetSkipped s))) = some (102, false) := by
    decide +kernel
  obtain ⟨s, hs, heq⟩ := Option.map_eq_some_iff.mp hrun
  obtain ⟨hlast, hskipped⟩ := Prod.mk.inj heq
  exact ⟨s, Machine.run_of_runFrom (fun _ _ _ _ => trivial) hs, hlast,
    of_decide_eq_false hskipped⟩

end Polyshield.Signing

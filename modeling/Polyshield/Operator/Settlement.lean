import Polyshield.Lib.Runs
import Polyshield.Vault.Contract

/-!
# The settlement poll

`settlementResolver.ts`, with step 1 of `redemptionPipeline.ts` and `batchUint`
of `multicall.ts`, over the Vault. One action is what a tick does between two
awaits, a transaction that lands on chain, or the passing of time; ticks may
overlap. A read throws or answers truthfully, and a sub-call of a batch fails or
answers truthfully.
-/

namespace Polyshield.Operator

variable {F Proof Sig : Type} [Field F] [DecidableEq F] (E : Env F Proof Sig)

def toFieldSafe (id : ℕ) : ℕ := id % bn254P

structure TrackedMarket where
  reducedKey : ℕ
  rawConditionId : ℕ
  /-- Unix seconds. -/
  endDate : Option ℕ
  reduced : reducedKey = toFieldSafe rawConditionId
  deriving DecidableEq

structure RegistryRow where
  key : ℕ
  conditionId : ℕ
  reduced : key = toFieldSafe conditionId
  deriving DecidableEq

/-! ## Batches -/

inductive UintRead where
  | marketResolvedAt (key : ℕ)
  | payoutDenominator (conditionId : ℕ)
  | payoutNumerators (conditionId i : ℕ)
  deriving DecidableEq

def UintRead.eval (v : VaultState F) : UintRead → ℕ
  | .marketResolvedAt key => (v.marketResolvedAt (key : F)).toNat
  | .payoutDenominator conditionId => v.ctf.payoutDenominator conditionId
  | .payoutNumerators conditionId i => v.ctf.payoutNumerators conditionId i

/-- A call to `batchUint` and what it has read; `none` where the sub-call failed. -/
structure Batch where
  reads : List UintRead
  results : List (Option ℕ)
  deriving DecidableEq

/-- How a batch goes on: `aggregate3` answers every sub-call, or one of the individual calls of the
fallback returns. Which of the two the process uses is left open. -/
inductive BatchAnswer where
  | aggregate (succeeded : List Bool)
  | single (succeeded : Bool)
  deriving DecidableEq

namespace Batch

def start (reads : List UintRead) : Batch := ⟨reads, []⟩

/-- A sub-call that succeeds tells the truth. -/
def result (v : VaultState F) (read : UintRead) (succeeded : Bool) : Option ℕ :=
  if succeeded then some (read.eval v) else none

def answer (v : VaultState F) (b : Batch) : BatchAnswer → Option Batch
  | .aggregate succeeded =>
    if b.results = [] ∧ succeeded.length = b.reads.length then
      some { b with results := List.zipWith (result v) b.reads succeeded }
    else none
  | .single succeeded =>
    match b.reads[b.results.length]? with
    | some read => some { b with results := b.results ++ [result v read succeeded] }
    | none => none

def complete (b : Batch) : Prop := b.results.length = b.reads.length

instance (b : Batch) : Decidable b.complete := inferInstanceAs (Decidable (_ = _))

def values (b : Batch) : List ℕ := b.results.map (·.getD 0)

end Batch

/-! ## The poll -/

/-- A market whose denominator is read. -/
structure Checkable where
  reducedKey : ℕ
  raw : ℕ
  reduced : reducedKey = toFieldSafe raw
  deriving DecidableEq

inductive Stage where
  /-- `provider.getBlockNumber()`. -/
  | blockNumber
  /-- `readNumerators`: the slot count, then the numerators. -/
  | slotCount
  | numerators (b : Batch)
  /-- `registerCondition` is sent; `mined` once it is in a block. -/
  | registering (mined : Bool)
  /-- `runRedemptionPipeline`: `marketResolvedAt`, the numerators again, the denominator. -/
  | resolvedAt
  | pipelineSlotCount (resolvedAt : ℕ)
  | pipelineNumerators (resolvedAt : ℕ) (b : Batch)
  | denominator (resolvedAt : ℕ) (numerators : List ℕ)
  /-- `resolveMarket` is sent. -/
  | resolving (mined : Bool)
  /-- Step 2 of the pipeline. -/
  | redeeming
  deriving DecidableEq

inductive TickTask where
  | resolvedAts (nowMs : ℕ) (eligible : List TrackedMarket) (b : Batch)
  | denominators (nowMs : ℕ) (checkable : List Checkable) (b : Batch)
  | handling (nowMs : ℕ) (m : Checkable) (stage : Stage) (rest : List (Checkable × Option ℕ))
  deriving DecidableEq

structure Backoff where
  key : ℕ
  misses : ℕ
  nextAt : ℕ
  deriving DecidableEq

def resolvedRefreshMs : ℕ := 300000

def seedFreshMs : ℕ := resolvedRefreshMs * 3

def settleBackoffBaseMs : ℕ := 60000

def settleBackoffMaxMs : ℕ := 1800000

structure Resolver (F : Type) where
  vault : VaultState F
  /-- The operator wallet that sends the transactions. -/
  wallet : Address
  tracked : List TrackedMarket
  registry : List RegistryRow
  resolvedMarkets : List ℕ
  /-- `_resolvedSeededAt`. -/
  resolvedSeededAt : ℕ
  settleBackoff : List Backoff
  ticks : List TickTask
  now : ℕ

namespace Resolver

variable {F : Type}

def setVault (s : Resolver F) (vault : VaultState F) : Resolver F := { s with vault := vault }

def addTick (s : Resolver F) (t : TickTask) : Resolver F := { s with ticks := s.ticks ++ [t] }

def dropTick (s : Resolver F) (i : ℕ) : Resolver F := { s with ticks := s.ticks.eraseIdx i }

def addResolved (s : Resolver F) (key : ℕ) : Resolver F :=
  { s with resolvedMarkets := s.resolvedMarkets.insert key }

def deleteBackoff (s : Resolver F) (key : ℕ) : Resolver F :=
  { s with settleBackoff := s.settleBackoff.filter (·.key ≠ key) }

def backoff? (s : Resolver F) (key : ℕ) : Option Backoff := s.settleBackoff.find? (·.key = key)

def backoffMarket (s : Resolver F) (key now : ℕ) : Resolver F :=
  let misses := ((s.backoff? key).map (·.misses)).getD 0 + 1
  let delay := min settleBackoffMaxMs (settleBackoffBaseMs * 2 ^ (misses - 1))
  { s with settleBackoff :=
      s.settleBackoff.filter (·.key ≠ key) ++ [⟨key, misses, now + delay⟩] }

def conditionIdForKey (s : Resolver F) (key : ℕ) : Option RegistryRow :=
  s.registry.find? (·.key = key)

def upsertTrackedMarket (s : Resolver F) (m : TrackedMarket) : Resolver F :=
  let replace (row : TrackedMarket) : TrackedMarket :=
    if row.reducedKey = m.reducedKey then { m with endDate := m.endDate.or row.endDate } else row
  { s with tracked :=
      if s.tracked.any (·.reducedKey = m.reducedKey) then s.tracked.map replace
      else s.tracked ++ [m] }

/-- `syncMarkets` and `syncOneMarket`: a row replaces that of its key. -/
def upsertRegistryRow (s : Resolver F) (row : RegistryRow) : Resolver F :=
  { s with registry :=
      if s.registry.any (·.key = row.key) then
        s.registry.map fun old => if old.key = row.key then row else old
      else s.registry ++ [row] }

/-- Pass 1 of a tick. -/
def isEligible (s : Resolver F) (nowMs : ℕ) (m : TrackedMarket) : Bool :=
  m.reducedKey ∉ s.resolvedMarkets ∧ ¬ m.endDate.any (nowMs / 1000 < ·)
    ∧ ¬ (s.backoff? m.reducedKey).any (nowMs < ·.nextAt)

/-- The raw condition id of a market, from its row or from the registry. -/
def rawFor (s : Resolver F) (m : TrackedMarket) : Checkable :=
  if m.rawConditionId ≠ m.reducedKey then ⟨m.reducedKey, m.rawConditionId, m.reduced⟩
  else
    match s.conditionIdForKey m.reducedKey with
    | some row => ⟨row.key, row.conditionId, row.reduced⟩
    | none => ⟨m.reducedKey, m.rawConditionId, m.reduced⟩

/-- The markets with a usable raw condition id; the others back off. -/
def collect (s : Resolver F) (nowMs : ℕ) : List TrackedMarket → Resolver F × List Checkable
  | [] => (s, [])
  | m :: ms =>
    if (s.rawFor m).raw = m.reducedKey then collect (s.backoffMarket m.reducedKey nowMs) nowMs ms
    else
      let (s', checkable) := collect s nowMs ms
      (s', s.rawFor m :: checkable)

def startDenominators (s : Resolver F) (nowMs : ℕ) (eligible : List TrackedMarket) : Resolver F :=
  let (s, checkable) := s.collect nowMs eligible
  if checkable = [] then s
  else s.addTick (.denominators nowMs checkable
    (Batch.start (checkable.map fun c => .payoutDenominator c.raw)))

def tick (s : Resolver F) : Resolver F :=
  let eligible := s.tracked.filter (s.isEligible s.now)
  let seedFresh := 0 < s.resolvedSeededAt ∧ s.now - s.resolvedSeededAt < seedFreshMs
  if eligible = [] then s
  else if seedFresh then s.startDenominators s.now eligible
  else s.addTick (.resolvedAts s.now eligible
    (Batch.start (eligible.map fun m => .marketResolvedAt m.reducedKey)))

/-- Pass 2: the markets the Vault has resolved are done. -/
def dropResolved (s : Resolver F) :
    List (TrackedMarket × Option ℕ) → Resolver F × List TrackedMarket
  | [] => (s, [])
  | (m, at?) :: ms =>
    if 0 < at?.getD 0 then
      dropResolved ((s.addResolved m.reducedKey).deleteBackoff m.reducedKey) ms
    else
      let (s', eligible) := dropResolved s ms
      (s', m :: eligible)

def loop (s : Resolver F) (nowMs : ℕ) : List (Checkable × Option ℕ) → Resolver F
  | [] => s
  | (m, denom) :: rest =>
    if denom.getD 0 = 0 then loop (s.backoffMarket m.reducedKey nowMs) nowMs rest
    else s.addTick (.handling nowMs m .blockNumber rest)

def settled (s : Resolver F) (nowMs : ℕ) (m : Checkable) (rest : List (Checkable × Option ℕ)) :
    Resolver F :=
  ((s.addResolved m.reducedKey).deleteBackoff m.reducedKey).loop nowMs rest

def settlementFailed (s : Resolver F) (nowMs : ℕ) (m : Checkable)
    (rest : List (Checkable × Option ℕ)) : Resolver F :=
  (s.backoffMarket m.reducedKey nowMs).loop nowMs rest

/-- What `runRedemptionPipeline` does with its reads. -/
def pipeline (s : Resolver F) (nowMs : ℕ) (m : Checkable) (rest : List (Checkable × Option ℕ))
    (resolvedAt : ℕ) (numerators : List ℕ) (denominator : ℕ) : Resolver F :=
  if denominator = 0 then s.settled nowMs m rest
  else if numerators.all (· = 0) then s.settled nowMs m rest
  else if 0 < resolvedAt then s.addTick (.handling nowMs m .redeeming rest)
  else s.addTick (.handling nowMs m (.resolving false) rest)

/-- The first branch of `handleResolution`. -/
def classify (s : Resolver F) (nowMs : ℕ) (m : Checkable) (rest : List (Checkable × Option ℕ))
    (numerators : List ℕ) : Resolver F :=
  if 0 < numerators.length ∧ numerators.all (· = 0) then
    s.addTick (.handling nowMs m (.registering false) rest)
  else s.addTick (.handling nowMs m .resolvedAt rest)

/-- The reads of `readNumerators`. -/
def numeratorReads (raw slotCount : ℕ) : List UintRead :=
  (List.range slotCount).map (.payoutNumerators raw)

end Resolver

def TickTask.batch? : TickTask → Option Batch
  | .resolvedAts _ _ b | .denominators _ _ b | .handling _ _ (.numerators b) _
  | .handling _ _ (.pipelineNumerators _ b) _ => some b
  | _ => none

def TickTask.setBatch (b : Batch) : TickTask → TickTask
  | .resolvedAts nowMs eligible _ => .resolvedAts nowMs eligible b
  | .denominators nowMs checkable _ => .denominators nowMs checkable b
  | .handling nowMs m (.numerators _) rest => .handling nowMs m (.numerators b) rest
  | .handling nowMs m (.pipelineNumerators resolvedAt _) rest =>
    .handling nowMs m (.pipelineNumerators resolvedAt b) rest
  | t => t

namespace Resolver

/-- A tick goes on when its batch is complete. -/
def batchDone (s : Resolver F) (b : Batch) : TickTask → Resolver F
  | .resolvedAts nowMs eligible _ =>
    let (s, eligible) := s.dropResolved (eligible.zip b.results)
    if eligible = [] then s else s.startDenominators nowMs eligible
  | .denominators nowMs checkable _ => s.loop nowMs (checkable.zip b.results)
  | .handling nowMs m (.numerators _) rest => s.classify nowMs m rest b.values
  | .handling nowMs m (.pipelineNumerators resolvedAt _) rest =>
    s.addTick (.handling nowMs m (.denominator resolvedAt b.values) rest)
  | t => s.addTick t

/-- The answer to a single read of a stage; `none` in a stage that waits for something else. -/
def answered (s : Resolver F) (nowMs : ℕ) (m : Checkable) (rest : List (Checkable × Option ℕ)) :
    Stage → Option (Resolver F)
  | .blockNumber => some (s.addTick (.handling nowMs m .slotCount rest))
  | .slotCount =>
    let n := s.vault.ctf.getOutcomeSlotCount m.raw
    some (if n = 0 then s.classify nowMs m rest []
      else s.addTick (.handling nowMs m (.numerators (Batch.start (numeratorReads m.raw n))) rest))
  | .resolvedAt =>
    let resolvedAt := (s.vault.marketResolvedAt ((toFieldSafe m.raw : ℕ) : F)).toNat
    some (s.addTick (.handling nowMs m (.pipelineSlotCount resolvedAt) rest))
  | .pipelineSlotCount resolvedAt =>
    let n := s.vault.ctf.getOutcomeSlotCount m.raw
    some (s.addTick (if n = 0 then .handling nowMs m (.denominator resolvedAt []) rest
      else .handling nowMs m
        (.pipelineNumerators resolvedAt (Batch.start (numeratorReads m.raw n))) rest))
  | .denominator resolvedAt numerators =>
    some (s.pipeline nowMs m rest resolvedAt numerators (s.vault.ctf.payoutDenominator m.raw))
  | _ => none

end Resolver

/-- The report of a condition, which the CTF takes once. -/
def reportPayouts (ctf : Ctf) (conditionId : ℕ) (numerators : List ℕ) (denominator : ℕ) : Ctf where
  payoutNumerators := Function.update ctf.payoutNumerators conditionId fun i => numerators.getD i 0
  payoutDenominator := Function.update ctf.payoutDenominator conditionId denominator
  getOutcomeSlotCount := Function.update ctf.getOutcomeSlotCount conditionId numerators.length

inductive PollAction (F Proof Sig : Type) where
  | tick
  /-- The relay answers with the market ids of its `MarketResolved` index, or is down. -/
  | seeded (ids : Option (List ℕ))
  | batch (i : ℕ) (a : BatchAnswer)
  /-- A read answers, or throws. -/
  | answered (i : ℕ) (ok : Bool)
  /-- The transaction of a tick is mined and succeeds. -/
  | mined (i timestamp : ℕ)
  /-- `send` and `tx.wait` return, or throw. -/
  | returned (i : ℕ) (ok : Bool)
  /-- Step 2 of the pipeline returns, or throws. -/
  | redeemed (i : ℕ) (ok : Bool)
  | vaultCall (m : Msg) (c : Call F Proof Sig)
  | setUsdc (usdc : Usdc)
  | report (conditionId : ℕ) (numerators : List ℕ) (denominator : ℕ)
  | track (m : TrackedMarket)
  | register (row : RegistryRow)
  | pass (ms : ℕ)
  | restart

namespace Resolver

def pending? (m : Checkable) : Stage → Option (Call F Proof Sig × Stage)
  | .registering false => some (.registerCondition m.raw, .registering true)
  | .resolving false => some (.resolveMarket m.raw, .resolving true)
  | _ => none

def clearMemory (s : Resolver F) : Resolver F :=
  { s with
    resolvedMarkets := []
    resolvedSeededAt := 0
    settleBackoff := []
    ticks := [] }

def refreshResolvedFromIndex (s : Resolver F) : Option (List ℕ) → Resolver F
  | none => s
  | some ids =>
    { ids.foldl (fun s id => s.addResolved (toFieldSafe id)) s with resolvedSeededAt := s.now }

/-- An answer of a batch goes into the tick; a complete batch lets the tick go on. -/
def batchAnswered (s : Resolver F) (i : ℕ) (t : TickTask) (b : Batch) : Resolver F :=
  if b.complete then (s.dropTick i).batchDone b t else (s.dropTick i).addTick (t.setBatch b)

end Resolver

open Resolver in
def pollStep (s : Resolver F) : PollAction F Proof Sig → Option (Resolver F)
  | .tick => some s.tick
  | .seeded ids =>
    if (ids.getD []).all fun id => s.vault.marketResolvedAt ((toFieldSafe id : ℕ) : F) ≠ 0 then
      some (s.refreshResolvedFromIndex ids)
    else none
  | .batch i a =>
    match s.ticks[i]? with
    | some t =>
      match t.batch? with
      | some b =>
        match b.answer s.vault a with
        | some b => some (s.batchAnswered i t b)
        | none => none
      | none => none
    | none => none
  | .answered i ok =>
    match s.ticks[i]? with
    | some (.handling nowMs m stage rest) =>
      match (s.dropTick i).answered nowMs m rest stage with
      | some s' => some (if ok then s' else (s.dropTick i).settlementFailed nowMs m rest)
      | none => none
    | _ => none
  | .mined i timestamp =>
    match s.ticks[i]? with
    | some (.handling nowMs m stage rest) =>
      match pending? m stage with
      | some (call, stage') =>
        match exec E ⟨s.wallet, timestamp⟩ s.vault call with
        | .ok vault =>
          if 0 < timestamp ∧ timestamp < 2 ^ 64 then
            some (((s.dropTick i).addTick (.handling nowMs m stage' rest)).setVault vault)
          else none
        | .error _ => none
      | none => none
    | _ => none
  | .returned i ok =>
    match s.ticks[i]? with
    | some (.handling nowMs m (.registering mined) rest) =>
      -- The exception is logged, and `handleResolution` returns.
      if ok = true ∧ mined = false then none else some ((s.dropTick i).settled nowMs m rest)
    | some (.handling nowMs m (.resolving mined) rest) =>
      -- The exception is logged, and the pipeline goes on with step 2.
      if ok = true ∧ mined = false then none
      else some ((s.dropTick i).addTick (.handling nowMs m .redeeming rest))
    | _ => none
  | .redeemed i ok =>
    match s.ticks[i]? with
    | some (.handling nowMs m .redeeming rest) =>
      some (if ok then (s.dropTick i).settled nowMs m rest
        else (s.dropTick i).settlementFailed nowMs m rest)
    | _ => none
  | .vaultCall m c =>
    match exec E m s.vault c with
    | .ok vault => some (s.setVault vault)
    | .error _ => none
  | .setUsdc usdc => some (s.setVault { s.vault with usdc := usdc })
  | .report conditionId numerators denominator =>
    if s.vault.ctf.payoutDenominator conditionId = 0 ∧ numerators ≠ [] then
      some (s.setVault
        { s.vault with ctf := reportPayouts s.vault.ctf conditionId numerators denominator })
    else none
  | .track m => some (s.upsertTrackedMarket m)
  | .register row => some (s.upsertRegistryRow row)
  | .pass ms => some { s with now := s.now + ms }
  | .restart => some s.clearMemory

def settlementPoll : Machine (Resolver F) (PollAction F Proof Sig) := ⟨pollStep E⟩

end Polyshield.Operator

import Polyshield.Lib.Runs
import Polyshield.Signing.Orders

/-!
# Runs of the signing layer

One action is one segment of the process between two awaits, an event at the
CLOB or on the chain, the passing of time, or a restart. The CLOB is the
environment: it decides when it takes a POST, what fills and what it answers,
but it tells no false id, amount or end of an order (`ClobResponse.truthful`,
`answersTruly`, `finalSize?`), and it may answer nothing.
-/

namespace Polyshield.Signing

inductive Action where
  /-- A scan of the event listener, forward or deep, reaches this log. -/
  | handleBetRecord (record : BetAuthorizedRecord)
  /-- `betRecords` answers the listener, or throws. -/
  | confirmed (answer : Option (Option RegistryHit))
  | funded (ok : Bool)
  | prepared (size : Option ℕ)
  | responded (resp : Option ClobResponse)
  | crossed (fee : Option ℕ)
  | limitOrder (nullifier : Hex32) (orderType : OrderType)
  | cancelBet (nullifier : Hex32)
  | closeRequest (req : CloseRequest) (orderType : OrderType)
  /-- The wallet signs, or throws. -/
  | signed (task : ℕ) (signature : Option String)
  | attested (task : ℕ)
  | cancelClient (task : ℕ) (clobClient : Bool)
  /-- The answers of `cancelOrder`, `getOrder` and `getTrades`: whether the cancellation took
  effect, the order's state, and the size that the trade history shows. -/
  | cancelled (task : ℕ) (canceled : Bool) (od : OrderAnswer) (trades : Option ℕ) (spent : ℕ)
  | reconciled (task : ℕ) (od : OrderAnswer) (trades : Option ℕ) (spent : ℕ)
  | marketClient (task : ℕ) (clobClient : Bool)
  | marketQueried (task : ℕ) (od : OrderAnswer) (spent : ℕ)
  | sell (task : ℕ) (clobClient : Bool) (resolved : Option RegistryHit) (bestBid : ℕ)
  | sellResponded (task : ℕ) (resp : Option ClobResponse) (confirmed : Bool) (fee : ℕ)
  | sellCrossed (task : ℕ) (fee : Option ℕ)
  /-- The user channel reports that an order has left the book. -/
  | message (post : ℕ) (withOrderID withAssetId withSize : Bool)
  /-- The periodic reconciliation reaches an order. -/
  | reconcile (order : TrackedOrder)
  /-- The settlement resolver finds the condition finalized. -/
  | marketResolved (conditionId : ℕ)
  | restart
  | clobAccept (post : ℕ) (orderID : OrderId) (live : Bool) (taken : ℕ)
  | clobRefuse (post : ℕ)
  | clobFill (post : ℕ) (amount : ℕ) (asMaker : Bool)
  | clobClose (post : ℕ)
  | authorizeBet (bet : ChainBet)
  | setBetStatus (nullifier : ℕ) (status : BetStatus)
  | tick (ms : ℕ)
  deriving DecidableEq

/-- The response tells no false id and no match that was not made. It may be an error for an order
that was taken, or for one that the CLOB has not decided on yet. -/
def ClobResponse.truthful (r : ClobResponse) (p : Post) : Bool :=
  (r.orderID = none ∨ r.orderID = p.orderID?) ∧ r.filledShares ≤ p.matched

/-- The message for a post off the book, with the fields it carries. -/
def Post.message (p : Post) (withOrderID withAssetId withSize : Bool) : UserChannelMsg where
  orderID := if withOrderID then p.orderID? else none
  assetId := if withAssetId then some p.tokenId else none
  sizeMatched := if withSize then some p.matched else none

namespace SigningLayer

def dropTask (s : SigningLayer) (i : ℕ) : SigningLayer := { s with tasks := s.tasks.eraseIdx i }

/-- What follows the return of `signAndStoreAttestation`. -/
def afterAttest (s : SigningLayer) : AfterAttest → SigningLayer
  | .done => s
  | .listener => s.setListener .idle
  | .untrack o => s.untrack o

def clearMemory (s : SigningLayer) : SigningLayer :=
  { s with
    inFlight := []
    byOrderId := []
    finalized := []
    listener := .idle
    tasks := [] }

def restart (s : SigningLayer) : SigningLayer := s.clearMemory.startFillTracker

def setPost (s : SigningLayer) (i : ℕ) (p : Post) : SigningLayer :=
  { s with posts := s.posts.set i p }

/-- The log is of a bet the Vault recorded. -/
def authentic (s : SigningLayer) (r : BetAuthorizedRecord) : Bool :=
  s.bets.any fun bet =>
    bet.nullifier = r.nullifier.bytes32 ∧ bet.expectedShares = r.expectedShares
      ∧ bet.betAmount = r.betAmount ∧ bet.outcomeSide = r.outcomeSide

end SigningLayer

open SigningLayer in
/-- One action, when it is enabled. -/
def step (s : SigningLayer) : Action → Option SigningLayer
  | .handleBetRecord r =>
    if s.listener = .idle ∧ s.authentic r then some (s.handleBetRecord r) else none
  | .confirmed answer =>
    match s.listener with
    | .confirming r =>
      match answer with
      | some resolved => some (s.confirmed r resolved)
      | none => some (s.setListener .idle)
    | _ => none
  | .funded ok =>
    match s.listener with
    | .funding e t => some (s.funded e t ok)
    | _ => none
  | .prepared size =>
    match s.listener with
    | .preparing e t => some (s.prepared e t size)
    | _ => none
  | .responded resp =>
    match s.listener with
    | .posting e t i =>
      match s.posts[i]? with
      | some p =>
        if resp.all (·.truthful p) then
          match t with
          | .fak => some (s.fakResponded e p.size resp)
          | _ => some (s.limitResponded e t resp)
        else none
      | none => none
    | _ => none
  | .crossed fee =>
    match s.listener with
    | .crossing e t id => some (s.crossed e t id fee)
    | _ => none
  | .limitOrder n t => some (s.recordLimitOrder n t)
  | .cancelBet n => some (s.cancelBet n)
  | .closeRequest req t => some (s.closeRequest req t)
  | .signed i signature =>
    match s.tasks[i]? with
    | some (.signing input after) =>
      match signature with
      | some signature =>
        some (((s.dropTask i).insertAttestation input signature).afterAttest after)
      -- The callers log the exception and go on.
      | none => some ((s.dropTask i).afterAttest after)
    | _ => none
  | .attested i =>
    match s.tasks[i]? with
    | some (.attested after) => some ((s.dropTask i).afterAttest after)
    | _ => none
  | .cancelClient i client =>
    match s.tasks[i]? with
    | some (.cancelClient n) => some ((s.dropTask i).cancelTrackedOrder n client)
    | _ => none
  | .cancelled i canceled od trades spent =>
    match s.tasks[i]? with
    | some (.cancelling o) =>
      if s.answersTruly o canceled od trades then (s.dropTask i).cancelled o od trades spent
      else none
    | _ => none
  | .reconciled i od trades spent =>
    match s.tasks[i]? with
    | some (.reconciling o) =>
      if s.answersTruly o false od trades then (s.dropTask i).reconciled o od trades spent
      else none
    | _ => none
  | .marketClient i client =>
    match s.tasks[i]? with
    | some (.marketClient n sub) => some ((s.dropTask i).reconcileMarketSubmission n sub client)
    | _ => none
  | .marketQueried i od spent =>
    match s.tasks[i]? with
    | some (.marketQuery n id) => (s.dropTask i).marketQueried n id od spent
    | _ => none
  | .sell i client resolved bestBid =>
    match s.tasks[i]? with
    | some (.selling req t) => some ((s.dropTask i).sell req t client resolved bestBid)
    | _ => none
  | .sellResponded i resp confirmed fee =>
    match s.tasks[i]? with
    | some (.sellPosted req t c k price j) =>
      match s.posts[j]?, resp with
      | some _, none => some (s.dropTask i)
      | some p, some r =>
        if r.truthful p then
          match t with
          | .fak => some ((s.dropTask i).marketSold req price r confirmed fee)
          | _ => some ((s.dropTask i).limitSellResponded req t c k r)
        else none
      | none, _ => none
    | _ => none
  | .sellCrossed i fee =>
    match s.tasks[i]? with
    | some (.sellFee req t c k id) =>
      match fee with
      | some fee => some ((s.dropTask i).trackOrder (sellTracked req t c k id fee))
      | none => some (s.dropTask i)
    | _ => none
  | .message i withOrderID withAssetId withSize =>
    match s.posts[i]? with
    | some p =>
      match p.state with
      | .book _ false _ _ => some (s.handleOne (p.message withOrderID withAssetId withSize))
      | _ => none
    | none => none
  | .reconcile o => if o ∈ s.byOrderId then some (s.reconcileOne o) else none
  | .marketResolved conditionId => some (s.cancelOrdersForMarket conditionId)
  | .restart => some s.restart
  | .clobAccept i id live taken =>
    match s.posts[i]? with
    | some p =>
      if p.state = .sent ∧ (∀ q ∈ s.posts, q.orderID? ≠ some id) ∧ taken ≤ p.size then
        some (s.setPost i { p with state := .book id live taken 0 })
      else none
    | none => none
  | .clobRefuse i =>
    match s.posts[i]? with
    | some p => if p.state = .sent then some (s.setPost i { p with state := .refused }) else none
    | none => none
  | .clobFill i amount asMaker =>
    match s.posts[i]? with
    | some p =>
      match p.state with
      | .book id true taken made =>
        if taken + made + amount ≤ p.size then
          let state : PostState :=
            if asMaker then .book id true taken (made + amount)
            else .book id true (taken + amount) made
          some (s.setPost i { p with state })
        else none
      | _ => none
    | none => none
  | .clobClose i =>
    match s.posts[i]? with
    | some p =>
      match p.state with
      | .book id true taken made => some (s.setPost i { p with state := .book id false taken made })
      | _ => none
    | none => none
  | .authorizeBet bet =>
    if s.bets.any fun b => b.nullifier = bet.nullifier then none
    else some { s with bets := s.bets ++ [bet] }
  | .setBetStatus n status =>
    some { s with bets := s.bets.map fun b => if b.nullifier = n then { b with status } else b }
  | .tick ms => some { s with now := s.now + ms }

def machine : Machine SigningLayer Action := ⟨step⟩

end Polyshield.Signing

import Polyshield.Signing.Store
import Polyshield.Vault.Logic

/-!
# The fill tracker

`wsFillTracker.ts`: the resting orders by their CLOB id, the orders finalized in
this process, and the ways an order is finalized: a message of the user channel,
a reconciliation with the CLOB, a cancellation, or the resolution of its market.
-/

namespace Polyshield.Signing

/-- What `getOrder` returned: nothing usable (it threw, or missed an order on the book), nothing
because the order has left the book, an order on the book, or one off the book. -/
inductive OrderAnswer where
  | none
  | purged
  | live
  | terminal
  deriving DecidableEq, Repr

/-- A status that ends an order, with the fields the message happens to carry. -/
structure UserChannelMsg where
  orderID : Option OrderId
  assetId : Option TokenId
  sizeMatched : Option ℕ
  deriving DecidableEq

/-- Conditions are compared modulo the field, since an order may carry the reduced market id. -/
def sameMarket (a b : ℕ) : Bool := a % bn254P = b % bn254P

namespace SigningLayer

/-- A SELL is finished by its SOLD attestation, a BUY by the bet's outcome. -/
def alreadyAttested (s : SigningLayer) (side : Side) (nullifier : Hex32) : Bool :=
  match side with
  | .sell => (getAttestation s.attestations nullifier (some .sold)).isSome
  | .buy => (getAttestation s.attestations nullifier none).isSome

/-- The table keeps one order for each nullifier. -/
def persist (s : SigningLayer) (o : TrackedOrder) : SigningLayer :=
  { s with trackedOrders := s.trackedOrders.filter (fun t => t.nullifier ≠ o.nullifier) ++ [o] }

def unpersist (s : SigningLayer) (nullifier : Hex32) : SigningLayer :=
  { s with trackedOrders := s.trackedOrders.filter fun t => t.nullifier ≠ nullifier }

def getTrackedOrder (s : SigningLayer) (nullifier : Hex32) : Option TrackedOrder :=
  if nullifier ∈ s.finalized then none
  else s.byOrderId.find? fun o => o.nullifier = nullifier

def isOrderTracked (s : SigningLayer) (nullifier : Hex32) : Bool :=
  (s.getTrackedOrder nullifier).isSome

/-- `reconcileOne` up to its await. -/
def reconcileOne (s : SigningLayer) (o : TrackedOrder) : SigningLayer :=
  if o.nullifier ∈ s.finalized then s else s.spawn (.reconciling o)

def setByOrderId (s : SigningLayer) (o : TrackedOrder) : SigningLayer :=
  { s with byOrderId := s.byOrderId.filter (fun t => t.orderID ≠ o.orderID) ++ [o] }

def addFinalized (s : SigningLayer) (nullifier : Hex32) : SigningLayer :=
  { s with finalized := s.finalized ++ [nullifier] }

def trackOrder (s : SigningLayer) (o : TrackedOrder) : SigningLayer :=
  if o.nullifier ∈ s.finalized ∨ s.alreadyAttested o.side o.nullifier then s
  else ((s.persist o).setByOrderId o).reconcileOne o

/-- `finalize` adds the fee of the crossed part to the cost of a BUY and takes it from the proceeds
of a SELL. -/
def adjSpent (o : TrackedOrder) (spent : ℕ) : ℕ :=
  match o.side with
  | .sell => spent - o.takerFeeUsd
  | .buy => spent + o.takerFeeUsd

/-- `finalize` up to its await. -/
def finalize (s : SigningLayer) (o : TrackedOrder) (filled spent : ℕ) : SigningLayer :=
  if o.nullifier ∈ s.finalized then s
  else
    (s.addFinalized o.nullifier).attestTerminal
      ⟨o.nullifier, o.expectedShares, o.betAmount, o.side⟩ filled (adjSpent o spent) (.untrack o)

def untrack (s : SigningLayer) (o : TrackedOrder) : SigningLayer :=
  ({ s with byOrderId := s.byOrderId.filter fun t => t.orderID ≠ o.orderID }).unpersist o.nullifier

/-- The message is matched by order id, and by token when that finds nothing. -/
def findTracked (s : SigningLayer) (m : UserChannelMsg) : Option TrackedOrder :=
  (m.orderID.bind fun id => s.byOrderId.find? fun o => o.orderID = id).or
    (m.assetId.bind fun asset => s.byOrderId.find? fun o => o.tokenId = asset)

def extractFill (m : UserChannelMsg) (o : TrackedOrder) : ℕ × ℕ :=
  match m.sizeMatched with
  | some filled =>
    (filled,
      match o.side with
      | .sell => filled * o.sellLimitPrice / 1000000
      | .buy => filled * o.price / 100000000)
  | none => (0, 0)

/-- A message that reports an order off the book. -/
def handleOne (s : SigningLayer) (m : UserChannelMsg) : SigningLayer :=
  match s.findTracked m with
  | some o => s.finalize o (extractFill m o).1 (extractFill m o).2
  | none => s

/-- What `cancelOrdersForMarket` does with one tracked order. -/
def cancelForMarket (conditionId : ℕ) (s : SigningLayer) (o : TrackedOrder) : SigningLayer :=
  if o.nullifier ∈ s.finalized ∨ ¬sameMarket o.conditionId conditionId then s
  else s.finalize o 0 0

def cancelOrdersForMarket (s : SigningLayer) (conditionId : ℕ) : SigningLayer :=
  s.byOrderId.foldl (cancelForMarket conditionId) s

def postOf (s : SigningLayer) (id : OrderId) : Option Post :=
  s.posts.find? fun p => p.orderID? = some id

/-- The matched size of an order that has left the book. -/
def finalSize? (s : SigningLayer) (id : OrderId) : Option ℕ :=
  (s.postOf id).bind fun p =>
    match p.state with
    | .book _ false taken made => some (taken + made)
    | _ => none

/-- The trade history counts the order where it is a maker. -/
def makerSize (s : SigningLayer) (id : OrderId) : ℕ :=
  match (s.postOf id).map Post.state with
  | some (.book _ _ _ made) => made
  | _ => 0

/-- What the CLOB may answer about an order: a cancellation took effect (`canceled`) and an order is
purged only when it has left the book, an order whose cancellation took effect is not reported live,
and the trade history, which may be truncated, shows no more than the order made. -/
def answersTruly (s : SigningLayer) (o : TrackedOrder) (canceled : Bool) (od : OrderAnswer)
    (trades : Option ℕ) : Bool :=
  (canceled ∨ od = .purged → (s.finalSize? o.orderID).isSome) ∧ (canceled → od ≠ .live)
    ∧ ∀ shown ∈ trades, shown ≤ s.makerSize o.orderID

/-- `reconcileOne` with the answers of `getOrder` and `getTrades`; `none` when `getOrder` cannot
have answered so. -/
def reconciled (s : SigningLayer) (o : TrackedOrder) (od : OrderAnswer) (trades : Option ℕ)
    (spent : ℕ) : Option SigningLayer :=
  match od with
  | .terminal => (s.finalSize? o.orderID).map fun matched => s.finalize o matched spent
  | .live => some s
  | _ =>
    match trades with
    | some filled => some (if 0 < filled then s.finalize o filled spent else s)
    | none => some s

/-- `cancelTrackedOrder` up to the cancellation. -/
def cancelTrackedOrder (s : SigningLayer) (nullifier : Hex32) (clobClient : Bool) : SigningLayer :=
  match s.getTrackedOrder nullifier with
  | none => s
  | some order =>
    if s.alreadyAttested order.side nullifier then s
    else if clobClient then s.spawn (.cancelling order)
    else s.reconcileOne order

/-- `cancelTrackedOrder` with the answers of `getOrder` and `getTrades`; that of `cancelOrder` is
only logged. -/
def cancelled (s : SigningLayer) (o : TrackedOrder) (od : OrderAnswer) (trades : Option ℕ)
    (spent : ℕ) : Option SigningLayer :=
  match od with
  | .terminal => (s.finalSize? o.orderID).map fun matched => s.finalize o matched spent
  | _ =>
    match trades with
    | some filled => some (s.finalize o filled spent)
    | none => some (s.reconcileOne o)

section Answers

variable {s s' : SigningLayer} {o : TrackedOrder} {od : OrderAnswer} {trades : Option ℕ}
  {spent : ℕ}

theorem reconciled_cases (h : s.reconciled o od trades spent = some s') :
    (od = .terminal ∧ ∃ m, s.finalSize? o.orderID = some m ∧ s' = s.finalize o m spent) ∨
      (od ≠ .terminal ∧ od ≠ .live ∧ ∃ m, trades = some m ∧ 0 < m ∧ s' = s.finalize o m spent) ∨
      od ≠ .terminal ∧ s' = s := by
  unfold reconciled at h
  split at h
  · obtain ⟨m, hm, rfl⟩ := Option.map_eq_some_iff.mp h
    exact .inl ⟨rfl, m, hm, rfl⟩
  · exact .inr (.inr ⟨by decide, (Option.some.inj h).symm⟩)
  · rename_i hterminal hlive
    split at h
    · split at h
      · rename_i m hpos
        exact .inr (.inl ⟨hterminal, hlive, m, rfl, hpos, (Option.some.inj h).symm⟩)
      · exact .inr (.inr ⟨hterminal, (Option.some.inj h).symm⟩)
    · exact .inr (.inr ⟨hterminal, (Option.some.inj h).symm⟩)

theorem cancelled_cases (h : s.cancelled o od trades spent = some s') :
    (od = .terminal ∧ ∃ m, s.finalSize? o.orderID = some m ∧ s' = s.finalize o m spent) ∨
      (od ≠ .terminal ∧ ∃ m, trades = some m ∧ s' = s.finalize o m spent) ∨
      od ≠ .terminal ∧ s' = s.reconcileOne o := by
  unfold cancelled at h
  split at h
  · obtain ⟨m, hm, rfl⟩ := Option.map_eq_some_iff.mp h
    exact .inl ⟨rfl, m, hm, rfl⟩
  · rename_i hterminal
    split at h
    · exact .inr (.inl ⟨hterminal, _, rfl, (Option.some.inj h).symm⟩)
    · exact .inr (.inr ⟨hterminal, (Option.some.inj h).symm⟩)

end Answers

/-- What `startFillTracker` does with one row: an attested one is dropped, another is tracked
again. -/
def resumeTracking (s : SigningLayer) (o : TrackedOrder) : SigningLayer :=
  if s.alreadyAttested o.side o.nullifier then
    (s.unpersist o.nullifier).addFinalized o.nullifier
  else s.setByOrderId o

def startFillTracker (s : SigningLayer) : SigningLayer := s.trackedOrders.foldl resumeTracking s

end SigningLayer

end Polyshield.Signing

import Polyshield.Signing.Tracker

/-!
# Submitting orders

`eventListener.ts`, `orderBuilder.ts`, `tokenBinding.ts` and the routes of
`autoSettlement.ts`, against the production CLOB. Each definition is the code
between two awaits; its arguments are what the await returned. A tripped circuit
breaker exits the process, so it is a restart.
-/

namespace Polyshield.Signing

inductive ClobStatus where
  | live
  | matched
  | delayed
  | unmatched
  | killed
  | cancelled
  | other
  deriving DecidableEq, Repr

/-- A response to a POST. `hasAmounts`: it carries matched amounts, else they read as zero;
`notFilled`: its error text says the order was not filled; `rejected`: an HTTP status of 400 or more
or an error text of a refusal. -/
structure ClobResponse where
  orderID : Option OrderId
  status : ClobStatus
  hasAmounts : Bool
  filledShares : ℕ
  notFilled : Bool
  rejected : Bool
  deriving DecidableEq

def ClobResponse.explicitMiss (r : ClobResponse) : Bool :=
  r.status = .unmatched ∨ r.status = .killed ∨ r.status = .cancelled ∨ r.notFilled ∨ r.rejected

/-- The order is resting, matched or delayed. -/
def ClobResponse.accepted (r : ClobResponse) : Bool :=
  r.status = .live ∨ r.status = .matched ∨ r.status = .delayed

/-- A SELL whose fill the response does not tell. -/
def ClobResponse.ambiguous (r : ClobResponse) : Bool :=
  !r.hasAmounts &&
    !(r.status = .unmatched ∨ r.status = .killed ∨ r.status = .cancelled ∨ r.notFilled)

structure RegistryHit where
  tokenId : TokenId
  conditionId : ℕ
  deriving DecidableEq

/-- `decideBuyToken`: the token comes from the registry or the bet is refused. -/
def decideBuyToken (outcomeSide : ℕ) (resolved : Option RegistryHit) : Option RegistryHit :=
  if 1 < outcomeSide then none else resolved

def activeSubmitWindowMs : ℕ := 120000

def staleSubmissionSec : ℕ := 300

/-- `marketSpentWithFee`: a full fill spends the whole stake, a short one its share of it. -/
def marketSpentWithFee (betAmount filled submittedShares : ℕ) : ℕ :=
  if submittedShares ≤ filled + dust then betAmount
  else min (betAmount * filled / submittedShares) betAmount

namespace SigningLayer

def isActivelySubmitting (s : SigningLayer) (nullifier : Hex32) : Bool :=
  match s.inFlight.find? fun entry => entry.1 = nullifier with
  | some (_, started) => s.now - started < activeSubmitWindowMs
  | none => false

def getLimitOrder (s : SigningLayer) (nullifier : Hex32) : Option LimitOrderIntent :=
  s.limitOrders.find? fun intent => intent.nullifier = nullifier

def recordLimitOrder (s : SigningLayer) (nullifier : Hex32) (orderType : OrderType) :
    SigningLayer :=
  { s with
    limitOrders := s.limitOrders.filter (fun intent => intent.nullifier ≠ nullifier)
      ++ [⟨nullifier, orderType⟩] }

def betRecord (s : SigningLayer) (nullifier : Hex32) : Option ChainBet :=
  s.bets.find? fun bet => bet.nullifier = nullifier.bytes32

/-- `handleBetRecord` up to its await. -/
def handleBetRecord (s : SigningLayer) (r : BetAuthorizedRecord) : SigningLayer :=
  if (getAttestation s.attestations r.nullifier none).isSome then s
  else if s.inFlight.any fun entry => entry.1 = r.nullifier then s
  else if s.isOrderTracked r.nullifier then s
  else s.setListener (.confirming r)

def setInFlight (s : SigningLayer) (nullifier : Hex32) : SigningLayer :=
  { s with
    inFlight := s.inFlight.filter (fun entry => entry.1 ≠ nullifier) ++ [(nullifier, s.now)] }

/-- `processBetEvent` up to the funding. -/
def processBetEvent (s : SigningLayer) (r : BetAuthorizedRecord) (resolved : Option RegistryHit) :
    SigningLayer :=
  match decideBuyToken r.outcomeSide resolved with
  | none => (s.attestFailedFor r.nullifier .listener).setListener .attesting
  | some hit =>
    s.setListener (.funding { r with conditionId := hit.conditionId, tokenId := hit.tokenId }
      (((s.getLimitOrder r.nullifier).map LimitOrderIntent.orderType).getD .fak))

/-- `handleBetRecord` once the record is read. -/
def confirmed (s : SigningLayer) (r : BetAuthorizedRecord) (resolved : Option RegistryHit) :
    SigningLayer :=
  if (s.betRecord r.nullifier).isNone then s.setListener .idle
  else (s.setInFlight r.nullifier).processBetEvent r resolved

/-- `submitFAKOrder` and `submitLimitOrder` once the deposit wallet is funded or not. Only a market
order leaves a marker. -/
def funded (s : SigningLayer) (e : BetAuthorizedEvent) (orderType : OrderType) (ok : Bool) :
    SigningLayer :=
  if ok then
    match orderType with
    | .fak =>
      (s.markMarketSubmitting e.nullifier e.conditionId).setListener (.preparing e orderType)
    | _ => s.setListener (.preparing e orderType)
  else (s.attestFailedFor e.nullifier .listener).setListener .attesting

def post (s : SigningLayer) (p : Post) : SigningLayer := { s with posts := s.posts ++ [p] }

/-- The POST of a BUY, or nothing when the client or the sizing failed. -/
def prepared (s : SigningLayer) (e : BetAuthorizedEvent) (orderType : OrderType)
    (size : Option ℕ) : SigningLayer :=
  match size with
  | none => s.setListener .idle
  | some size =>
    (s.post ⟨e.nullifier, .buy, orderType, size, e.tokenId, .sent⟩).setListener
      (.posting e orderType s.posts.length)

/-- The response's order id, if it has one, completes the marker. -/
def recordOrderId (s : SigningLayer) (nullifier : Hex32) : Option OrderId → SigningLayer
  | some orderId => s.setMarketOrderId nullifier orderId
  | none => s

/-- `submitFAKOrder` with the response, or the exception, of its POST. -/
def fakResponded (s : SigningLayer) (e : BetAuthorizedEvent) (submittedShares : ℕ)
    (resp : Option ClobResponse) : SigningLayer :=
  match resp with
  | none => s.setListener .idle
  | some resp =>
    -- A fill that cannot be read is left without an attestation.
    if resp.filledShares = 0 ∧ ¬resp.explicitMiss then
      (s.recordOrderId e.nullifier resp.orderID).setListener .idle
    else
      ((s.recordOrderId e.nullifier resp.orderID).attestTerminal
        ⟨e.nullifier, e.expectedShares, e.betAmount, .buy⟩ resp.filledShares
        (marketSpentWithFee e.betAmount resp.filledShares submittedShares) .listener).setListener
        .attesting

def limitTracked (e : BetAuthorizedEvent) (orderType : OrderType) (orderID : OrderId)
    (takerFeeUsd : ℕ) : TrackedOrder where
  nullifier := e.nullifier
  orderID
  conditionId := e.conditionId
  tokenId := e.tokenId
  expectedShares := e.expectedShares
  betAmount := e.betAmount
  price := e.price
  orderType
  side := .buy
  sellLimitPrice := 0
  takerFeeUsd

/-- `submitLimitOrder` with the response, or the exception, of its POST. -/
def limitResponded (s : SigningLayer) (e : BetAuthorizedEvent) (orderType : OrderType)
    (resp : Option ClobResponse) : SigningLayer :=
  match resp with
  | none => s.setListener .idle
  | some resp =>
    match resp.orderID with
    | none =>
      if resp.accepted then s.setListener .idle
      else (s.attestFailedFor e.nullifier .listener).setListener .attesting
    | some orderID =>
      if 0 < resp.filledShares then s.setListener (.crossing e orderType orderID)
      else (s.trackOrder (limitTracked e orderType orderID 0)).setListener .idle

/-- `submitLimitOrder` once the fee of the crossed part is known, or the client is unavailable. -/
def crossed (s : SigningLayer) (e : BetAuthorizedEvent) (orderType : OrderType)
    (orderID : OrderId) (fee : Option ℕ) : SigningLayer :=
  match fee with
  | none => s.setListener .idle
  | some fee => (s.trackOrder (limitTracked e orderType orderID fee)).setListener .idle

/-- `POST /cancel-bet` up to its first await. -/
def cancelBet (s : SigningLayer) (nullifier : Hex32) : SigningLayer :=
  if (getAttestation s.attestations nullifier none).isSome then s
  else if (s.getTrackedOrder nullifier).isSome then s.spawn (.cancelClient nullifier)
  else if s.isActivelySubmitting nullifier then s
  else
    match s.getMarketSubmission nullifier with
    | some submission => s.spawn (.marketClient nullifier submission)
    | none => s.attestFailedFor nullifier .done

/-- `reconcileMarketSubmission` up to its await. -/
def reconcileMarketSubmission (s : SigningLayer) (nullifier : Hex32)
    (submission : MarketSubmission) (clobClient : Bool) : SigningLayer :=
  if (getAttestation s.attestations nullifier none).isSome then s
  else
    match submission.orderId with
    | none =>
      if staleSubmissionSec < s.now / 1000 - submission.submittedAt then
        s.attestFailedFor nullifier .done
      else s
    | some orderId => if clobClient then s.spawn (.marketQuery nullifier orderId) else s

/-- `reconcileMarketSubmission` with the answer of `getOrder`. -/
def marketQueried (s : SigningLayer) (nullifier : Hex32) (orderId : OrderId) (od : OrderAnswer)
    (spent : ℕ) : Option SigningLayer :=
  match od with
  | .terminal =>
    (s.finalSize? orderId).map fun matched =>
      let record := s.betRecord nullifier
      s.attestTerminal
        ⟨nullifier, (record.map ChainBet.expectedShares).getD 0,
          (record.map ChainBet.betAmount).getD 0, .buy⟩ matched spent .done
  | _ => some s

/-- `POST /close-request`, with the checks of `submitMarketSellOrder` and `submitLimitSellOrder`. -/
def closeRequest (s : SigningLayer) (req : CloseRequest) (orderType : OrderType) : SigningLayer :=
  if req.soldShares = 0 ∨ req.limitPrice = 0 ∨ 1000000 < req.limitPrice then s
  else if (getAttestation s.attestations req.nullifierOfBet (some .sold)).isSome then s
  else if orderType ≠ .fak ∧ s.isOrderTracked req.nullifierOfBet then s
  else s.spawn (.selling req orderType)

/-- The token of a SELL comes from the bet's own record and the registry. -/
def resolveCloseToken (s : SigningLayer) (req : CloseRequest) (resolved : Option RegistryHit) :
    Option RegistryHit :=
  (s.betRecord req.nullifierOfBet).bind fun bet => decideBuyToken bet.outcomeSide resolved

/-- The price of a SELL: a market one crosses the best bid that is not below the floor. -/
def sellPrice (req : CloseRequest) (orderType : OrderType) (bestBid : ℕ) : ℕ :=
  if orderType = .fak ∧ req.limitPrice ≤ bestBid then bestBid else req.limitPrice

/-- The POST of a SELL, or nothing when the client or the token is unavailable. -/
def sell (s : SigningLayer) (req : CloseRequest) (orderType : OrderType) (clobClient : Bool)
    (resolved : Option RegistryHit) (bestBid : ℕ) : SigningLayer :=
  match clobClient, s.resolveCloseToken req resolved with
  | true, some hit =>
    (s.post ⟨req.nullifierOfBet, .sell, orderType, req.soldShares, hit.tokenId, .sent⟩).spawn
      (.sellPosted req orderType hit.conditionId hit.tokenId (sellPrice req orderType bestBid)
        s.posts.length)
  | _, _ => s

/-- `submitMarketSellOrder` with the response to its POST; `confirmed` is the answer of
`confirmSellFilled`. -/
def marketSold (s : SigningLayer) (req : CloseRequest) (price : ℕ) (resp : ClobResponse)
    (confirmed : Bool) (sellFee : ℕ) : SigningLayer :=
  let filledShares :=
    if resp.filledShares = 0 ∧ resp.ambiguous ∧ resp.orderID.isSome ∧ confirmed then req.soldShares
    else resp.filledShares
  s.attestTerminal ⟨req.nullifierOfBet, req.soldShares, 0, .sell⟩ filledShares
    (filledShares * price / 1000000 - sellFee) .done

def sellTracked (req : CloseRequest) (orderType : OrderType) (conditionId : ℕ)
    (tokenId : TokenId) (orderID : OrderId) (takerFeeUsd : ℕ) : TrackedOrder where
  nullifier := req.nullifierOfBet
  orderID
  conditionId
  tokenId
  expectedShares := req.soldShares
  betAmount := 0
  price := 0
  orderType
  side := .sell
  sellLimitPrice := req.limitPrice
  takerFeeUsd

/-- `submitLimitSellOrder` with the response to its POST. -/
def limitSellResponded (s : SigningLayer) (req : CloseRequest) (orderType : OrderType)
    (conditionId : ℕ) (tokenId : TokenId) (resp : ClobResponse) : SigningLayer :=
  match resp.orderID with
  | none => s
  | some orderID =>
    if 0 < resp.filledShares then s.spawn (.sellFee req orderType conditionId tokenId orderID)
    else s.trackOrder (sellTracked req orderType conditionId tokenId orderID 0)

end SigningLayer

end Polyshield.Signing

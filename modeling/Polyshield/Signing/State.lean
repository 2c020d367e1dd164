import Polyshield.Signing.Hex
import Polyshield.Vault.Types

/-!
# State of the signing layer

The SQLite tables (`attestations`, `market_submissions`, `tracked_orders`,
`limit_orders`), the process memory (`inFlight`, `byOrderId`, `finalized`, the
event listener and the procedures suspended at an `await`), and the world around
the process: the order book, which keeps every order that was POSTed to it, the
bets recorded by the Vault, and the clock. A restart of the process keeps the
tables and the world and clears the memory. Share and dollar amounts are the
1e6-scaled integers of the source.
-/

namespace Polyshield.Signing

abbrev OrderId := ℕ

abbrev TokenId := ℕ

inductive ReportType where
  | filled
  | failed
  | partialFill
  | sold
  deriving DecidableEq, Repr

/-- `BET_OUTCOME_TYPES`. -/
def ReportType.isBetOutcome : ReportType → Bool
  | .filled | .failed | .partialFill => true
  | .sold => false

structure AttestationInput where
  nullifierOfBet : Hex32
  reportType : ReportType
  amountA : ℕ
  amountB : ℕ
  deriving DecidableEq

structure Attestation extends AttestationInput where
  signature : String
  deriving DecidableEq

/-- A row of the table `market_submissions`; `submittedAt` is in seconds. -/
structure MarketSubmission where
  nullifier : Hex32
  conditionId : ℕ
  orderId : Option OrderId
  submittedAt : ℕ
  deriving DecidableEq

inductive Side where
  | buy
  | sell
  deriving DecidableEq, Repr

inductive OrderType where
  | fak
  | gtc
  | gtd
  deriving DecidableEq, Repr

structure TrackedOrder where
  nullifier : Hex32
  orderID : OrderId
  conditionId : ℕ
  tokenId : TokenId
  expectedShares : ℕ
  betAmount : ℕ
  price : ℕ
  orderType : OrderType
  side : Side
  sellLimitPrice : ℕ
  takerFeeUsd : ℕ
  deriving DecidableEq

structure LimitOrderIntent where
  nullifier : Hex32
  orderType : OrderType
  deriving DecidableEq

structure BetAuthorizedRecord where
  nullifier : Hex32
  outcomeSide : ℕ
  expectedShares : ℕ
  betAmount : ℕ
  price : ℕ
  lowercase : nullifier.lowercase = true
  deriving DecidableEq

/-- A bet to submit, its market and token already resolved. -/
structure BetAuthorizedEvent extends BetAuthorizedRecord where
  conditionId : ℕ
  tokenId : TokenId
  deriving DecidableEq

structure CloseRequest where
  nullifierOfBet : Hex32
  soldShares : ℕ
  limitPrice : ℕ
  deriving DecidableEq

inductive AfterAttest where
  | done
  | listener
  | untrack (order : TrackedOrder)
  deriving DecidableEq

inductive Task where
  /-- `signAndStoreAttestation`, awaiting `wallet.signTypedData`. -/
  | signing (input : AttestationInput) (after : AfterAttest)
  /-- The awaiter of an attestation that has returned. -/
  | attested (after : AfterAttest)
  /-- `/cancel-bet` with a tracked order, awaiting the CLOB client. -/
  | cancelClient (nullifier : Hex32)
  /-- `cancelTrackedOrder`, awaiting the cancellation and the order's state. -/
  | cancelling (order : TrackedOrder)
  /-- `reconcileOne`, awaiting the order's state. -/
  | reconciling (order : TrackedOrder)
  /-- `/cancel-bet` with a market submission, awaiting the CLOB client. -/
  | marketClient (nullifier : Hex32) (submission : MarketSubmission)
  /-- `reconcileMarketSubmission`, awaiting the bet's record and the order's state. -/
  | marketQuery (nullifier : Hex32) (orderId : OrderId)
  /-- A SELL waiting for the limiter, the token and the price. -/
  | selling (req : CloseRequest) (orderType : OrderType)
  /-- A SELL awaiting the response to its POST. -/
  | sellPosted (req : CloseRequest) (orderType : OrderType) (conditionId : ℕ) (tokenId : TokenId)
      (price : ℕ) (post : ℕ)
  /-- A resting SELL awaiting the fee of its crossed part. -/
  | sellFee (req : CloseRequest) (orderType : OrderType) (conditionId : ℕ) (tokenId : TokenId)
      (orderID : OrderId)
  deriving DecidableEq

/-- Where the event listener is in the record it handles. The `scanning` flag lets one scan run at
a time and a scan awaits each record, so there is at most one. -/
inductive Listener where
  | idle
  /-- Awaiting `vault.betRecords`. -/
  | confirming (record : BetAuthorizedRecord)
  /-- Awaiting `ensureDepositWalletFunded` and the limiter. -/
  | funding (event : BetAuthorizedEvent) (orderType : OrderType)
  /-- Awaiting the CLOB client and the sizing of the order. -/
  | preparing (event : BetAuthorizedEvent) (orderType : OrderType)
  /-- Awaiting the response to the POST. -/
  | posting (event : BetAuthorizedEvent) (orderType : OrderType) (post : ℕ)
  /-- Awaiting the fee of the crossed part of a resting order. -/
  | crossing (event : BetAuthorizedEvent) (orderType : OrderType) (orderID : OrderId)
  /-- Awaiting the attestation. -/
  | attesting
  deriving DecidableEq

/-- What became of a POST at the CLOB. `taken` is filled as the taker and `made` as a
maker. -/
inductive PostState where
  | sent
  | refused
  | book (orderID : OrderId) (live : Bool) (taken made : ℕ)
  deriving DecidableEq

/-- A POST of an order, with the bet it was made for. -/
structure Post where
  nullifier : Hex32
  side : Side
  orderType : OrderType
  size : ℕ
  tokenId : TokenId
  state : PostState
  deriving DecidableEq

def Post.matched (p : Post) : ℕ :=
  match p.state with
  | .book _ _ taken made => taken + made
  | _ => 0

def Post.orderID? (p : Post) : Option OrderId :=
  match p.state with
  | .book id _ _ _ => some id
  | _ => none

def Post.accepted (p : Post) : Bool := p.orderID?.isSome

/-- An entry of the Vault's `betRecords`, by the `bytes32` of its nullifier. -/
structure ChainBet where
  nullifier : ℕ
  expectedShares : ℕ
  betAmount : ℕ
  outcomeSide : ℕ
  status : BetStatus
  deriving DecidableEq

def ChainBet.terminallyCredited (b : ChainBet) : Bool :=
  b.status = .credited ∨ b.status = .cancelledCredited ∨ b.status = .closedCredited

structure SigningLayer where
  attestations : List Attestation
  marketSubmissions : List MarketSubmission
  trackedOrders : List TrackedOrder
  limitOrders : List LimitOrderIntent
  inFlight : List (Hex32 × ℕ)
  byOrderId : List TrackedOrder
  finalized : List Hex32
  listener : Listener
  tasks : List Task
  posts : List Post
  bets : List ChainBet
  now : ℕ
  deriving DecidableEq

def SigningLayer.initial : SigningLayer where
  attestations := []
  marketSubmissions := []
  trackedOrders := []
  limitOrders := []
  inFlight := []
  byOrderId := []
  finalized := []
  listener := .idle
  tasks := []
  posts := []
  bets := []
  now := 0

end Polyshield.Signing

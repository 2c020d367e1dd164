import Mathlib.Data.List.DropRight
import Polyshield.Lib.EcmaText
import Polyshield.Operator.Settlement
import Polyshield.Signing.Hex

/-!
# The market registry and the token of an order

`marketRegistry.ts`, `tokenBinding.ts` and the parts of `eventListener.ts` and
`orderBuilder.ts` that choose the token. Gamma's JSON arrays are given parsed; a
`bytes32` is its value.
-/

namespace Polyshield.Markets

open Polyshield.Operator (toFieldSafe)
open Polyshield.Signing (hexDigit?)

abbrev Text := List Char

/-- `BigInt` of a text that starts with `0x`; `none` is a `SyntaxError`. White space at the end is
dropped. -/
def bigInt (t : Text) : Option ℕ :=
  let digits := (t.drop 2).rdropWhile isWhiteSpace
  if digits = [] then none
  else digits.foldlM (fun acc c => (hexDigit? c).map (16 * acc + ·)) 0

structure GammaMarket where
  conditionId : Option Text
  outcomes : List Text
  clobTokenIds : List Text
  enableOrderBook : Bool
  deriving DecidableEq

def binaryPairs : List (Text × Text) :=
  [(['y', 'e', 's'], ['n', 'o']), (['u', 'p'], ['d', 'o', 'w', 'n'])]

/-- The places of the names of a pair, if both occur. -/
def placesOf (lc : List Text) (pair : Text × Text) : Option ((Text × Text) × ℕ × ℕ) :=
  match lc.idxOf? pair.1, lc.idxOf? pair.2 with
  | some yi, some ni => some (pair, yi, ni)
  | _, _ => none

/-- The first pair whose names both occur, with the places of its names. -/
def canonicalPair (lc : List Text) : Option ((Text × Text) × ℕ × ℕ) :=
  binaryPairs.findSome? (placesOf lc)

/-- The places of side 0 and side 1: the order of the list, unless a canonical pair occurs. -/
def sideIndices (lc : List Text) : ℕ × ℕ := ((canonicalPair lc).map Prod.snd).getD (0, 1)

/-- A row of `market_registry`. -/
structure MarketRow where
  marketIdField : ℕ
  conditionId : Text
  yesTokenId : Text
  noTokenId : Text
  deriving DecidableEq

def GammaMarket.cid (m : GammaMarket) : Text := toLowerCase (m.conditionId.getD [])

/-- `tokens[i]`, when it is not empty. -/
def GammaMarket.token (m : GammaMarket) (i : ℕ) : Option Text :=
  m.clobTokenIds[i]?.filter fun t => t ≠ []

/-- The row with the tokens at these places; the error is the one of `BigInt`. -/
def rowAt (m : GammaMarket) (sides : ℕ × ℕ) : Except Unit (Option MarketRow) :=
  match m.token sides.1, m.token sides.2, bigInt m.cid with
  | some yes, some no, some id => .ok (some ⟨toFieldSafe id, m.cid, yes, no⟩)
  | some _, some _, none => .error ()
  | _, _, _ => .ok none

def toRow (m : GammaMarket) : Except Unit (Option MarketRow) :=
  if !(['0', 'x'].isPrefixOf m.cid) || utf16Length m.cid ≠ 66 then .ok none
  else if !m.enableOrderBook then .ok none
  else if m.outcomes.length ≠ 2 then .ok none
  else rowAt m (sideIndices (m.outcomes.map toLowerCase))

abbrev MarketRegistry := List MarketRow

/-- `INSERT … ON CONFLICT(market_id_field) DO UPDATE`. -/
def upsert (reg : MarketRegistry) (row : MarketRow) : MarketRegistry :=
  reg.filter (fun r => r.marketIdField ≠ row.marketIdField) ++ [row]

inductive GammaAnswer where
  /-- A page of `syncPages`. -/
  | page (data : List GammaMarket)
  /-- The answer to `syncOneMarket`. -/
  | one (conditionId : Text) (data : List GammaMarket)

/-- `/^0x[0-9a-fA-F]{64}$/`. -/
def isConditionId (cid : Text) : Bool :=
  ['0', 'x'].isPrefixOf cid && (cid.drop 2).length = 64
    && (cid.drop 2).all fun c => (hexDigit? c).isSome

/-- The rows of a page are written in one transaction; a row that throws ends the pass before it. -/
def syncPage (reg : MarketRegistry) (data : List GammaMarket) : MarketRegistry :=
  match data.mapM toRow with
  | .ok rows => (rows.filterMap id).foldl upsert reg
  | .error _ => reg

def syncOneMarket (reg : MarketRegistry) (conditionId : Text) (data : List GammaMarket) :
    MarketRegistry :=
  if !isConditionId (toLowerCase conditionId) then reg
  else
    match data.mapM toRow with
    | .ok rows => ((rows.filterMap id).take 1).foldl upsert reg
    | .error _ => reg

def sync (reg : MarketRegistry) : GammaAnswer → MarketRegistry
  | .page data => syncPage reg data
  | .one conditionId data => syncOneMarket reg conditionId data

/-- The registry after a sequence of answers. -/
def registryAfter (answers : List GammaAnswer) : MarketRegistry := answers.foldl sync []

structure RegistryHit where
  tokenId : Text
  conditionId : Text
  deriving DecidableEq

def resolveToken (reg : MarketRegistry) (marketIdField outcomeSide : ℕ) : Option RegistryHit :=
  match reg.find? fun r => r.marketIdField = marketIdField with
  | none => none
  | some row =>
    let tokenId := if outcomeSide = 0 then row.yesTokenId else row.noTokenId
    if tokenId = [] then none else some ⟨tokenId, row.conditionId⟩

/-! ## The policy of `tokenBinding.ts` -/

inductive TokenSource where
  | registry
  | mockOnchain
  deriving DecidableEq

inductive RejectReason where
  | outcomeSideOutOfRange
  | marketNotInRegistry
  deriving DecidableEq

inductive BuyDecision where
  | trade (tokenId conditionId : Text) (source : TokenSource)
  | reject (reason : RejectReason)
  deriving DecidableEq

def isMockClobHost (host : Option Text) : Bool :=
  match host with
  | none => false
  | some h =>
    decide (['l', 'o', 'c', 'a', 'l', 'h', 'o', 's', 't'] <:+: h)
      || decide (['1', '2', '7', '.', '0', '.', '0', '.', '1'] <:+: h)

/-- A `bytes32` as `ethers` spells it. -/
def hexText (n : ℕ) : Text :=
  '0' :: 'x' :: (List.replicate (64 - (Nat.toDigits 16 n).length) '0' ++ Nat.toDigits 16 n)

/-- What a bet says of its market and side, all of it chosen by the bettor. -/
structure OnChainBet where
  marketId : ℕ
  positionId : ℕ
  outcomeSide : ℕ
  deriving DecidableEq

def decideBuyToken (bet : OnChainBet) (resolved : Option RegistryHit) (mock : Bool) :
    BuyDecision :=
  if 1 < bet.outcomeSide then .reject .outcomeSideOutOfRange
  else
    match resolved with
    | some hit =>
      if hit.tokenId ≠ [] then .trade hit.tokenId hit.conditionId .registry
      else if mock then .trade (hexText bet.positionId) (hexText bet.marketId) .mockOnchain
      else .reject .marketNotInRegistry
    | none =>
      if mock then .trade (hexText bet.positionId) (hexText bet.marketId) .mockOnchain
      else .reject .marketNotInRegistry

structure CloseRequest where
  nullifierOfBet : ℕ
  positionId : Text
  soldShares : ℕ
  limitPrice : ℕ
  deriving DecidableEq

/-- `decideCloseToken`; the error is an `UnboundTokenError`. -/
def decideCloseToken (requestPositionId : Text) (outcomeSide : Option ℕ)
    (resolved : Option RegistryHit) (mock : Bool) : Except RejectReason RegistryHit :=
  if outcomeSide.any (1 < ·) then .error .outcomeSideOutOfRange
  else
    match resolved with
    | some hit =>
      if hit.tokenId ≠ [] then .ok hit
      else if mock then .ok ⟨requestPositionId, []⟩
      else .error .marketNotInRegistry
    | none => if mock then .ok ⟨requestPositionId, []⟩ else .error .marketNotInRegistry

/-! ## The two paths -/

/-- What the registry answers; a read that throws is a miss. -/
def readToken (reg : MarketRegistry) (readable : Bool) (bet : OnChainBet) : Option RegistryHit :=
  if readable then resolveToken reg bet.marketId bet.outcomeSide else none

/-- The token `processBetEvent` submits a BUY for. -/
def buyToken (host : Option Text) (reg : MarketRegistry) (readable : Bool) (bet : OnChainBet) :
    Option Text :=
  match decideBuyToken bet (readToken reg readable bet) (isMockClobHost host) with
  | .trade tokenId _ _ => some tokenId
  | .reject _ => none

/-- The token a SELL is submitted for (`resolveCloseToken`); `record` is the bet's record, if the
read of it did not throw. -/
def closeToken (host : Option Text) (reg : MarketRegistry) (readable : Bool)
    (record : Option OnChainBet) (req : CloseRequest) : Option Text :=
  match decideCloseToken req.positionId (record.map OnChainBet.outcomeSide)
    (record.bind (readToken reg readable)) (isMockClobHost host) with
  | .ok hit => some hit.tokenId
  | .error _ => none

end Polyshield.Markets

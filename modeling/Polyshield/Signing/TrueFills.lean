import Polyshield.Signing.FillPaths

/-!
# Whether the attested fill is the true one

The CLOB as a ledger of trades, in which an order takes on submission and makes
while it rests, the truthful answers that it gives once the order has left the
book, and on each path the fill that `attestTerminal` gets for them. Shares and
USDC have six decimals, so that a match is of whole micro-units of both.
-/

namespace Polyshield.Signing

open FloatRounding FloatRounding.Format

/-! ## The ledger -/

/-- What an order got in one match, and for how much. -/
structure OrderMatch where
  shares : ℕ
  usdc : ℕ
  pos : 0 < shares

structure LedgerTrade where
  takerOrder : OrderId
  taken : OrderMatch
  makers : List (OrderId × OrderMatch)

def sharesOf (ms : List OrderMatch) : ℕ := (ms.map OrderMatch.shares).sum

def usdcOf (ms : List OrderMatch) : ℕ := (ms.map OrderMatch.usdc).sum

section Ledger

variable (ledger : List LedgerTrade) (id : OrderId)

def takenBy : List OrderMatch := (ledger.filter fun t => t.takerOrder = id).map LedgerTrade.taken

def madeBy : List OrderMatch :=
  ((ledger.flatMap LedgerTrade.makers).filter fun m => m.1 = id).map Prod.snd

def matchesOf : List OrderMatch := takenBy ledger id ++ madeBy ledger id

end Ledger

/-- No match is at a price below the limit, which is 1e6-scaled. -/
def SoldAtLimit (limit : ℕ) (ms : List OrderMatch) : Prop :=
  ∀ m ∈ ms, m.shares * limit ≤ m.usdc * 1000000

instance (limit : ℕ) (ms : List OrderMatch) : Decidable (SoldAtLimit limit ms) :=
  inferInstanceAs (Decidable (∀ m ∈ ms, _))

theorem sharesOf_append (as bs : List OrderMatch) :
    sharesOf (as ++ bs) = sharesOf as + sharesOf bs := by
  simp [sharesOf]

theorem usdcOf_append (as bs : List OrderMatch) : usdcOf (as ++ bs) = usdcOf as + usdcOf bs := by
  simp [usdcOf]

theorem SoldAtLimit.sum_le {limit : ℕ} {ms : List OrderMatch} (h : SoldAtLimit limit ms) :
    sharesOf ms * limit ≤ usdcOf ms * 1000000 := by
  induction ms with
  | nil => simp [sharesOf, usdcOf]
  | cons m ms ih =>
    have hm := h m List.mem_cons_self
    have hms := ih fun x hx => h x (List.mem_cons_of_mem _ hx)
    simp only [sharesOf, usdcOf, List.map_cons, List.sum_cons, add_mul] at hms ⊢
    exact Nat.add_le_add hm hms

/-- At the limit the whole fill brings no more than it brought. -/
theorem SoldAtLimit.div_le {limit : ℕ} {ms : List OrderMatch} (h : SoldAtLimit limit ms) :
    sharesOf ms * limit / 1000000 ≤ usdcOf ms :=
  Nat.div_le_of_le_mul ((mul_comm _ _).trans_ge h.sum_le)

/-- Doubles hold what the order matched to less than half a micro-unit, and so do their sums. -/
def HeldByDoubles (ms : List OrderMatch) : Prop :=
  (sharesOf ms + usdcOf ms) * (ms.length + 4) < 2 ^ 50

instance (ms : List OrderMatch) : Decidable (HeldByDoubles ms) :=
  inferInstanceAs (Decidable (_ < _))

/-! ## What the CLOB answers -/

def inMicro (x : ℚ≥0) : ℚ≥0 := x * micro

def ofMicro (n : ℕ) : ℚ≥0 := n / micro

/-- A trade as `getTrades` answers it. -/
structure ClobTrade where
  takerOrderId : OrderId
  size : Option ℚ≥0
  makerOrders : List MakerOrder

def makerAnswer (m : OrderId × OrderMatch) : MakerOrder :=
  ⟨m.1, some (ofMicro m.2.shares), some (m.2.usdc / m.2.shares)⟩

def LedgerTrade.answer (t : LedgerTrade) : ClobTrade where
  takerOrderId := t.takerOrder
  size := some (ofMicro t.taken.shares)
  makerOrders := t.makers.map makerAnswer

def getTrades (ledger : List LedgerTrade) : List ClobTrade := ledger.map LedgerTrade.answer

/-- The entries that `confirmFillViaTrades` goes through. -/
def makerEntries (trades : List ClobTrade) : List MakerOrder := trades.flatMap ClobTrade.makerOrders

/-- The status of `getOrder` that `confirmSellFilled` tells apart. -/
inductive SellStatus where
  /-- `MATCHED` or `FILLED`. -/
  | filled
  /-- `CANCELED`, `CANCELLED`, `KILLED` or `UNMATCHED`. -/
  | killed
  | other
  deriving DecidableEq

/-- One round of `confirmSellFilled`: the answers of `getOrder` and of `getTrades`, `none` where it
is not asked, fails or is empty. -/
structure SellPoll where
  order : Option (SellStatus × Option ℚ≥0)
  trades : Option (List ClobTrade)

/-- One trade in the loop of `confirmSellFilled`, of the order as the taker or a maker. -/
def addTrade (orderID : OrderId) (shares : ℚ≥0) (t : ClobTrade) : ℚ≥0 :=
  (t.makerOrders.filter fun m => m.orderId = orderID).foldl (fun shares m => plus shares m.matched)
    (if t.takerOrderId = orderID then plus shares (number (t.size.getD 0)) else shares)

/-- The size that `confirmSellFilled` sums up. -/
def confirmedSize (orderID : OrderId) (trades : List ClobTrade) : ℚ≥0 :=
  trades.foldl (addTrade orderID) 0

/-- `tol`. -/
def sellTolerance (sizeShares : ℕ) : ℚ≥0 :=
  times (divide (number sizeShares) micro) (number (999 / 1000))

/-- `confirmSellFilled`, with the rounds up to its deadline. -/
def confirmSellFilled (orderID : OrderId) (sizeShares : ℕ) : List SellPoll → Bool
  | [] => false
  | poll :: polls =>
    if poll.order.any fun od =>
        od.1 = .filled ∧ sellTolerance sizeShares ≤ number (od.2.getD 0) then true
    else if poll.order.any fun od => od.1 = .killed then false
    else if poll.trades.any fun trades =>
      sellTolerance sizeShares ≤ confirmedSize orderID trades then true
    else confirmSellFilled orderID sizeShares polls

/-! ## Truthful answers -/

/-- Matched amounts are those of the immediate match. The mock answers in micro-units, and always
answers a match. -/
def MatchedAmounts.Tells (side : Side) (mock : Bool) (ms : List OrderMatch) :
    MatchedAmounts → Prop
  | .scaled filledShares spentAmount =>
    mock = true ∧ filledShares = sharesOf ms ∧ spentAmount = usdcOf ms
  | .decimal takingAmount makingAmount => mock = false ∧
    match side with
    | .buy =>
      inMicro (takingAmount.getD 0) = sharesOf ms ∧ inMicro (makingAmount.getD 0) = usdcOf ms
    | .sell =>
      inMicro (makingAmount.getD 0) = sharesOf ms ∧ inMicro (takingAmount.getD 0) = usdcOf ms
  | .sizeMatched size => mock = false ∧ inMicro size = sharesOf ms
  | .missing => mock = true → sharesOf ms = 0

/-- `getOrder` answers the final size, and for a SELL its limit. -/
def ClobOrder.Tells (o : TrackedOrder) (ms : List OrderMatch) (od : ClobOrder) : Prop :=
  inMicro (od.sizeMatched.getD 0) = sharesOf ms ∧
    (o.side = .sell → od.price = some (ofMicro o.sellLimitPrice))

/-- A terminal message carries the cumulative size, and the trade history is complete. -/
def TrackedRead.Tells (o : TrackedOrder) (ledger : List LedgerTrade) : TrackedRead → Prop
  | .scaled filledShares spentAmount =>
    filledShares = sharesOf (matchesOf ledger o.orderID) ∧
      spentAmount = usdcOf (matchesOf ledger o.orderID)
  | .sizeMatched size => inMicro size = sharesOf (matchesOf ledger o.orderID)
  | .noSize => False
  | .cancelled od => od.Tells o (matchesOf ledger o.orderID)
  | .reconciled od => od.Tells o (matchesOf ledger o.orderID)
  | .cancelledTrades trades => trades = makerEntries (getTrades ledger)
  | .reconciledTrades trades => trades = makerEntries (getTrades ledger)
  | .mockOrder filledShares spentAmount =>
    filledShares.getD 0 = sharesOf (matchesOf ledger o.orderID) ∧
      spentAmount.getD 0 = usdcOf (matchesOf ledger o.orderID)
  | .marketResolved => True

def SellPoll.Tells (ledger : List LedgerTrade) (orderID : OrderId) (poll : SellPoll) : Prop :=
  (∀ od ∈ poll.order, inMicro (od.2.getD 0) = sharesOf (matchesOf ledger orderID)) ∧
    ∀ trades ∈ poll.trades, trades = getTrades ledger

/-- The answers on a path are true of the order `orderID`, which has left the book: what the CLOB
tells is in the ledger, a FAK order does not rest, and a SELL is not matched below its limit, nor
for more than its size. `polls` are the rounds of `confirmSellFilled`. -/
def FillPath.Truthful (e : BetAuthorizedEvent) (ledger : List LedgerTrade) (orderID : OrderId)
    (polls : List SellPoll) : FillPath → Prop
  | .market size resp explicitMiss =>
    madeBy ledger orderID = [] ∧ resp.Tells .buy size.isNone (takenBy ledger orderID) ∧
      (explicitMiss = true → resp = .missing → sharesOf (takenBy ledger orderID) = 0)
  | .reconcileMarket od => inMicro (od.sizeMatched.getD 0) = sharesOf (matchesOf ledger orderID)
  | .limit orderType id takerFeeUsd r =>
    id = orderID ∧ r.Tells (SigningLayer.limitTracked e orderType id takerFeeUsd) ledger
  | .marketClose req mock resp confirmed sellPrice _ =>
    madeBy ledger orderID = [] ∧ resp.Tells .sell mock (takenBy ledger orderID) ∧
      SoldAtLimit sellPrice (takenBy ledger orderID) ∧
      sharesOf (takenBy ledger orderID) ≤ req.soldShares ∧
      (∀ poll ∈ polls, poll.Tells ledger orderID) ∧
      confirmed = confirmSellFilled orderID req.soldShares polls
  | .limitClose req orderType conditionId tokenId id takerFeeUsd r =>
    id = orderID ∧ SoldAtLimit req.limitPrice (matchesOf ledger orderID) ∧
      r.Tells (SigningLayer.sellTracked req orderType conditionId tokenId id takerFeeUsd) ledger

/-! ## A fill that is true -/

/-- The shares are those matched, up to the dust, and none only if there are none; the proceeds of a
SELL are no more than it brought, and no less than at its limit, without the fee. -/
structure TrueFill (ms : List OrderMatch) (limit fee : ℕ) (f : Fill) : Prop where
  shares_le : f.filledShares ≤ sharesOf ms + dust
  le_shares : sharesOf ms ≤ f.filledShares + dust
  zero : f.filledShares = 0 → sharesOf ms = 0
  proceeds : f.bet.side = .sell →
    sharesOf ms * limit / 1000000 - fee ≤ f.spentAmount ∧ f.spentAmount ≤ usdcOf ms

def FillPath.limitPrice : FillPath → ℕ
  | .marketClose _ _ _ _ sellPrice _ => sellPrice
  | .limitClose req .. => req.limitPrice
  | _ => 0

def FillPath.takerFee : FillPath → ℕ
  | .limit _ _ takerFeeUsd _ => takerFeeUsd
  | .marketClose _ _ _ _ _ sellFee => sellFee
  | .limitClose _ _ _ _ _ takerFeeUsd _ => takerFeeUsd
  | _ => 0

def FillPath.AttestsTrueFill (e : BetAuthorizedEvent) (ledger : List LedgerTrade)
    (orderID : OrderId) (p : FillPath) : Prop :=
  ∀ f, p.fill e = some f → TrueFill (matchesOf ledger orderID) p.limitPrice p.takerFee f

/-- The floor keeps the size, or the micro-unit that it loses is worth nothing at the limit. -/
def FloorKeeps (size : ℚ≥0) (shares limit fee : ℕ) : Prop :=
  (shares : ℚ≥0) ≤ times (number size) micro ∨
    shares * limit / 1000000 - fee ≤ (shares - 1) * limit / 1000000 - fee

/-- A size that is floored keeps its worth. The trade history tells all but the dust of the fill,
and enough of its proceeds: there is little that the order took. A resolved market finds an order
without a fill. -/
def TrackedRead.Suffices (taken made : List OrderMatch) (limit fee : ℕ) : TrackedRead → Prop
  | .sizeMatched size => FloorKeeps size (sharesOf (taken ++ made)) limit fee
  | .cancelledTrades _ => sharesOf taken ≤ dust ∧ (sharesOf made = 0 → sharesOf taken = 0) ∧
      sharesOf (taken ++ made) * limit / 1000000 - fee ≤ usdcOf made - fee
  | .reconciledTrades _ => sharesOf made ≠ 0 → sharesOf taken ≤ dust ∧
      sharesOf (taken ++ made) * limit / 1000000 - fee ≤ usdcOf made - fee
  | .marketResolved => sharesOf taken + sharesOf made = 0
  | _ => True

/-- Some round tells a size within the tolerance before one tells that the order was killed. -/
def ToldInTime (orderID : OrderId) (sizeShares : ℕ) : List SellPoll → Prop
  | [] => False
  | poll :: polls =>
    (∃ od ∈ poll.order, od.1 = .filled ∧ sellTolerance sizeShares ≤ number (od.2.getD 0)) ∨
    (∀ od ∈ poll.order, od.1 ≠ .killed) ∧
      ((∃ trades ∈ poll.trades, sellTolerance sizeShares ≤ confirmedSize orderID trades) ∨
        ToldInTime orderID sizeShares polls)

instance decidableToldInTime (orderID : OrderId) (sizeShares : ℕ) :
    (polls : List SellPoll) → Decidable (ToldInTime orderID sizeShares polls)
  | [] => inferInstanceAs (Decidable False)
  | poll :: polls =>
    have := decidableToldInTime orderID sizeShares polls
    inferInstanceAs (Decidable ((∃ od ∈ poll.order, _) ∨ _ ∧
      ((∃ trades ∈ poll.trades, _) ∨ ToldInTime orderID sizeShares polls)))

/-- Where the response to a market close has no amounts, either nearly the whole of it is told, and
the whole of it would bring no more, or it was not matched. -/
def MatchedAmounts.Suffices (ms : List OrderMatch) (requested sellPrice sellFee : ℕ) (told : Prop)
    [Decidable told] : MatchedAmounts → Prop
  | .sizeMatched size => FloorKeeps size (sharesOf ms) sellPrice sellFee
  | .missing =>
    if told then
      requested ≤ sharesOf ms + dust ∧ requested * sellPrice / 1000000 - sellFee ≤ usdcOf ms
    else sharesOf ms = 0
  | _ => True

/-- The answers of the path suffice. -/
def FillPath.Suffices (ledger : List LedgerTrade) (orderID : OrderId) (polls : List SellPoll) :
    FillPath → Prop
  | .limit _ _ takerFeeUsd r =>
    r.Suffices (takenBy ledger orderID) (madeBy ledger orderID) 0 takerFeeUsd
  | .marketClose req _ resp _ sellPrice sellFee => req.Accepted →
    resp.Suffices (takenBy ledger orderID) req.soldShares sellPrice sellFee
      (ToldInTime orderID req.soldShares polls)
  | .limitClose req _ _ _ _ takerFeeUsd r => req.Accepted →
    r.Suffices (takenBy ledger orderID) (madeBy ledger orderID) req.limitPrice takerFeeUsd
  | _ => True

/-! ## The doubles of the answers -/

/-- A number is zero, or far from the smallest doubles. -/
def Held (x : ℚ≥0) : Prop := x = 0 ∨ half ^ 1020 ≤ x

theorem half_pow : half ^ 1020 = (2 : ℚ≥0) ^ (-1020 : ℤ) := by
  rw [half, one_div, inv_pow, zpow_neg]
  norm_cast

theorem held_div (n : ℕ) {d : ℕ} (hd : d ≤ 2 ^ 100) : Held (n / d : ℚ≥0) := by
  obtain rfl | hn := n.eq_zero_or_pos
  · left
    simp
  obtain rfl | hpos := d.eq_zero_or_pos
  · left
    simp
  right
  rw [le_div_iff₀ (by exact_mod_cast hpos), half_pow]
  calc (2 : ℚ≥0) ^ (-1020 : ℤ) * d ≤ 2 ^ (-100 : ℤ) * 2 ^ 100 := by
        gcongr
        · exact one_le_two
        · norm_num
        · exact_mod_cast hd
    _ = 1 := by norm_num
    _ ≤ n := by exact_mod_cast hn

theorem held_ofMicro (n : ℕ) : Held (ofMicro n) := by
  have h := held_div n (d := 10 ^ 6) (by norm_num)
  rwa [Nat.cast_pow, Nat.cast_ofNat] at h

section Doubles

variable {x y d d' : ℚ≥0} {k l n : ℕ}

theorem inMicro_ofMicro (n : ℕ) : inMicro (ofMicro n) = n := div_mul_cancel₀ _ (by norm_num)

theorem eq_ofMicro (h : inMicro x = n) : x = ofMicro n := by
  rw [ofMicro, ← h, inMicro, mul_div_cancel_right₀ _ (by norm_num)]

theorem ofMicro_add (m n : ℕ) : ofMicro (m + n) = ofMicro m + ofMicro n := by
  rw [ofMicro, Nat.cast_add, add_div]
  rfl

/-- The format's own bounds, at its precision. -/
theorem binary64_unit_le (hk : k ≤ 2 ^ 50) : 4 * k * binary64.unit ≤ 1 := by
  have hcast : (k : ℚ≥0) ≤ 2 ^ 50 := by exact_mod_cast hk
  calc 4 * k * binary64.unit ≤ 4 * 2 ^ 50 * binary64.unit := by gcongr
    _ ≤ 1 := by norm_num [Format.unit, binary64]

theorem within_round_of (h : Within binary64 k x d) (hk : k ≤ 2 ^ 50) (hx : Held x) :
    Within binary64 (k + 1) x (binary64.round d) :=
  h.round_of (by decide) (binary64_unit_le hk) (hx.imp_right half_pow.ge.trans)

theorem within_number (hx : Held x) : Within binary64 1 x (number x) :=
  within_round_of (.refl x) (by norm_num) hx

theorem within_plus (h : Within binary64 k x d) (h' : Within binary64 k y d') (hk : k ≤ 2 ^ 50)
    (hx : Held (x + y)) : Within binary64 (k + 1) (x + y) (plus d d') :=
  within_round_of (h.add h') hk hx

theorem within_times (h : Within binary64 k x d) (h' : Within binary64 l y d')
    (hk : k + l ≤ 2 ^ 50) (hx : Held (x * y)) : Within binary64 (k + l + 1) (x * y) (times d d') :=
  within_round_of (h.mul h') hk hx

theorem within_micro (h : Within binary64 k x d) (hk : k ≤ 2 ^ 50) (hx : Held (inMicro x)) :
    Within binary64 (k + 1) (inMicro x) (times d micro) :=
  within_times h (.refl micro) hk hx

theorem within_half (h : Within binary64 k x d) (hk : k ≤ 2 ^ 50) (hx : x * k < 2 ^ 50) :
    d < x + 1 / 2 ∧ x < d + 1 / 2 := by
  refine h.lt_half (binary64_unit_le hk) ?_
  calc 8 * (x * k * binary64.unit) < 8 * (2 ^ 50 * binary64.unit) := by
        have hunit : 0 < binary64.unit := by norm_num [Format.unit, binary64]
        gcongr
    _ = 1 := by norm_num [Format.unit, binary64]

theorem round_eq (h : Within binary64 k (n : ℚ≥0) d) (hk : k ≤ 2 ^ 50) (hn : n * k < 2 ^ 50) :
    ⌊d + 1 / 2⌋₊ = n := by
  obtain ⟨hlt, hgt⟩ := within_half h hk (by exact_mod_cast hn)
  rw [Nat.floor_eq_iff (by positivity)]
  refine ⟨hgt.le, ?_⟩
  calc d + 1 / 2 < n + 1 / 2 + 1 / 2 := by gcongr
    _ = n + 1 := by rw [add_assoc, add_halves]

theorem floor_near (h : Within binary64 k (n : ℚ≥0) d) (hk : k ≤ 2 ^ 50) (hn : n * k < 2 ^ 50) :
    ⌊d⌋₊ ≤ n ∧ n ≤ ⌊d⌋₊ + 1 ∧ ((n : ℚ≥0) ≤ d ↔ ⌊d⌋₊ = n) := by
  obtain ⟨hlt, hgt⟩ := within_half h hk (by exact_mod_cast hn)
  have hhalf : (1 : ℚ≥0) / 2 < 1 := by norm_num
  have hle : ⌊d⌋₊ ≤ n := by
    refine Nat.lt_succ_iff.mp ((Nat.floor_lt' (Nat.succ_ne_zero n)).mpr ?_)
    rw [Nat.cast_succ]
    exact hlt.trans (by gcongr)
  have hge : n ≤ ⌊d⌋₊ + 1 := by
    have hfloor : d < ⌊d⌋₊ + 1 := Nat.lt_floor_add_one d
    have hlt' : (n : ℚ≥0) < (⌊d⌋₊ + 1 + 1 : ℕ) := calc
      (n : ℚ≥0) < d + 1 / 2 := hgt
      _ < ⌊d⌋₊ + 1 + 1 := by gcongr
      _ = (⌊d⌋₊ + 1 + 1 : ℕ) := by push_cast; rfl
    have := Nat.cast_lt.mp hlt'
    omega
  refine ⟨hle, hge, fun h => hle.antisymm (Nat.le_floor h), fun h => ?_⟩
  rw [← h]
  exact Nat.floor_le (by positivity)

theorem within_size (h : inMicro x = n) :
    Within binary64 2 (n : ℚ≥0) (times (number x) micro) := by
  have hx : Held x := eq_ofMicro h ▸ held_ofMicro n
  have hn : Held (inMicro x) := by
    rw [h]
    simpa using held_div n (d := 1) (by norm_num)
  rw [← h]
  exact within_micro (within_number hx) (by norm_num) hn

theorem roundMicro_eq (h : inMicro x = n) (hn : n * 2 < 2 ^ 50) : roundMicro (number x) = n :=
  round_eq (within_size h) (by norm_num) hn

/-- What a floor reads of a size. -/
structure FloorRead (shares read : ℕ) : Prop where
  le : read ≤ shares
  ge : shares ≤ read + 1
  zero : read = 0 → shares = 0

theorem floorMicro_read (h : inMicro x = n) (hn : n * 2 < 2 ^ 50) :
    FloorRead n (floorMicro (number x)) := by
  obtain ⟨hle, hge, -⟩ := floor_near (within_size h) (by norm_num) hn
  refine ⟨hle, hge, fun hzero => ?_⟩
  by_contra hne
  -- one micro-unit is read as one
  have hone : n = 1 := by
    rw [floorMicro] at hzero
    omega
  rw [hone] at h
  rw [eq_ofMicro h] at hzero
  have hread : floorMicro (number (ofMicro 1)) = 1 := by decide +kernel
  omega

theorem floorKeeps_iff {limit fee : ℕ} (h : inMicro x = n) (hn : n * 2 < 2 ^ 50) :
    FloorKeeps x n limit fee ↔
      n * limit / 1000000 - fee ≤ floorMicro (number x) * limit / 1000000 - fee := by
  obtain ⟨hle, hge, heq⟩ := floor_near (within_size h) (by norm_num) hn
  rw [FloorKeeps, heq, floorMicro]
  by_cases hsame : ⌊times (number x) micro⌋₊ = n
  · simp [hsame]
  · have hpred : ⌊times (number x) micro⌋₊ = n - 1 := by omega
    rw [hpred]
    exact or_iff_right (by omega)

theorem floorAmount_eq (h : x = n) (hn : n < 2 ^ 53) : floorAmount (number x) = n := by
  rw [h, number, round_natCast (by decide) hn, floorAmount, Nat.floor_natCast]

end Doubles

/-! ## The sums of the answers -/

theorem makerEntries_getTrades (ledger : List LedgerTrade) :
    makerEntries (getTrades ledger) = (ledger.flatMap LedgerTrade.makers).map makerAnswer := by
  rw [makerEntries, getTrades, List.flatMap_map, List.map_flatMap]
  rfl

theorem filter_makerAnswer (ms : List (OrderId × OrderMatch)) (id : OrderId) :
    ((ms.map makerAnswer).filter fun m => m.orderId = id) =
      (ms.filter fun m => m.1 = id).map makerAnswer := by
  rw [List.filter_map]
  rfl

theorem matched_makerAnswer_pos (m : OrderId × OrderMatch) : 0 < (makerAnswer m).matched := by
  have hshares : ofMicro m.2.shares ≠ 0 :=
    div_ne_zero (Nat.cast_ne_zero.mpr m.2.pos.ne') (by norm_num)
  have hread := (within_number (held_ofMicro m.2.shares)).eq_zero_iff
  exact pos_iff_ne_zero.mpr fun hzero => hshares (hread.mpr hzero)

theorem filter_getTrades (o : TrackedOrder) (ledger : List LedgerTrade) :
    ((makerEntries (getTrades ledger)).filter fun t => t.orderId = o.orderID ∧ 0 < t.matched) =
      ((ledger.flatMap LedgerTrade.makers).filter fun m => m.1 = o.orderID).map makerAnswer := by
  rw [makerEntries_getTrades, ← filter_makerAnswer]
  refine List.filter_congr fun t ht => ?_
  obtain ⟨m, -, rfl⟩ := List.mem_map.mp ht
  simp [matched_makerAnswer_pos m]

section Sums

variable (ms : List (OrderId × OrderMatch)) {acc : ℚ≥0} {base k : ℕ}

/-- Each addition is a rounding more. -/
theorem within_foldl_size (h : Within binary64 (k + 1) (ofMicro base) acc)
    (hk : k + ms.length < 2 ^ 50) :
    Within binary64 (k + ms.length + 1) (ofMicro (base + sharesOf (ms.map Prod.snd)))
      ((ms.map makerAnswer).foldl (fun shares t => plus shares t.matched) acc) := by
  induction ms generalizing acc base k with
  | nil => simpa [sharesOf] using h
  | cons m ms ih =>
    simp only [List.length_cons] at hk ⊢
    have hmatched : Within binary64 (k + 1) (ofMicro m.2.shares) (makerAnswer m).matched :=
      (within_number (held_ofMicro _)).mono (Nat.le_add_left 1 k)
    have hnext : Within binary64 (k + 1 + 1) (ofMicro (base + m.2.shares))
        (plus acc (makerAnswer m).matched) := by
      rw [ofMicro_add]
      exact within_plus h hmatched (by omega) (ofMicro_add _ _ ▸ held_ofMicro _)
    have hrest := ih hnext (by omega)
    have hsum : sharesOf ((m :: ms).map Prod.snd) = m.2.shares + sharesOf (ms.map Prod.snd) := rfl
    rw [hsum, ← add_assoc base, show k + (ms.length + 1) + 1 = k + 1 + ms.length + 1 by omega]
    exact hrest

theorem within_cost (m : OrderMatch) (hm : m.shares ≤ 2 ^ 100) :
    Within binary64 3 (ofMicro m.usdc)
      (times (number (ofMicro m.shares)) (number (m.usdc / m.shares))) := by
  have hexact : ofMicro m.shares * (m.usdc / m.shares) = ofMicro m.usdc := by
    have hne : (m.shares : ℚ≥0) ≠ 0 := Nat.cast_ne_zero.mpr m.pos.ne'
    rw [ofMicro, ofMicro, div_mul_div_comm, mul_comm, mul_div_mul_right _ _ hne]
  rw [← hexact]
  exact within_times (within_number (held_ofMicro _)) (within_number (held_div _ hm)) (by norm_num)
    (hexact ▸ held_ofMicro _)

theorem within_foldl_cost (h : Within binary64 (k + 3) (ofMicro base) acc)
    (hk : k + ms.length + 3 < 2 ^ 50) (hms : sharesOf (ms.map Prod.snd) ≤ 2 ^ 100) :
    Within binary64 (k + ms.length + 3) (ofMicro (base + usdcOf (ms.map Prod.snd)))
      ((ms.map makerAnswer).foldl
        (fun spent t => plus spent (times t.matched (number (t.price.getD 0)))) acc) := by
  induction ms generalizing acc base k with
  | nil => simpa [usdcOf] using h
  | cons m ms ih =>
    have hshares : sharesOf ((m :: ms).map Prod.snd)
        = m.2.shares + sharesOf (ms.map Prod.snd) := rfl
    simp only [List.length_cons] at hk ⊢
    rw [hshares] at hms
    have hcost : Within binary64 (k + 3) (ofMicro m.2.usdc) (times (makerAnswer m).matched
        (number ((makerAnswer m).price.getD 0))) :=
      (within_cost m.2 (by omega)).mono (Nat.le_add_left 3 k)
    have hnext : Within binary64 (k + 1 + 3) (ofMicro (base + m.2.usdc))
        (plus acc (times (makerAnswer m).matched (number ((makerAnswer m).price.getD 0)))) := by
      rw [ofMicro_add, show k + 1 + 3 = k + 3 + 1 by omega]
      exact within_plus h hcost (by omega) (ofMicro_add _ _ ▸ held_ofMicro _)
    have hrest := ih hnext (by omega) (by omega)
    have hsum : usdcOf ((m :: ms).map Prod.snd) = m.2.usdc + usdcOf (ms.map Prod.snd) := rfl
    rw [hsum, ← add_assoc base, show k + (ms.length + 1) + 3 = k + 1 + ms.length + 3 by omega]
    exact hrest

end Sums

theorem length_le_sharesOf (ms : List OrderMatch) : ms.length ≤ sharesOf ms := by
  induction ms with
  | nil => exact le_rfl
  | cons m ms ih =>
    have hpos := m.pos
    have hsum : sharesOf (m :: ms) = m.shares + sharesOf ms := rfl
    rw [List.length_cons, hsum]
    omega

theorem HeldByDoubles.bounds {ms : List OrderMatch} (h : HeldByDoubles ms) {k : ℕ}
    (hk : k ≤ ms.length + 4) :
    sharesOf ms * k < 2 ^ 50 ∧ usdcOf ms * k < 2 ^ 50 ∧ k ≤ 2 ^ 50 := by
  have hlength := length_le_sharesOf ms
  have hmul : (sharesOf ms + usdcOf ms) * k < 2 ^ 50 := lt_of_le_of_lt (Nat.mul_le_mul_left _ hk) h
  rw [add_mul] at hmul
  refine ⟨by omega, by omega, ?_⟩
  obtain hzero | hpos := (sharesOf ms).eq_zero_or_pos
  · omega
  · have hone : k ≤ sharesOf ms * k := Nat.le_mul_of_pos_left k hpos
    omega

theorem HeldByDoubles.made {ledger : List LedgerTrade} {id : OrderId}
    (h : HeldByDoubles (matchesOf ledger id)) : HeldByDoubles (madeBy ledger id) := by
  refine lt_of_le_of_lt (Nat.mul_le_mul ?_ ?_) h
  · rw [matchesOf, sharesOf_append, usdcOf_append]
    omega
  · rw [matchesOf, List.length_append]
    omega

/-- The trade history tells what the order made. -/
theorem traded_getTrades (o : TrackedOrder) (ledger : List LedgerTrade)
    (h : HeldByDoubles (madeBy ledger o.orderID)) :
    roundMicro (tradedSize o (makerEntries (getTrades ledger)))
        = sharesOf (madeBy ledger o.orderID) ∧
      roundMicro (tradedCost o (makerEntries (getTrades ledger)))
        = usdcOf (madeBy ledger o.orderID) := by
  have hlength : (madeBy ledger o.orderID).length =
      ((ledger.flatMap LedgerTrade.makers).filter fun m => m.1 = o.orderID).length :=
    List.length_map ..
  obtain ⟨hshares, husdc, hk⟩ := h.bounds le_rfl
  obtain ⟨hshares', -⟩ := h.bounds (k := 1) (by omega)
  have hzero : ofMicro 0 = 0 := by simp [ofMicro]
  have hstart : ∀ k, Within binary64 k (ofMicro 0) 0 := fun k =>
    hzero.symm ▸ (Within.refl 0).mono (Nat.zero_le k)
  have hsize := within_foldl_size ((ledger.flatMap LedgerTrade.makers).filter
    fun m => m.1 = o.orderID) (k := 0) (hstart _) (by omega)
  have hcost := within_foldl_cost ((ledger.flatMap LedgerTrade.makers).filter
    fun m => m.1 = o.orderID) (k := 0) (hstart _) (by omega) (by
      rw [← madeBy]
      omega)
  rw [← filter_getTrades, zero_add, ← madeBy, ← hlength, zero_add] at hsize hcost
  have hmicro := within_micro hsize (by omega) (by
    rw [inMicro_ofMicro]
    simpa using held_div _ (d := 1) (by norm_num))
  have hmicro' := within_micro hcost (by omega) (by
    rw [inMicro_ofMicro]
    simpa using held_div _ (d := 1) (by norm_num))
  rw [inMicro_ofMicro] at hmicro hmicro'
  exact ⟨round_eq (hmicro.mono (by omega)) hk hshares, round_eq (hmicro'.mono (by omega)) hk husdc⟩

/-! ## The confirmation of a market close -/

theorem sellTolerance_pos {requested : ℕ} (h : 0 < requested) : 0 < sellTolerance requested := by
  have hnumber : Within binary64 1 (requested : ℚ≥0) (number requested) :=
    within_number (by simpa using held_div requested (d := 1) (by norm_num))
  have htarget : Within binary64 2 (ofMicro requested) (divide (number requested) micro) :=
    within_round_of (hnumber.mul (.refl micro⁻¹)) (by norm_num) (held_ofMicro requested)
  have hfactor : Within binary64 1 (999 / 1000) (number (999 / 1000)) :=
    within_number (held_div 999 (d := 1000) (by norm_num))
  have hexact : ofMicro requested * (999 / 1000) = (requested * 999 : ℕ) / (10 ^ 9 : ℕ) := by
    rw [ofMicro]
    push_cast
    field_simp
    ring
  have hheld : Held (ofMicro requested * (999 / 1000)) := hexact ▸ held_div _ (by norm_num)
  have htol := (within_times htarget hfactor (by norm_num) hheld).eq_zero_iff
  refine pos_iff_ne_zero.mpr fun hzero => ?_
  have hne : ofMicro requested ≠ 0 := div_ne_zero (Nat.cast_ne_zero.mpr h.ne') (by norm_num)
  exact mul_ne_zero hne (by norm_num) (htol.mpr hzero)

theorem foldl_addTrade_of_none {orderID : OrderId} {ledger : List LedgerTrade} {acc : ℚ≥0}
    (h : matchesOf ledger orderID = []) :
    (getTrades ledger).foldl (addTrade orderID) acc = acc := by
  obtain ⟨htaken, hmade⟩ := List.append_eq_nil_iff.mp h
  simp only [takenBy, madeBy, List.map_eq_nil_iff, List.filter_eq_nil_iff, decide_eq_true_eq,
    List.mem_flatMap] at htaken hmade
  induction ledger generalizing acc with
  | nil => rfl
  | cons t ledger ih =>
    have hnotTaken : t.answer.takerOrderId ≠ orderID := htaken t List.mem_cons_self
    have hnotMade : t.answer.makerOrders.filter (fun m => m.orderId = orderID) = [] := by
      simp only [LedgerTrade.answer, List.filter_eq_nil_iff, List.mem_map, decide_eq_true_eq]
      rintro _ ⟨m, hm, rfl⟩
      exact hmade m ⟨t, List.mem_cons_self, hm⟩
    have hstep : addTrade orderID acc t.answer = acc := by
      rw [addTrade, hnotMade, if_neg hnotTaken]
      rfl
    rw [getTrades, List.map_cons, List.foldl_cons, hstep]
    refine ih ?_ (fun x hx => htaken x (List.mem_cons_of_mem _ hx)) ?_
    · simp only [matchesOf, takenBy, madeBy, List.append_eq_nil_iff, List.map_eq_nil_iff,
        List.filter_eq_nil_iff, decide_eq_true_eq, List.mem_flatMap]
      exact ⟨fun x hx => htaken x (List.mem_cons_of_mem _ hx), fun m ⟨x, hx, hm⟩ =>
        hmade m ⟨x, List.mem_cons_of_mem _ hx, hm⟩⟩
    · exact fun m ⟨x, hx, hm⟩ => hmade m ⟨x, List.mem_cons_of_mem _ hx, hm⟩

theorem not_toldInTime {ledger : List LedgerTrade} {orderID : OrderId} {requested : ℕ}
    {polls : List SellPoll} (h : ∀ poll ∈ polls, poll.Tells ledger orderID)
    (hpos : 0 < requested) (hnone : sharesOf (matchesOf ledger orderID) = 0) :
    ¬ToldInTime orderID requested polls := by
  have htol := sellTolerance_pos hpos
  have hempty : matchesOf ledger orderID = [] := by
    have hlength := length_le_sharesOf (matchesOf ledger orderID)
    exact List.length_eq_zero_iff.mp (by omega)
  induction polls with
  | nil => exact id
  | cons poll polls ih =>
    obtain ⟨horder, htrades⟩ := h poll List.mem_cons_self
    rintro (⟨od, hod, -, hle⟩ | ⟨-, ⟨trades, hmem, hle⟩ | hrest⟩)
    · have hzero : od.2.getD 0 = 0 := by
        rw [eq_ofMicro (horder od hod), hnone, ofMicro, Nat.cast_zero, zero_div]
      rw [hzero, number, round_zero] at hle
      exact absurd htol (not_lt.mpr hle)
    · rw [htrades trades hmem, confirmedSize, foldl_addTrade_of_none hempty] at hle
      exact absurd htol (not_lt.mpr hle)
    · exact ih (fun x hx => h x (List.mem_cons_of_mem _ hx)) hrest

theorem confirmSellFilled_iff (orderID : OrderId) (requested : ℕ) (polls : List SellPoll) :
    confirmSellFilled orderID requested polls = true ↔ ToldInTime orderID requested polls := by
  induction polls with
  | nil => simp [confirmSellFilled, ToldInTime]
  | cons poll polls ih =>
    have hfilled : (poll.order.any fun od =>
        od.1 = .filled ∧ sellTolerance requested ≤ number (od.2.getD 0)) = true ↔
        ∃ od ∈ poll.order, od.1 = .filled ∧ sellTolerance requested ≤ number (od.2.getD 0) := by
      cases poll.order <;> simp
    have hkilled : (poll.order.any fun od => od.1 = .killed) = true ↔
        ¬∀ od ∈ poll.order, od.1 ≠ .killed := by
      cases poll.order <;> simp
    have htold : (poll.trades.any fun trades =>
        sellTolerance requested ≤ confirmedSize orderID trades) = true ↔
        ∃ trades ∈ poll.trades, sellTolerance requested ≤ confirmedSize orderID trades := by
      cases poll.trades <;> simp
    rw [confirmSellFilled, ToldInTime]
    split
    next h1 => exact iff_of_true rfl (.inl (hfilled.mp h1))
    next h1 =>
      rw [hfilled] at h1
      rw [or_iff_right h1]
      split
      next h2 => exact iff_of_false Bool.false_ne_true fun h => hkilled.mp h2 h.1
      next h2 =>
        rw [hkilled, not_not] at h2
        rw [and_iff_right h2]
        split
        next h3 => exact iff_of_true rfl (.inl (htold.mp h3))
        next h3 =>
          rw [htold] at h3
          rw [or_iff_right h3]
          exact ih

/-! ## The paths of a resting order -/

section Tracked

variable {o : TrackedOrder} {ledger : List LedgerTrade} {r : TrackedRead}

theorem TrueFill.of_whole {ms : List OrderMatch} {limit fee : ℕ} {f : Fill}
    (hshares : f.filledShares = sharesOf ms)
    (hproceeds : f.bet.side = .sell →
      sharesOf ms * limit / 1000000 - fee ≤ f.spentAmount ∧ f.spentAmount ≤ usdcOf ms) :
    TrueFill ms limit fee f where
  shares_le := by omega
  le_shares := by omega
  zero := fun h => hshares.symm.trans h
  proceeds := hproceeds

theorem trackedFill_whole {spent : ℕ}
    (h : r.fill o = some (sharesOf (matchesOf ledger o.orderID), spent))
    (hspent : o.side = .sell →
      sharesOf (matchesOf ledger o.orderID) * o.sellLimitPrice / 1000000 ≤ spent ∧
        spent ≤ usdcOf (matchesOf ledger o.orderID)) :
    ∀ f, trackedFill o r = some f →
      TrueFill (matchesOf ledger o.orderID) o.sellLimitPrice o.takerFeeUsd f := by
  intro f hf
  rw [trackedFill, h] at hf
  cases hf
  refine .of_whole rfl fun hside => ?_
  obtain ⟨hle, hge⟩ := hspent hside
  simp only [SigningLayer.adjSpent, show o.side = .sell from hside]
  exact ⟨Nat.sub_le_sub_right hle _, (Nat.sub_le _ _).trans hge⟩

/-- The proceeds that are derived from the size at the limit. -/
theorem roundMicro_atLimit {ms : List OrderMatch} {limit : ℕ} {size : ℚ≥0}
    (hrange : HeldByDoubles ms) (hsold : SoldAtLimit limit ms) (h : inMicro size = sharesOf ms) :
    sharesOf ms * limit / 1000000 ≤ roundMicro (times (number size) (number (ofMicro limit))) ∧
      roundMicro (times (number size) (number (ofMicro limit))) ≤ usdcOf ms := by
  obtain ⟨-, husdc, -⟩ := hrange.bounds (k := 4) (by omega)
  have hcost : inMicro (size * ofMicro limit) = (sharesOf ms * limit : ℕ) / (1000000 : ℕ) := by
    rw [eq_ofMicro h, inMicro, ofMicro, ofMicro]
    push_cast
    field_simp
    ring
  have hle : inMicro (size * ofMicro limit) ≤ usdcOf ms := by
    rw [hcost, div_le_iff₀ (by norm_num)]
    exact_mod_cast hsold.sum_le
  have hexact : size * ofMicro limit = (sharesOf ms * limit : ℕ) / (10 ^ 12 : ℕ) := by
    rw [eq_ofMicro h, ofMicro, ofMicro]
    push_cast
    field_simp
    ring
  have hsize : Held size := eq_ofMicro h ▸ held_ofMicro _
  have htimes := within_times (within_number hsize) (within_number (held_ofMicro limit))
    (by norm_num) (hexact ▸ held_div _ (by norm_num))
  have hmicro := within_micro htimes (by norm_num) (hcost ▸ held_div _ (by norm_num))
  obtain ⟨hlt, hgt⟩ := within_half hmicro (by norm_num) (by
    calc inMicro (size * ofMicro limit) * (1 + 1 + 1 + 1 : ℕ) ≤ usdcOf ms * 4 := by
          gcongr
          norm_num
      _ < 2 ^ 50 := by exact_mod_cast husdc)
  constructor
  · refine Nat.le_floor ?_
    calc ((sharesOf ms * limit / 1000000 : ℕ) : ℚ≥0)
        ≤ (sharesOf ms * limit : ℕ) / (1000000 : ℕ) := Nat.cast_div_le
      _ = inMicro (size * ofMicro limit) := hcost.symm
      _ ≤ _ := hgt.le
  · refine Nat.lt_succ_iff.mp ((Nat.floor_lt' (Nat.succ_ne_zero _)).mpr ?_)
    calc _ < inMicro (size * ofMicro limit) + 1 / 2 + 1 / 2 := by gcongr
      _ = inMicro (size * ofMicro limit) + 1 := by rw [add_assoc, add_halves]
      _ ≤ (usdcOf ms).succ := by
        rw [Nat.cast_succ]
        gcongr

theorem trueFill_made_iff {f : Fill} {taken made : List OrderMatch} {limit fee : ℕ}
    (hlimit : f.bet.side = .buy → limit = 0) (hshares : f.filledShares = sharesOf made)
    (hspent : f.bet.side = .sell → f.spentAmount = usdcOf made - fee) :
    TrueFill (taken ++ made) limit fee f ↔
      sharesOf taken ≤ dust ∧ (sharesOf made = 0 → sharesOf taken = 0) ∧
        sharesOf (taken ++ made) * limit / 1000000 - fee ≤ usdcOf made - fee := by
  have hsum := sharesOf_append taken made
  constructor
  · intro h
    have hle := h.le_shares
    have hzero := h.zero
    refine ⟨by omega, fun hmade => ?_, ?_⟩
    · have := hzero (by omega)
      omega
    · cases hside : f.bet.side with
      | buy => simp [hlimit hside]
      | sell => exact hspent hside ▸ (h.proceeds hside).1
  · rintro ⟨hdust, hzero, hproceeds⟩
    refine ⟨by omega, by omega, fun h => ?_, fun hside => ?_⟩
    · have := hzero (by omega)
      omega
    · rw [hspent hside, usdcOf_append]
      exact ⟨hproceeds, by omega⟩

/-- The proceeds of an order that `getOrder` still answers. -/
theorem ClobOrder.Tells.proceeds {od : ClobOrder} {fallback : ℚ≥0}
    (hrange : HeldByDoubles (matchesOf ledger o.orderID))
    (h : od.Tells o (matchesOf ledger o.orderID)) (hside : o.side = .sell)
    (hlimit : 0 < o.sellLimitPrice)
    (hsold : SoldAtLimit o.sellLimitPrice (matchesOf ledger o.orderID)) :
    sharesOf (matchesOf ledger o.orderID) * o.sellLimitPrice / 1000000 ≤
        roundMicro (times od.matched (od.priceOr fallback)) ∧
      roundMicro (times od.matched (od.priceOr fallback)) ≤
        usdcOf (matchesOf ledger o.orderID) := by
  have hprice : od.priceOr fallback = number (ofMicro o.sellLimitPrice) := by
    have hne : ofMicro o.sellLimitPrice ≠ 0 :=
      div_ne_zero (Nat.cast_ne_zero.mpr hlimit.ne') (by norm_num)
    have hread := (within_number (held_ofMicro o.sellLimitPrice)).eq_zero_iff
    rw [ClobOrder.priceOr, h.2 hside, Option.getD_some, if_neg fun hzero => hne (hread.mpr hzero)]
  rw [hprice]
  exact roundMicro_atLimit hrange hsold h.1

theorem trueFill_floor_iff {f : Fill} {ms : List OrderMatch} {size : ℚ≥0} {limit : ℕ} (fee : ℕ)
    (hrange : HeldByDoubles ms) (htells : inMicro size = sharesOf ms)
    (hsold : SoldAtLimit limit ms) (hlimit : f.bet.side = .buy → limit = 0)
    (hshares : f.filledShares = floorMicro (number size))
    (hspent : f.bet.side = .sell →
      f.spentAmount = floorMicro (number size) * limit / 1000000 - fee) :
    TrueFill ms limit fee f ↔ FloorKeeps size (sharesOf ms) limit fee := by
  obtain ⟨hbound, -⟩ := hrange.bounds (k := 2) (by omega)
  obtain ⟨hle, hge, hzero⟩ := floorMicro_read htells hbound
  rw [floorKeeps_iff htells hbound]
  constructor
  · intro h
    cases hside : f.bet.side with
    | buy => simp [hlimit hside]
    | sell =>
      rw [← hspent hside]
      exact (h.proceeds hside).1
  · intro hkeeps
    refine ⟨by omega, by unfold dust; omega, fun h => hzero (hshares.symm.trans h), fun hside => ?_⟩
    rw [hspent hside]
    have hworth : floorMicro (number size) * limit / 1000000 ≤ usdcOf ms :=
      (Nat.div_le_div_right (Nat.mul_le_mul_right _ hle)).trans hsold.div_le
    exact ⟨hkeeps, (Nat.sub_le _ _).trans hworth⟩

theorem tracked_true_iff (hrange : HeldByDoubles (matchesOf ledger o.orderID))
    (htells : r.Tells o ledger) (hsell : o.side = .sell ↔ 0 < o.sellLimitPrice)
    (hsold : SoldAtLimit o.sellLimitPrice (matchesOf ledger o.orderID)) :
    (∀ f, trackedFill o r = some f →
        TrueFill (matchesOf ledger o.orderID) o.sellLimitPrice o.takerFeeUsd f) ↔
      r.Suffices (takenBy ledger o.orderID) (madeBy ledger o.orderID) o.sellLimitPrice
        o.takerFeeUsd := by
  obtain ⟨hshares, husdc, -⟩ := hrange.bounds (k := 2) (by omega)
  have hbuy : o.side = .buy → o.sellLimitPrice = 0 := fun hside =>
    Nat.eq_zero_of_not_pos fun h => nomatch hside.symm.trans (hsell.mpr h)
  cases r with
  | scaled filledShares spentAmount =>
    refine iff_of_true (trackedFill_whole ?_ fun _ => ⟨hsold.div_le, le_rfl⟩) trivial
    rw [TrackedRead.fill, floorAmount_eq htells.1 (by omega), floorAmount_eq htells.2 (by omega)]
  | sizeMatched size =>
    have hiff := fun f => trueFill_floor_iff (f := f) o.takerFeeUsd hrange htells hsold
    simp only [trackedFill, TrackedRead.fill, Option.map_some, Option.some.injEq, forall_eq']
    refine hiff _ hbuy rfl fun hside => ?_
    simp only [SigningLayer.adjSpent, SigningLayer.extractFill, show o.side = .sell from hside]
  | noSize => exact htells.elim
  | cancelled od =>
    refine iff_of_true (trackedFill_whole (by
      rw [TrackedRead.fill, ClobOrder.matched, roundMicro_eq htells.1 hshares])
      fun hside => ?_) trivial
    exact ClobOrder.Tells.proceeds hrange htells hside (hsell.mp hside) hsold
  | reconciled od =>
    refine iff_of_true (trackedFill_whole (by
      rw [TrackedRead.fill, ClobOrder.matched, roundMicro_eq htells.1 hshares])
      fun hside => ?_) trivial
    exact ClobOrder.Tells.proceeds hrange htells hside (hsell.mp hside) hsold
  | cancelledTrades trades =>
    obtain rfl := htells
    obtain ⟨hsize, hcost⟩ := traded_getTrades o ledger hrange.made
    simp only [trackedFill, TrackedRead.fill, Option.map_some, Option.some.injEq, forall_eq',
      hsize, hcost]
    exact trueFill_made_iff hbuy rfl fun hside => by
      simp only [SigningLayer.adjSpent, show o.side = .sell from hside]
  | reconciledTrades trades =>
    obtain rfl := htells
    obtain ⟨hsize, hcost⟩ := traded_getTrades o ledger hrange.made
    simp only [trackedFill, TrackedRead.fill, TrackedRead.Suffices, hsize, hcost]
    split
    next hmade => simp [hmade]
    next hmade =>
      simp only [Option.map_some, Option.some.injEq, forall_eq']
      rw [matchesOf, trueFill_made_iff hbuy rfl fun hside => by
        simp only [SigningLayer.adjSpent, show o.side = .sell from hside]]
      simp [hmade]
  | mockOrder filledShares spentAmount =>
    refine iff_of_true (trackedFill_whole ?_ fun _ => ⟨hsold.div_le, le_rfl⟩) trivial
    rw [TrackedRead.fill, floorAmount_eq htells.1 (by omega), floorAmount_eq htells.2 (by omega)]
  | marketResolved =>
    simp only [trackedFill, TrackedRead.fill, TrackedRead.Suffices, Option.map_some,
      Option.some.injEq, forall_eq']
    rw [← sharesOf_append]
    refine ⟨fun h => h.zero rfl, fun hnone => .of_whole hnone.symm fun hside => ?_⟩
    have hsum : sharesOf (matchesOf ledger o.orderID) = 0 := hnone
    simp only [SigningLayer.adjSpent, show o.side = .sell from hside, hsum]
    omega

end Tracked

/-! ## The paths of a POST -/

section Post

variable {ms : List OrderMatch} {resp : MatchedAmounts} {mock : Bool}

theorem FloorRead.of_eq {shares read : ℕ} (h : read = shares) : FloorRead shares read :=
  ⟨h.le, h.ge.trans (Nat.le_add_right _ _), fun hzero => h.symm.trans hzero⟩

theorem MatchedAmounts.Tells.bought (hrange : HeldByDoubles ms) (h : resp.Tells .buy mock ms)
    (hresp : resp ≠ .missing) (price : ℕ) : FloorRead (sharesOf ms) (resp.bought price).1 := by
  obtain ⟨hshares, -⟩ := hrange.bounds (k := 2) (by omega)
  cases resp with
  | scaled filledShares spentAmount => exact .of_eq (floorAmount_eq h.2.1 (by omega))
  | decimal takingAmount makingAmount => exact .of_eq (roundMicro_eq h.2.1 hshares)
  | sizeMatched size => exact floorMicro_read h.2 hshares
  | missing => exact absurd rfl hresp

/-- All but a size that is floored are read exactly. -/
theorem MatchedAmounts.Tells.sold (hrange : HeldByDoubles ms) (h : resp.Tells .sell mock ms)
    (hresp : resp ≠ .missing) :
    resp.sold mock = sharesOf ms ∨
      ∃ size, resp = .sizeMatched size ∧ inMicro size = sharesOf ms ∧
        resp.sold mock = floorMicro (number size) := by
  obtain ⟨hshares, -⟩ := hrange.bounds (k := 2) (by omega)
  cases resp with
  | scaled filledShares spentAmount =>
    left
    rw [MatchedAmounts.sold, if_pos h.1]
    exact floorAmount_eq h.2.1 (by omega)
  | decimal takingAmount makingAmount =>
    left
    rw [MatchedAmounts.sold, if_neg (by simp [h.1])]
    exact roundMicro_eq h.2.1 hshares
  | sizeMatched size =>
    right
    refine ⟨size, rfl, h.2, ?_⟩
    rw [MatchedAmounts.sold, if_neg (by simp [h.1])]
  | missing => exact absurd rfl hresp

theorem submitFAKOrder_read {e : BetAuthorizedEvent} {size : Option ℚ≥0} {explicitMiss : Bool}
    {f : Fill} (hrange : HeldByDoubles ms) (h : resp.Tells .buy size.isNone ms)
    (hmiss : explicitMiss = true → resp = .missing → sharesOf ms = 0)
    (hf : submitFAKOrder e size resp explicitMiss = some f) :
    FloorRead (sharesOf ms) f.filledShares := by
  obtain ⟨hread, hf⟩ := Option.ite_none_left_eq_some.mp hf
  cases hf
  by_cases hresp : resp = .missing
  · subst hresp
    refine .of_eq (Eq.symm (?_ : sharesOf ms = 0))
    -- The mock has no miss to tell, and without one the fill is not attested.
    cases size with
    | none => exact h rfl
    | some size =>
      refine hmiss ?_ rfl
      by_contra hno
      exact hread ⟨rfl, hno, rfl⟩
  · exact MatchedAmounts.Tells.bought hrange h hresp e.price

theorem marketClose_true_iff {req : CloseRequest} {confirmed : Bool} {sellPrice sellFee : ℕ}
    {told : Prop} [Decidable told] (hrange : HeldByDoubles ms) (haccepted : req.Accepted)
    (htells : resp.Tells .sell mock ms) (hsold : SoldAtLimit sellPrice ms)
    (hfits : sharesOf ms ≤ req.soldShares) (hconfirmed : confirmed = true ↔ told)
    (hnone : sharesOf ms = 0 → ¬told) :
    TrueFill ms sellPrice sellFee
        (submitMarketSellOrder req mock resp confirmed sellPrice sellFee) ↔
      resp.Suffices ms req.soldShares sellPrice sellFee told := by
  have hpos : 0 < req.soldShares := haccepted.1
  by_cases hresp : resp = .missing
  · subst hresp
    simp only [MatchedAmounts.Suffices, ← hconfirmed, submitMarketSellOrder, MatchedAmounts.sold,
      true_and]
    cases confirmed with
    | true =>
      simp only [if_true]
      constructor
      · intro h
        exact ⟨h.shares_le, (h.proceeds rfl).2⟩
      · rintro ⟨hdust, hbrings⟩
        refine ⟨hdust, hfits.trans (Nat.le_add_right _ _), fun h => absurd h hpos.ne', fun _ => ?_⟩
        exact ⟨Nat.sub_le_sub_right (Nat.div_le_div_right (Nat.mul_le_mul_right _ hfits)) _,
          hbrings⟩
    | false =>
      simp only [Bool.false_eq_true, if_false]
      refine ⟨fun h => h.zero rfl, fun hnone => .of_whole hnone.symm fun _ => ?_⟩
      simp [hnone]
  · -- A response with amounts is not ambiguous, and of an order without a fill no round tells one.
    have hasked : ∀ {n : ℕ}, (n = 0 → sharesOf ms = 0) → ¬(n = 0 ∧ confirmed = true) := by
      rintro n hzero ⟨hn, hyes⟩
      exact hnone (hzero hn) (hconfirmed.mp hyes)
    rcases htells.sold hrange hresp with hread | ⟨size, rfl, hsize, hread⟩
    · have hkeeps : resp.Suffices ms req.soldShares sellPrice sellFee told := by
        cases resp with
        | scaled | decimal => trivial
        | sizeMatched size =>
          obtain ⟨hshares, -⟩ := hrange.bounds (k := 2) (by omega)
          have hfloor : floorMicro (number size) = sharesOf ms := by
            rw [← hread, MatchedAmounts.sold, if_neg (by simp [htells.1])]
          rw [MatchedAmounts.Suffices, floorKeeps_iff htells.2 hshares, hfloor]
        | missing => exact absurd rfl hresp
      refine iff_of_true (.of_whole ?_ fun _ => ?_) hkeeps
      · simp only [submitMarketSellOrder, hread, if_neg (hasked id)]
      · simp only [submitMarketSellOrder, hread, if_neg (hasked id)]
        exact ⟨le_rfl, (Nat.sub_le _ _).trans hsold.div_le⟩
    · obtain ⟨hshares, -⟩ := hrange.bounds (k := 2) (by omega)
      have hzero := (floorMicro_read hsize hshares).zero
      refine trueFill_floor_iff _ hrange hsize hsold nofun ?_ fun _ => ?_
      · simp only [submitMarketSellOrder, hread, if_neg (hasked hzero)]
      · simp only [submitMarketSellOrder, hread, if_neg (hasked hzero)]

end Post

/-- On truthful answers, of amounts that doubles hold, the fill that is attested is the true one
exactly when the answers of the path suffice to know it. -/
theorem attested_fill_true_iff (e : BetAuthorizedEvent) (ledger : List LedgerTrade)
    (orderID : OrderId) (polls : List SellPoll) (p : FillPath)
    (hrange : HeldByDoubles (matchesOf ledger orderID)) (h : p.Truthful e ledger orderID polls) :
    p.AttestsTrueFill e ledger orderID ↔ p.Suffices ledger orderID polls := by
  cases p with
  | market size resp explicitMiss =>
    obtain ⟨hmade, htells, hmiss⟩ := h
    refine iff_of_true (fun f hf => ?_) trivial
    have hbet := (submitFAKOrder_some hf).1
    have htaken : matchesOf ledger orderID = takenBy ledger orderID := by
      rw [matchesOf, hmade, List.append_nil]
    rw [htaken] at hrange ⊢
    obtain ⟨hle, hge, hzero⟩ := submitFAKOrder_read hrange htells hmiss hf
    refine ⟨by omega, by unfold dust; omega, hzero, fun hside => ?_⟩
    rw [hbet] at hside
    cases hside
  | reconcileMarket od =>
    obtain ⟨hshares, -⟩ := hrange.bounds (k := 2) (by omega)
    refine iff_of_true ?_ trivial
    rintro _ ⟨⟩
    exact .of_whole (roundMicro_eq h hshares) nofun
  | limit orderType id takerFeeUsd r =>
    obtain ⟨rfl, htells⟩ := h
    have hiff := tracked_true_iff (o := SigningLayer.limitTracked e orderType id takerFeeUsd)
      hrange htells (by simp [SigningLayer.limitTracked])
      fun m _ => by simp [SigningLayer.limitTracked]
    simp only [SigningLayer.limitTracked] at hiff
    exact hiff
  | marketClose req mock resp confirmed sellPrice sellFee =>
    obtain ⟨hmade, htells, hsold, hfits, hpolls, rfl⟩ := h
    have htaken : matchesOf ledger orderID = takenBy ledger orderID := by
      rw [matchesOf, hmade, List.append_nil]
    rw [FillPath.AttestsTrueFill, FillPath.Suffices, FillPath.fill, htaken]
    by_cases haccepted : req.Accepted
    · simp only [haccepted, if_true, Option.some.injEq, forall_eq', forall_const]
      exact marketClose_true_iff (htaken ▸ hrange) haccepted htells hsold hfits
        (confirmSellFilled_iff orderID req.soldShares polls)
        fun hnone => not_toldInTime hpolls haccepted.1 (htaken ▸ hnone)
    · simp [haccepted]
  | limitClose req orderType conditionId tokenId id takerFeeUsd r =>
    obtain ⟨rfl, hsold, htells⟩ := h
    rw [FillPath.AttestsTrueFill, FillPath.Suffices, FillPath.fill]
    by_cases haccepted : req.Accepted
    · simp only [haccepted, if_true, forall_const]
      have hsell : Side.sell = .sell ↔ 0 < req.limitPrice := iff_of_true rfl haccepted.2.1
      exact tracked_true_iff hrange htells hsell hsold
    · simp [haccepted]

def sampleTrade (taker maker : OrderId) : LedgerTrade where
  takerOrder := taker
  taken := ⟨2000000, 500000, by decide⟩
  makers := [(maker, ⟨2000000, 500000, by decide⟩)]

/-- A resting SELL of two shares at a quarter, which the reconcile finds in the trade history. -/
def restedClose : FillPath :=
  .limitClose ⟨quarterBet.nullifier, 2000000, 250000⟩ .gtc 1 2 7 0
    (.reconciledTrades (makerEntries (getTrades [sampleTrade 8 7])))

theorem attested_fill_true_rested :
    restedClose.AttestsTrueFill quarterBet [sampleTrade 8 7] 7 := by
  refine (attested_fill_true_iff quarterBet [sampleTrade 8 7] 7 [] restedClose (by decide) ?_).mpr
    ?_
  · exact ⟨rfl, by decide, rfl⟩
  · exact fun _ _ => by decide

/-- A limit BUY that was matched on submission and then cancelled; `getOrder` answers nothing. -/
def crossedBuy : FillPath :=
  .limit .gtc 7 0 (.cancelledTrades (makerEntries (getTrades [sampleTrade 7 8])))

/-- The order got two shares, and its bet is attested as FAILED. -/
theorem crossed_part_lost :
    crossedBuy.Truthful quarterBet [sampleTrade 7 8] 7 [] ∧
      sharesOf (matchesOf [sampleTrade 7 8] 7) = 2000000 ∧
      (crossedBuy.fill quarterBet).bind Fill.input =
        some ⟨quarterBet.nullifier, .failed, 0, 0⟩ ∧
      ¬crossedBuy.AttestsTrueFill quarterBet [sampleTrade 7 8] 7 := by
  have hsize : roundMicro (tradedSize (SigningLayer.limitTracked quarterBet .gtc 7 0)
      (makerEntries (getTrades [sampleTrade 7 8]))) = 0 := by
    decide +kernel
  have hcost : roundMicro (tradedCost (SigningLayer.limitTracked quarterBet .gtc 7 0)
      (makerEntries (getTrades [sampleTrade 7 8]))) = 0 := by
    decide +kernel
  have hfill : crossedBuy.fill quarterBet = some ⟨⟨quarterBet.nullifier, quarterBet.expectedShares,
      quarterBet.betAmount, .buy⟩, 0, 0⟩ := by
    simp only [crossedBuy, FillPath.fill, trackedFill, TrackedRead.fill, hsize, hcost]
    rfl
  refine ⟨⟨rfl, rfl⟩, by decide, by rw [hfill]; rfl, fun h => ?_⟩
  have hzero := (h _ hfill).zero rfl
  exact absurd hzero (by decide)

end Polyshield.Signing

import Polyshield.Lib.FloatRounding
import Polyshield.Signing.Orders
import Polyshield.Vault.Lifecycle
import Polyshield.Vault.Reverts

/-!
# What the fill paths attest

Every way in which `orderBuilder.ts` and `wsFillTracker.ts` come to a fill and its
cost, the attestation that `attestTerminal` signs for it, and the bounds that the
Vault has for the attestation. The CLOB writes non-negative decimals, and `none`
where one is missing; the code reads a decimal as the nearest double, and computes
with doubles. Where a decimal is not a finite double, nothing is signed.
-/

namespace Polyshield.Signing

open FloatRounding

/-- `Number(x)` and `parseFloat(x)`. -/
def number (x : ℚ≥0) : ℚ≥0 := binary64.round x

/-! The operators on doubles. -/

def plus (x y : ℚ≥0) : ℚ≥0 := binary64.round (x + y)

def times (x y : ℚ≥0) : ℚ≥0 := binary64.round (x * y)

def divide (x y : ℚ≥0) : ℚ≥0 := binary64.round (x / y)

/-- `BigInt(Math.floor(x))`. -/
def floorAmount (x : ℚ≥0) : ℕ := ⌊x⌋₊

/-- `1e6`, the micro-units of a unit. -/
abbrev micro : ℚ≥0 := 10 ^ 6

/-- `BigInt(Math.floor(x * 1e6))`. -/
def floorMicro (x : ℚ≥0) : ℕ := ⌊times x micro⌋₊

-- `0.000498` loses a micro-unit.
example : floorMicro (number (498 / 10 ^ 6)) = 497 := by decide +kernel

/-- `BigInt(Math.round(x * 1e6))`. -/
def roundMicro (x : ℚ≥0) : ℕ := ⌊times x micro + half⌋₊

/-! ## The fills -/

/-- The arguments of `attestTerminal`; the status is only logged. -/
structure Fill where
  bet : TerminalBet
  filledShares : ℕ
  spentAmount : ℕ

/-- The matched amounts of a response to a POST. Those of the mock are 1e6-scaled. -/
inductive MatchedAmounts where
  | scaled (filledShares spentAmount : ℚ≥0)
  | decimal (takingAmount makingAmount : Option ℚ≥0)
  | sizeMatched (size : ℚ≥0)
  | missing

/-- The shares and the cost that `submitFAKOrder` reads, at the price of the event. -/
def MatchedAmounts.bought (price : ℕ) : MatchedAmounts → ℕ × ℕ
  | .scaled filledShares spentAmount =>
    (floorAmount (number filledShares), floorAmount (number spentAmount))
  | .decimal takingAmount makingAmount =>
    (roundMicro (number (takingAmount.getD 0)), roundMicro (number (makingAmount.getD 0)))
  | .sizeMatched size =>
    (floorMicro (number size), floorMicro (number size) * price / 100000000)
  | .missing => (0, 0)

/-- The shares that `submitMarketSellOrder` reads; only the mock's response is read as scaled. -/
def MatchedAmounts.sold (mock : Bool) : MatchedAmounts → ℕ
  | .scaled filledShares _ => if mock then floorAmount (number filledShares) else 0
  | .decimal _ makingAmount => if mock then 0 else roundMicro (number (makingAmount.getD 0))
  | .sizeMatched size => if mock then 0 else floorMicro (number size)
  | .missing => 0

/-- `submittedShares1e6`, of the double that is sent as the size; the mock is sent none. -/
def submittedShares (size : Option ℚ≥0) : ℕ := (size.map roundMicro).getD 0

/-- `submitFAKOrder` with the response to its POST. -/
def submitFAKOrder (e : BetAuthorizedEvent) (size : Option ℚ≥0) (resp : MatchedAmounts)
    (explicitMiss : Bool) : Option Fill :=
  let (filledShares, spentAmount) := resp.bought e.price
  -- A fill that cannot be read is left without an attestation.
  if filledShares = 0 ∧ ¬explicitMiss ∧ size.isSome then none
  else some ⟨⟨e.nullifier, e.expectedShares, e.betAmount, .buy⟩, filledShares,
    if 0 < submittedShares size ∧ 0 < filledShares then
      marketSpentWithFee e.betAmount filledShares (submittedShares size)
    else spentAmount⟩

/-- What `getOrder` answers for an order that has left the book. -/
structure ClobOrder where
  sizeMatched : Option ℚ≥0
  price : Option ℚ≥0

/-- `Number(od.size_matched || 0)`. -/
def ClobOrder.matched (od : ClobOrder) : ℚ≥0 := number (od.sizeMatched.getD 0)

/-- `reconcileMarketSubmission` with the record and the answer of `getOrder`. A price that is
missing is read as zero. -/
def reconcileMarketFill (e : BetAuthorizedEvent) (od : ClobOrder) : Fill :=
  ⟨⟨e.nullifier, e.expectedShares, e.betAmount, .buy⟩, roundMicro od.matched,
    roundMicro (times od.matched (number (od.price.getD 0)))⟩

/-- `Number(od.price || 0) || fallback`. -/
def ClobOrder.priceOr (od : ClobOrder) (fallback : ℚ≥0) : ℚ≥0 :=
  if number (od.price.getD 0) = 0 then fallback else number (od.price.getD 0)

structure MakerOrder where
  orderId : OrderId
  matchedAmount : Option ℚ≥0
  price : Option ℚ≥0

/-- `amt` of an entry. -/
def MakerOrder.matched (t : MakerOrder) : ℚ≥0 := number (t.matchedAmount.getD 0)

/-- The size and the cost that `confirmFillViaTrades` sums up. -/
def tradedSize (o : TrackedOrder) (trades : List MakerOrder) : ℚ≥0 :=
  (trades.filter fun t => t.orderId = o.orderID ∧ 0 < t.matched).foldl
    (fun shares t => plus shares t.matched) 0

def tradedCost (o : TrackedOrder) (trades : List MakerOrder) : ℚ≥0 :=
  (trades.filter fun t => t.orderId = o.orderID ∧ 0 < t.matched).foldl
    (fun spent t => plus spent (times t.matched (number (t.price.getD 0)))) 0

/-- What a resting order is finalized from. -/
inductive TrackedRead where
  /-- A message of the user channel, with the mock's amounts. -/
  | scaled (filledShares spentAmount : ℚ≥0)
  | sizeMatched (size : ℚ≥0)
  | noSize
  /-- `cancelTrackedOrder` and `reconcileOne` with the answer of `getOrder`. -/
  | cancelled (od : ClobOrder)
  | reconciled (od : ClobOrder)
  /-- The same with the trade history. -/
  | cancelledTrades (trades : List MakerOrder)
  | reconciledTrades (trades : List MakerOrder)
  /-- `reconcileOne` with the mock's order. -/
  | mockOrder (filledShares spentAmount : Option ℚ≥0)
  | marketResolved

/-- The price that a cancellation falls back to. -/
def cancelPrice (o : TrackedOrder) : ℚ≥0 :=
  match o.side with
  | .sell => divide (number o.sellLimitPrice) micro
  | .buy => divide (number o.price) (10 ^ 8)

/-- The shares and the cost that `finalize` is called with. -/
def TrackedRead.fill (o : TrackedOrder) : TrackedRead → Option (ℕ × ℕ)
  | .scaled filledShares spentAmount =>
    some (floorAmount (number filledShares), floorAmount (number spentAmount))
  | .sizeMatched size =>
    some (SigningLayer.extractFill ⟨none, none, some (floorMicro (number size))⟩ o)
  | .noSize => some (SigningLayer.extractFill ⟨none, none, none⟩ o)
  | .cancelled od =>
    some (roundMicro od.matched, roundMicro (times od.matched (od.priceOr (cancelPrice o))))
  | .reconciled od =>
    some (roundMicro od.matched,
      roundMicro (times od.matched (od.priceOr (divide (number o.price) (10 ^ 8)))))
  | .cancelledTrades trades =>
    some (roundMicro (tradedSize o trades), roundMicro (tradedCost o trades))
  | .reconciledTrades trades =>
    if roundMicro (tradedSize o trades) = 0 then none
    else some (roundMicro (tradedSize o trades), roundMicro (tradedCost o trades))
  | .mockOrder filledShares spentAmount =>
    some (floorAmount (number (filledShares.getD 0)), floorAmount (number (spentAmount.getD 0)))
  | .marketResolved => some (0, 0)

def trackedFill (o : TrackedOrder) (r : TrackedRead) : Option Fill :=
  (r.fill o).map fun (filled, spent) =>
    ⟨⟨o.nullifier, o.expectedShares, o.betAmount, o.side⟩, filled,
      SigningLayer.adjSpent o spent⟩

/-- `submitMarketSellOrder` with the response to its POST; `confirmed` is the answer of
`confirmSellFilled`, false where it is not asked. -/
def submitMarketSellOrder (req : CloseRequest) (mock : Bool) (resp : MatchedAmounts)
    (confirmed : Bool) (sellPrice sellFee : ℕ) : Fill :=
  let filledShares := if resp.sold mock = 0 ∧ confirmed then req.soldShares else resp.sold mock
  ⟨⟨req.nullifierOfBet, req.soldShares, 0, .sell⟩, filledShares,
    filledShares * sellPrice / 1000000 - sellFee⟩

/-- The ways to a fill of a bet, or of its close. -/
inductive FillPath where
  | market (size : Option ℚ≥0) (resp : MatchedAmounts) (explicitMiss : Bool)
  | reconcileMarket (od : ClobOrder)
  | limit (orderType : OrderType) (orderID : OrderId) (takerFeeUsd : ℕ) (r : TrackedRead)
  | marketClose (req : CloseRequest) (mock : Bool) (resp : MatchedAmounts) (confirmed : Bool)
    (sellPrice sellFee : ℕ)
  | limitClose (req : CloseRequest) (orderType : OrderType) (conditionId : ℕ) (tokenId : TokenId)
    (orderID : OrderId) (takerFeeUsd : ℕ) (r : TrackedRead)

/-- The request is one that `POST /close-request` takes. -/
def CloseRequest.Accepted (req : CloseRequest) : Prop :=
  0 < req.soldShares ∧ 0 < req.limitPrice ∧ req.limitPrice ≤ 1000000

instance (req : CloseRequest) : Decidable req.Accepted := inferInstanceAs (Decidable (_ ∧ _))

/-- The fill that is attested for the bet `e`, or for its close. -/
def FillPath.fill (e : BetAuthorizedEvent) : FillPath → Option Fill
  | .market size resp explicitMiss => submitFAKOrder e size resp explicitMiss
  | .reconcileMarket od => some (reconcileMarketFill e od)
  | .limit orderType orderID takerFeeUsd r =>
    trackedFill (SigningLayer.limitTracked e orderType orderID takerFeeUsd) r
  | .marketClose req mock resp confirmed sellPrice sellFee =>
    if req.Accepted then some (submitMarketSellOrder req mock resp confirmed sellPrice sellFee)
    else none
  | .limitClose req orderType conditionId tokenId orderID takerFeeUsd r =>
    if req.Accepted then
      trackedFill (SigningLayer.sellTracked req orderType conditionId tokenId orderID takerFeeUsd) r
    else none

/-! ## The attestation -/

def Fill.input (f : Fill) : Option AttestationInput :=
  match f.bet.side with
  | .sell =>
    if f.filledShares = 0 then none
    else some ⟨f.bet.nullifier, .sold, soldShares f.bet.expectedShares f.filledShares,
      f.spentAmount⟩
  | .buy => some (outcomeInput f.bet f.filledShares f.spentAmount)

theorem attestTerminal_eq (s : SigningLayer) (f : Fill) (after : AfterAttest) :
    s.attestTerminal f.bet f.filledShares f.spentAmount after =
      match f.input with
      | some input => s.signAndStoreAttestation input after
      | none => s.spawn (.attested after) := by
  unfold SigningLayer.attestTerminal Fill.input
  cases f.bet.side with
  | sell => by_cases hfilled : f.filledShares = 0 <;> simp [hfilled]
  | buy => rfl

/-- The bounds of the Vault, for the bet's record as it was authorized; a full fill is one within
the dust. -/
def WithinBounds (e : BetAuthorizedEvent) (filledShares : ℕ) (a : AttestationInput) : Prop :=
  match a.reportType with
  | .failed => filledShares = 0
  | .filled => e.expectedShares ≤ filledShares + dust
  | .partialFill =>
    0 < a.amountA ∧ a.amountA < e.expectedShares ∧ 0 < a.amountB ∧ a.amountB ≤ e.betAmount
  | .sold => 0 < a.amountA ∧ a.amountA ≤ e.expectedShares

section Vault

variable {F Proof Sig : Type} [Field F] [DecidableEq F] (E : Env F Proof Sig)

/-- The Vault does not refuse the attestation for its amounts, the record being as it was
authorized, with nothing sold. -/
def AmountsTaken (e : BetAuthorizedEvent) (a : AttestationInput) : Prop :=
  ∀ (s : VaultState F) (proof : Proof) (att : OperatorAttestation F) (sig : Sig),
    att.amountA.toNat = a.amountA → att.amountB.toNat = a.amountB →
    (a.reportType = .partialFill → ∀ inputs : PartialFillPublicInputs F,
      (s.betRecords inputs.nullifierOfBet).expectedShares.toNat = e.expectedShares →
      (s.betRecords inputs.nullifierOfBet).betAmount.toNat = e.betAmount →
      partialFillCredit E s proof inputs att sig ≠ .error .invalidFilledShares ∧
        partialFillCredit E s proof inputs att sig ≠ .error .invalidSpentAmount) ∧
    (a.reportType = .sold → ∀ inputs : ClosePublicInputs F,
      (s.betRecords inputs.nullifierOfBet).expectedShares.toNat = e.expectedShares →
      (s.betRecords inputs.nullifierOfBet).soldShares = 0 →
      closePosition E s proof inputs att sig ≠ .error .invalidSoldShares)

variable {E}

theorem WithinBounds.amountsTaken {e : BetAuthorizedEvent} {filledShares : ℕ}
    {a : AttestationInput} (h : WithinBounds e filledShares a) : AmountsTaken E e a := by
  intro s proof att sig hA hB
  constructor
  · intro htype inputs hshares hstake
    rw [WithinBounds, htype] at h
    obtain ⟨hA0, hA1, hB0, hB1⟩ := h
    have hfilled : 0 < att.amountA ∧
        att.amountA < (s.betRecords inputs.nullifierOfBet).expectedShares := by
      rw [UInt64.lt_iff_toNat_lt, UInt64.lt_iff_toNat_lt, hA, hshares]
      exact ⟨hA0, hA1⟩
    have hspent : 0 < att.amountB ∧
        att.amountB ≤ (s.betRecords inputs.nullifierOfBet).betAmount := by
      rw [UInt64.lt_iff_toNat_lt, UInt64.le_iff_toNat_le, hB, hstake]
      exact ⟨hB0, hB1⟩
    exact ⟨partialFillCredit_ne (.inl rfl) hfilled hspent,
      partialFillCredit_ne (.inr rfl) hfilled hspent⟩
  · intro htype inputs hshares hnone
    rw [WithinBounds, htype] at h
    refine closePosition_ne ?_
    rw [hnone, UInt64.lt_iff_toNat_lt, UInt64.le_iff_toNat_le, hA, hshares]
    exact h

variable (E)

/-- Whatever is signed on the path is within the bounds, and the Vault takes its amounts. -/
def FillPath.Consumable (e : BetAuthorizedEvent) (p : FillPath) : Prop :=
  ∀ f a, p.fill e = some f → f.input = some a →
    WithinBounds e f.filledShares a ∧ AmountsTaken E e a

end Vault

/-! ## When the bounds are met -/

/-- Some shares, and fewer than the bet is for. -/
def ShortFill (e : BetAuthorizedEvent) (filledShares : ℕ) : Prop :=
  0 < filledShares ∧ filledShares + dust < e.expectedShares

theorem buy_within_iff {e : BetAuthorizedEvent} {f : Fill}
    (hbet : f.bet = ⟨e.nullifier, e.expectedShares, e.betAmount, .buy⟩) :
    (∀ a, f.input = some a → WithinBounds e f.filledShares a) ↔
      (ShortFill e f.filledShares → 0 < e.betAmount ∧ 0 < f.spentAmount) := by
  unfold Fill.input
  simp only [hbet, Option.some.injEq, forall_eq', outcomeInput, ShortFill]
  split
  next hzero => simp [WithinBounds, hzero]
  next hzero =>
    split
    next hfull =>
      refine ⟨fun _ hshort => absurd hshort.2 (by omega), fun _ => hfull⟩
    next hshort =>
      simp only [WithinBounds]
      constructor
      · intro h _
        omega
      · intro h
        have hpos := h ⟨by omega, by omega⟩
        omega

/-- The shares sold are within the bet. -/
def SaleFits (e : BetAuthorizedEvent) (requested filledShares : ℕ) : Prop :=
  0 < filledShares →
    (requested ≤ filledShares + dust → requested ≤ e.expectedShares) ∧
    (filledShares + dust < requested → filledShares ≤ e.expectedShares)

theorem sell_within_iff {e : BetAuthorizedEvent} {f : Fill} {nullifier : Hex32} {requested : ℕ}
    (hbet : f.bet = ⟨nullifier, requested, 0, .sell⟩) (hpos : 0 < requested) :
    (∀ a, f.input = some a → WithinBounds e f.filledShares a) ↔
      SaleFits e requested f.filledShares := by
  unfold Fill.input SaleFits
  simp only [hbet]
  by_cases hzero : f.filledShares = 0
  · simp [hzero]
  · simp only [if_neg hzero, Option.some.injEq, forall_eq', WithinBounds, soldShares]
    split
    · omega
    · omega

/-! ## The costs that are read -/

theorem floorAmount_pos {x : ℚ≥0} : 0 < floorAmount x ↔ 1 ≤ x := Nat.floor_pos

theorem roundMicro_pos {x : ℚ≥0} : 0 < roundMicro x ↔ half ≤ times x micro := by
  have hhalf : half + half ≤ times x micro + half ↔ half ≤ times x micro :=
    add_le_add_iff_right _
  rwa [add_halves, ← Nat.floor_pos] at hhalf

theorem marketSpentWithFee_pos {betAmount filled submitted : ℕ} (hbet : 0 < betAmount)
    (hsubmitted : 0 < submitted) :
    0 < marketSpentWithFee betAmount filled submitted ↔
      submitted ≤ filled + dust ∨ submitted ≤ betAmount * filled := by
  unfold marketSpentWithFee
  split
  next hfull => exact iff_of_true hbet (.inl hfull)
  next hshort => rw [lt_min_iff, Nat.div_pos_iff, or_iff_right hshort]; omega

/-- The cost that a response tells is not rounded to zero. -/
def MatchedAmounts.Costs (price : ℕ) : MatchedAmounts → Prop
  | .scaled _ spentAmount => 1 ≤ number spentAmount
  | .decimal _ makingAmount => half ≤ times (number (makingAmount.getD 0)) micro
  | .sizeMatched size => 100000000 ≤ floorMicro (number size) * price
  | .missing => False

theorem MatchedAmounts.bought_pos {price : ℕ} {resp : MatchedAmounts} :
    0 < (resp.bought price).2 ↔ resp.Costs price := by
  cases resp with
  | scaled filledShares spentAmount => exact floorAmount_pos
  | decimal takingAmount makingAmount => exact roundMicro_pos
  | sizeMatched size => simp [bought, Costs, Nat.div_pos_iff]
  | missing => simp [bought, Costs]

def TrackedRead.Costs (o : TrackedOrder) : TrackedRead → Prop
  | .scaled _ spentAmount => 1 ≤ number spentAmount
  | .sizeMatched size => 100000000 ≤ floorMicro (number size) * o.price
  | .noSize => False
  | .cancelled od =>
    half ≤ times (times od.matched (od.priceOr (cancelPrice o))) micro
  | .reconciled od =>
    half ≤ times (times od.matched (od.priceOr (divide (number o.price) (10 ^ 8)))) micro
  | .cancelledTrades trades => half ≤ times (tradedCost o trades) micro
  | .reconciledTrades trades => half ≤ times (tradedCost o trades) micro
  | .mockOrder _ spentAmount => 1 ≤ number (spentAmount.getD 0)
  | .marketResolved => False

theorem TrackedRead.fill_pos {o : TrackedOrder} {r : TrackedRead} {filled spent : ℕ}
    (hside : o.side = .buy) (h : r.fill o = some (filled, spent)) : 0 < spent ↔ r.Costs o := by
  cases r with
  | scaled filledShares spentAmount => cases h; exact floorAmount_pos
  | sizeMatched size =>
    simp only [fill, SigningLayer.extractFill, hside, Option.some.injEq, Prod.mk.injEq] at h
    rw [← h.2, Costs, Nat.div_pos_iff]
    omega
  | noSize => cases h; simp [Costs]
  | cancelled od => cases h; exact roundMicro_pos
  | reconciled od => cases h; exact roundMicro_pos
  | cancelledTrades trades => cases h; exact roundMicro_pos
  | reconciledTrades trades =>
    obtain ⟨-, h⟩ := Option.ite_none_left_eq_some.mp h
    cases h
    exact roundMicro_pos
  | mockOrder filledShares spentAmount => cases h; exact floorAmount_pos
  | marketResolved => cases h; simp [Costs]

/-! ## The attestations that can be consumed -/

/-- The shares that a path reads, none where it does not get to an attestation. -/
def FillPath.filledShares (e : BetAuthorizedEvent) (p : FillPath) : ℕ :=
  ((p.fill e).map Fill.filledShares).getD 0

/-- A short fill has a cost that is not rounded to zero, and the bet a stake; a sale is of no more
shares than the bet has. -/
def FillPath.Sound (e : BetAuthorizedEvent) (p : FillPath) : Prop :=
  match p with
  | .market size resp _ =>
    ShortFill e (p.filledShares e) → 0 < e.betAmount ∧
      if 0 < submittedShares size then
        submittedShares size ≤ p.filledShares e + dust ∨
          submittedShares size ≤ e.betAmount * p.filledShares e
      else resp.Costs e.price
  | .reconcileMarket od =>
    ShortFill e (p.filledShares e) → 0 < e.betAmount ∧
      half ≤ times (times od.matched (number (od.price.getD 0))) micro
  | .limit orderType orderID takerFeeUsd r =>
    ShortFill e (p.filledShares e) → 0 < e.betAmount ∧
      (0 < takerFeeUsd ∨ r.Costs (SigningLayer.limitTracked e orderType orderID takerFeeUsd))
  | .marketClose req .. => SaleFits e req.soldShares (p.filledShares e)
  | .limitClose req .. => SaleFits e req.soldShares (p.filledShares e)

theorem submitFAKOrder_some {e : BetAuthorizedEvent} {size : Option ℚ≥0} {resp : MatchedAmounts}
    {explicitMiss : Bool} {f : Fill} (h : submitFAKOrder e size resp explicitMiss = some f) :
    f.bet = ⟨e.nullifier, e.expectedShares, e.betAmount, .buy⟩ ∧
      f.spentAmount =
        if 0 < submittedShares size ∧ 0 < f.filledShares then
          marketSpentWithFee e.betAmount f.filledShares (submittedShares size)
        else (resp.bought e.price).2 := by
  obtain ⟨-, h⟩ := Option.ite_none_left_eq_some.mp h
  cases h
  exact ⟨rfl, rfl⟩

section Consumable

variable {F Proof Sig : Type} [Field F] [DecidableEq F] {E : Env F Proof Sig}
  {e : BetAuthorizedEvent} {p : FillPath}

theorem consumable_of_none (h : p.fill e = none) : p.Consumable E e := by
  intro f a hf
  cases h.symm.trans hf

theorem consumable_iff {f : Fill} (h : p.fill e = some f) :
    p.Consumable E e ↔ ∀ a, f.input = some a → WithinBounds e f.filledShares a := by
  constructor
  · intro hp a ha
    exact (hp f a h ha).1
  · intro hf f' a hf' ha
    cases h.symm.trans hf'
    exact ⟨hf a ha, (hf a ha).amountsTaken⟩

end Consumable

theorem filledShares_eq {e : BetAuthorizedEvent} {p : FillPath} {f : Fill}
    (h : p.fill e = some f) : p.filledShares e = f.filledShares := by
  rw [FillPath.filledShares, h]
  rfl

theorem filledShares_of_none {e : BetAuthorizedEvent} {p : FillPath} (h : p.fill e = none) :
    p.filledShares e = 0 := by
  rw [FillPath.filledShares, h]
  rfl

theorem not_shortFill_zero (e : BetAuthorizedEvent) : ¬ShortFill e 0 := fun h =>
  absurd h.1 (Nat.lt_irrefl 0)

theorem sound_of_none {e : BetAuthorizedEvent} {p : FillPath} (h : p.fill e = none) :
    p.Sound e := by
  have hzero := filledShares_of_none h
  cases p with
  | market size resp explicitMiss =>
    intro hshort
    rw [hzero] at hshort
    exact absurd hshort (not_shortFill_zero e)
  | reconcileMarket od => cases h
  | limit orderType orderID takerFeeUsd r =>
    intro hshort
    rw [hzero] at hshort
    exact absurd hshort (not_shortFill_zero e)
  | marketClose req mock resp confirmed sellPrice sellFee =>
    intro hpos
    omega
  | limitClose req orderType conditionId tokenId orderID takerFeeUsd r =>
    intro hpos
    omega

/-- What is signed for a fill can be consumed exactly when the cost of a short fill is not rounded
to zero, and a sale is of no more shares than the bet has. -/
theorem attestations_consumable_iff {F Proof Sig : Type} [Field F] [DecidableEq F]
    (E : Env F Proof Sig) (e : BetAuthorizedEvent) (p : FillPath) :
    p.Consumable E e ↔ p.Sound e := by
  cases h : p.fill e with
  | none => exact iff_of_true (consumable_of_none h) (sound_of_none h)
  | some f =>
    have hfilled := filledShares_eq h
    rw [consumable_iff h]
    cases p with
    | market size resp explicitMiss =>
      obtain ⟨hbet, hspent⟩ := submitFAKOrder_some h
      rw [buy_within_iff hbet, FillPath.Sound, hfilled, hspent]
      refine imp_congr_right fun hshort => and_congr_right fun hstake => ?_
      by_cases hsubmitted : 0 < submittedShares size
      · rw [if_pos ⟨hsubmitted, hshort.1⟩, if_pos hsubmitted]
        exact marketSpentWithFee_pos hstake hsubmitted
      · rw [if_neg fun hboth => hsubmitted hboth.1, if_neg hsubmitted]
        exact MatchedAmounts.bought_pos
    | reconcileMarket od =>
      cases h
      rw [buy_within_iff rfl, FillPath.Sound, hfilled]
      exact imp_congr_right fun _ => and_congr_right fun _ => roundMicro_pos
    | limit orderType orderID takerFeeUsd r =>
      obtain ⟨⟨filled, spent⟩, hread, h⟩ := Option.map_eq_some_iff.mp h
      cases h
      rw [buy_within_iff rfl, FillPath.Sound, hfilled, ← TrackedRead.fill_pos rfl hread]
      refine imp_congr_right fun _ => and_congr_right fun _ => ?_
      simp only [SigningLayer.adjSpent, SigningLayer.limitTracked]
      omega
    | marketClose req mock resp confirmed sellPrice sellFee =>
      obtain ⟨haccepted, h⟩ := Option.ite_none_right_eq_some.mp h
      cases h
      rw [sell_within_iff rfl haccepted.1, FillPath.Sound, hfilled]
    | limitClose req orderType conditionId tokenId orderID takerFeeUsd r =>
      obtain ⟨haccepted, h⟩ := Option.ite_none_right_eq_some.mp h
      obtain ⟨read, -, h⟩ := Option.map_eq_some_iff.mp h
      cases h
      rw [sell_within_iff rfl haccepted.1, FillPath.Sound, hfilled]

def quarterBet : BetAuthorizedEvent where
  nullifier := ⟨List.replicate 64 '5', List.length_replicate, fun c hc => by
    rw [List.eq_of_mem_replicate hc]
    decide⟩
  outcomeSide := 0
  expectedShares := 5000000
  betAmount := 1250000
  price := 25000000
  lowercase := by decide
  conditionId := 1
  tokenId := 2

/-- One share is matched, and `getOrder` answers no price. -/
theorem missing_price_not_consumable :
    (reconcileMarketFill quarterBet ⟨some 1, none⟩).input =
        some ⟨quarterBet.nullifier, .partialFill, 1000000, 0⟩ ∧
      ¬(FillPath.reconcileMarket ⟨some 1, none⟩).Consumable (mockEnv []) quarterBet := by
  have hshares : roundMicro (number 1) = 1000000 := by decide +kernel
  have hcost : roundMicro (times (number 1) (number 0)) = 0 := by decide +kernel
  have hinput : (reconcileMarketFill quarterBet ⟨some 1, none⟩).input =
      some ⟨quarterBet.nullifier, .partialFill, 1000000, 0⟩ := by
    show some (outcomeInput _ (roundMicro (number 1))
      (roundMicro (times (number 1) (number 0)))) = _
    rw [hshares, hcost]
    rfl
  refine ⟨hinput, fun h => ?_⟩
  have hbounds := (h _ _ rfl hinput).1
  exact absurd hbounds.2.2.1 (lt_irrefl 0)

end Polyshield.Signing

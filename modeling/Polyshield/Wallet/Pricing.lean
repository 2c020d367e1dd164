import Mathlib.Algebra.Order.Floor.Ring
import Mathlib.Data.Rat.Floor
import Mathlib.Data.List.Sort
import Polyshield.Lib.AskLadder

/-!
# The ceiling of a market order

`pricing.ts`: the price that a market BUY commits to, from the asks of the book,
and the order preview with the shares it commits to. A finite `number` is a
rational, without the rounding of a float; a field that may be `NaN` or infinite
is an option. Prices and sizes are in human units, a `bigint` is an integer.
-/

namespace Polyshield.Wallet

open AskLadder

/-! ## Numbers -/

def mathRound (x : ℚ) : ℤ := ⌊x + 1 / 2⌋

/-- `Number(p.toFixed(6))`: of two nearest decimals the one further from zero. -/
def clean (p : ℚ) : ℚ :=
  if 0 ≤ p then mathRound (p * 10 ^ 6) / 10 ^ 6 else -(mathRound (-p * 10 ^ 6) / 10 ^ 6)

def defaultTick : ℚ := 1 / 1000

/-- A tick that is not finite and positive is not used. -/
def safeTick (tick : Option ℚ) : ℚ :=
  match tick with
  | some t => if 0 < t then t else defaultTick
  | none => defaultTick

def ceilToTick (price : ℚ) (tick : Option ℚ) : ℚ :=
  clean (⌈price / safeTick tick - 1 / 10 ^ 9⌉ * safeTick tick)

/-! ## The ceiling -/

/-- `clean(Math.min(1 - t, Math.max(t, snapped)))` for the padded price. -/
def snapToBand (t padded : ℚ) : ℚ := clean (min (1 - t) (max t (ceilToTick padded (some t))))

def pad (price slippageBps : ℚ) : ℚ := price * (1 + slippageBps / 10000)

def marketBuyCeiling (ask tick : Option ℚ) (slippageBps : ℚ) : ℚ :=
  snapToBand (safeTick tick)
    (pad (match ask with
      | some ask => if 0 < ask then ask else 1 / 2
      | none => 1 / 2) slippageBps)

structure BookLevel where
  price : Option ℚ
  size : Option ℚ

structure Ask where
  price : ℚ
  size : ℚ

def BookLevel.ask? (level : BookLevel) : Option Ask :=
  match level.price, level.size with
  | some price, some size => if 0 < price ∧ 0 < size then some ⟨price, size⟩ else none
  | _, _ => none

/-- `usable`: the asks of the ladder, the cheapest first; the sort is stable. -/
def usable (levels : List BookLevel) : List Ask :=
  (levels.filterMap BookLevel.ask?).mergeSort fun a b => a.price ≤ b.price

/-- The walk over the ladder: the price of the level at which the cost covers the notional, or of
the deepest one. -/
def clearing (notional : ℚ) : ℚ → ℚ → List Ask → ℚ
  | worst, _, [] => worst
  | _, cost, level :: ladder =>
    if notional ≤ cost + level.price * level.size then level.price
    else clearing notional level.price (cost + level.price * level.size) ladder

/-- A notional that is not finite and positive clears at the top of the book. -/
def clearingPrice (notionalUsd : Option ℚ) (top : Ask) (ladder : List Ask) : ℚ :=
  match notionalUsd with
  | some notional =>
    if 0 < notional then clearing notional top.price 0 (top :: ladder) else top.price
  | none => top.price

def marketBuyCeilingFromBook (levels : List BookLevel) (notionalUsd tick fallbackAsk : Option ℚ)
    (slippageBps : ℚ) : ℚ :=
  let t := safeTick tick
  match usable levels with
  | [] => marketBuyCeiling (some (fallbackAsk.getD (1 / 2))) (some t) slippageBps
  | top :: ladder => snapToBand t (pad (clearingPrice notionalUsd top ladder) slippageBps)

/-! ## The preview -/

def polyMinOrderBet : ℤ := (1000000 * 10000 : ℤ).tdiv (10000 - 2000)

def minShares : ℤ := 5000000

structure OrderPreviewInput where
  amountMicro : ℤ
  effectivePrice : ℚ
  protocolFeeBps : ℤ
  relayGasMicro : ℤ
  takerFeeBps : ℤ
  minBetMicro : ℤ

structure OrderPreview where
  shares : ℤ
  sharesAfterTakerFee : ℤ
  protocolFeeMicro : ℤ
  relayFeeMicro : ℤ
  totalFeeMicro : ℤ
  totalDeductedMicro : ℤ
  belowMin : Bool
  effectiveMinBetMicro : ℤ
  belowMinShares : Bool

/-- The shares of a stake at a price; `none` where the `bigint` division by zero throws. -/
def previewShares (amountMicro : ℤ) (effectivePrice : ℚ) : Option ℤ :=
  if 0 < amountMicro ∧ 0 < effectivePrice then
    if mathRound (effectivePrice * 10 ^ 8) = 0 then none
    else some ((amountMicro * 10 ^ 8).tdiv (mathRound (effectivePrice * 10 ^ 8)))
  else some 0

def computeOrderPreview (input : OrderPreviewInput) : Option OrderPreview :=
  (previewShares input.amountMicro input.effectivePrice).map fun shares =>
    let effectiveMinBetMicro := max input.minBetMicro polyMinOrderBet
    let positive := 0 < input.amountMicro
    let protocolFeeMicro :=
      if positive then (input.amountMicro * input.protocolFeeBps).tdiv 10000 else 0
    let relayFeeMicro := if positive then input.relayGasMicro else 0
    { shares
      sharesAfterTakerFee := (shares * (10000 - input.takerFeeBps)).tdiv 10000
      protocolFeeMicro
      relayFeeMicro
      totalFeeMicro := protocolFeeMicro + relayFeeMicro
      totalDeductedMicro := input.amountMicro + (protocolFeeMicro + relayFeeMicro)
      belowMin := positive ∧ input.amountMicro < effectiveMinBetMicro
      effectiveMinBetMicro
      belowMinShares := 0 < shares ∧ shares < minShares }

/-! ## Rounding to the tick -/

/-- A positive multiple of `10 ^ -6`. -/
def IsTick (tick : ℚ) : Prop := ∃ m : ℕ, 0 < m ∧ tick = m / 10 ^ 6

/-- A price of the market: a multiple of the tick in the band. -/
def OnTick (tick price : ℚ) : Prop := (∃ k : ℤ, price = k * tick) ∧ tick ≤ price ∧ price ≤ 1 - tick

theorem IsTick.pos {tick : ℚ} (h : IsTick tick) : 0 < tick := by
  obtain ⟨m, hm, rfl⟩ := h
  positivity

theorem mathRound_natCast (n : ℕ) : mathRound n = n := by
  rw [mathRound, Int.floor_eq_iff]
  constructor <;> push_cast <;> linarith

theorem clean_of_grid (n : ℕ) : clean (n / 10 ^ 6) = n / 10 ^ 6 := by
  rw [clean, if_pos (by positivity), div_mul_cancel₀ _ (by norm_num), mathRound_natCast,
    Int.cast_natCast]

section Snap

variable {tick padded price : ℚ}

theorem safeTick_of_pos (h : 0 < tick) : safeTick (some tick) = tick := if_pos h

theorem le_ceil_slack (htick : 0 < tick) {k : ℤ} (hk : k * tick ≤ padded) :
    k ≤ ⌈padded / tick - 1 / 10 ^ 9⌉ := by
  have hdiv : (k : ℚ) ≤ padded / tick := (le_div_iff₀ htick).mpr hk
  rw [Int.le_ceil_iff]
  linarith

/-- A padded price that is not below a price of the market is snapped to a price of the grid that is
not below it either. -/
theorem snapToBand_spec (htick : IsTick tick) (hprice : OnTick tick price) (hpad : price ≤ padded) :
    ∃ n : ℕ, 0 < n ∧ snapToBand tick padded = n / 10 ^ 6 ∧ price ≤ snapToBand tick padded := by
  have hpos := htick.pos
  obtain ⟨m, hm, hm'⟩ := htick
  obtain ⟨⟨k, hk⟩, hlow, hhigh⟩ := hprice
  have hkpos : 0 < k := by
    have : (0 : ℚ) < k := pos_of_mul_pos_left (by rw [← hk]; linarith) hpos.le
    exact_mod_cast this
  have hle := le_ceil_slack hpos (hk ▸ hpad)
  -- The number of ticks the price is rounded up to.
  obtain ⟨j, hj⟩ := Int.eq_ofNat_of_zero_le (hkpos.le.trans hle)
  have hceil : ceilToTick padded (some tick) = j * tick := by
    rw [ceilToTick, safeTick_of_pos hpos, hj, hm']
    have hgrid := clean_of_grid (j * m)
    push_cast at hgrid ⊢
    rw [mul_div_assoc] at hgrid
    exact hgrid
  have hsnapped : price ≤ j * tick := by
    rw [hk]
    have : (k : ℚ) ≤ (j : ℤ) := by exact_mod_cast hj ▸ hle
    exact mul_le_mul_of_nonneg_right this hpos.le
  have hmax : max tick (j * tick) = j * tick := max_eq_right (hlow.trans hsnapped)
  rw [snapToBand, hceil, hmax]
  rcases le_total (1 - tick) (j * tick) with hband | hband
  · -- The top of the band.
    have hm6 : m ≤ 10 ^ 6 := by
      have : (m : ℚ) / 10 ^ 6 ≤ 1 := by rw [← hm']; linarith
      rw [div_le_one (by norm_num)] at this
      exact_mod_cast this
    have hgrid : 1 - tick = ((10 ^ 6 - m : ℕ) : ℚ) / 10 ^ 6 := by
      rw [hm', Nat.cast_sub hm6]
      norm_num [sub_div]
    refine ⟨10 ^ 6 - m, ?_, ?_, ?_⟩
    · have : (0 : ℚ) < ((10 ^ 6 - m : ℕ) : ℚ) / 10 ^ 6 := by rw [← hgrid]; linarith
      have : (0 : ℚ) < ((10 ^ 6 - m : ℕ) : ℚ) := by
        rwa [div_pos_iff_of_pos_right (by norm_num)] at this
      exact_mod_cast this
    · rw [min_eq_left hband, hgrid, clean_of_grid]
    · rw [min_eq_left hband, hgrid, clean_of_grid, ← hgrid]
      exact hhigh
  · have hgrid : j * tick = ((j * m : ℕ) : ℚ) / 10 ^ 6 := by
      rw [hm']
      push_cast
      rw [mul_div_assoc]
    refine ⟨j * m, Nat.mul_pos (by omega) hm, ?_, ?_⟩
    · rw [min_eq_right hband, hgrid, clean_of_grid]
    · rw [min_eq_right hband, hgrid, clean_of_grid, ← hgrid]
      exact hsnapped

end Snap

/-! ## The clearing price -/

theorem usable_perm (levels : List BookLevel) :
    (usable levels).Perm (levels.filterMap BookLevel.ask?) :=
  List.mergeSort_perm _ _

theorem mem_usable {levels : List BookLevel} {a : Ask} (h : a ∈ usable levels) :
    0 < a.price ∧ 0 < a.size := by
  rw [(usable_perm levels).mem_iff, List.mem_filterMap] at h
  obtain ⟨level, -, hask⟩ := h
  unfold BookLevel.ask? at hask
  split at hask
  · split at hask
    · rename_i hpos
      cases hask
      exact hpos
    · cases hask
  · cases hask

theorem usable_sorted (levels : List BookLevel) :
    (usable levels).Pairwise fun a b => a.price ≤ b.price := by
  have h := @List.pairwise_mergeSort _ (fun a b : Ask => decide (a.price ≤ b.price))
    (fun a b c hab hbc => by
      simp only [decide_eq_true_eq] at hab hbc ⊢
      exact hab.trans hbc)
    (fun a b => by
      simp only [Bool.or_eq_true, decide_eq_true_eq]
      exact le_total _ _) (levels.filterMap BookLevel.ask?)
  simpa only [usable, decide_eq_true_eq] using h

section Clearing

variable {notional worst cost p : ℚ} {ladder : List Ask}

theorem clearing_mem (notional worst cost : ℚ) (ladder : List Ask) :
    clearing notional worst cost ladder = worst ∨
      ∃ a ∈ ladder, clearing notional worst cost ladder = a.price := by
  induction ladder generalizing worst cost with
  | nil => exact .inl rfl
  | cons a ladder ih =>
    right
    unfold clearing
    split
    · exact ⟨a, List.mem_cons_self, rfl⟩
    · rcases ih a.price (cost + a.price * a.size) with h | ⟨b, hb, h⟩
      · exact ⟨a, List.mem_cons_self, h⟩
      · exact ⟨b, List.mem_cons_of_mem _ hb, h⟩

theorem le_clearing (hworst : p ≤ worst) (hladder : ∀ a ∈ ladder, p ≤ a.price) :
    p ≤ clearing notional worst cost ladder := by
  rcases clearing_mem notional worst cost ladder with h | ⟨a, ha, h⟩
  · rw [h]; exact hworst
  · rw [h]; exact hladder a ha

/-- The levels up to the clearing price cover what the ladder covers. -/
theorem le_depthTo_clearing (hsorted : ladder.Pairwise fun a b => a.price ≤ b.price)
    (hpos : ∀ a ∈ ladder, 0 < a.price ∧ 0 < a.size)
    (hcovers : notional ≤ cost + depth Ask.price Ask.size ladder) :
    notional ≤ cost + depthTo Ask.price Ask.size (clearing notional worst cost ladder) ladder := by
  induction ladder generalizing worst cost with
  | nil => exact hcovers
  | cons a ladder ih =>
    rw [List.pairwise_cons] at hsorted
    have hrest : ∀ b ∈ ladder, 0 < b.price ∧ 0 < b.size :=
      fun b hb => hpos b (List.mem_cons_of_mem _ hb)
    unfold clearing
    split
    case isTrue hstop =>
      rw [depthTo_cons_of_le le_rfl, ← add_assoc]
      have hnonneg : 0 ≤ depthTo Ask.price Ask.size a.price ladder :=
        depthTo_nonneg fun b hb => (mul_pos (hrest b hb).1 (hrest b hb).2).le
      linarith
    case isFalse =>
      have hle : a.price ≤ clearing notional a.price (cost + a.price * a.size) ladder :=
        le_clearing le_rfl hsorted.1
      rw [depthTo_cons_of_le hle, ← add_assoc]
      rw [depth_cons, ← add_assoc] at hcovers
      exact ih hsorted.2 hrest hcovers

end Clearing

/-! ## The bound -/

/-- The ceiling is a positive price of the grid, and the levels up to a price no higher cover the
stake. -/
theorem marketBuyCeilingFromBook_spec {levels : List BookLevel} {notional tick slippageBps : ℚ}
    (fallbackAsk : Option ℚ) (htick : IsTick tick) (hslippage : 0 ≤ slippageBps)
    (hprices : ∀ a ∈ usable levels, OnTick tick a.price) (hnotional : 0 < notional)
    (hcovers : notional ≤ depth Ask.price Ask.size (usable levels)) :
    ∃ n : ℕ, 0 < n ∧
      marketBuyCeilingFromBook levels (some notional) (some tick) fallbackAsk slippageBps
        = n / 10 ^ 6 ∧
      ∃ worst ≤ marketBuyCeilingFromBook levels (some notional) (some tick) fallbackAsk slippageBps,
        notional ≤ depthTo Ask.price Ask.size worst (usable levels) := by
  have hsorted := usable_sorted levels
  have hpos : ∀ a ∈ usable levels, 0 < a.price ∧ 0 < a.size := fun a => mem_usable
  unfold marketBuyCeilingFromBook
  generalize usable levels = ladder at *
  cases ladder with
  | nil => exact absurd hnotional (not_lt.mpr (by simpa [depth] using hcovers))
  | cons top ladder =>
    simp only [clearingPrice, if_pos hnotional, safeTick_of_pos htick.pos]
    have hworst : OnTick tick (clearing notional top.price 0 (top :: ladder)) := by
      rcases clearing_mem notional top.price 0 (top :: ladder) with h | ⟨a, ha, h⟩
      · rw [h]; exact hprices top List.mem_cons_self
      · rw [h]; exact hprices a ha
    have hdepth : notional ≤ 0 + depthTo Ask.price Ask.size
        (clearing notional top.price 0 (top :: ladder)) (top :: ladder) :=
      le_depthTo_clearing hsorted hpos (by rwa [zero_add])
    rw [zero_add] at hdepth
    generalize clearing notional top.price 0 (top :: ladder) = worst at *
    have hpad : worst ≤ pad worst slippageBps := by
      have hnonneg : 0 ≤ worst := htick.pos.le.trans hworst.2.1
      have : 0 ≤ worst * (slippageBps / 10000) := by positivity
      unfold pad
      linarith
    obtain ⟨n, hn, heq, hle⟩ := snapToBand_spec htick hworst hpad
    exact ⟨n, hn, heq, worst, hle, hdepth⟩

/-- At a price of the grid the preview commits to the floor of the stake by the price. -/
theorem previewShares_of_grid {amountMicro : ℤ} (hamount : 0 < amountMicro) {n : ℕ} (hn : 0 < n) :
    previewShares amountMicro (n / 10 ^ 6)
      = some ⌊(amountMicro * 10 ^ 8 : ℚ) / mathRound ((n / 10 ^ 6 : ℚ) * 10 ^ 8)⌋ := by
  have hround : mathRound ((n / 10 ^ 6 : ℚ) * 10 ^ 8) = (n * 100 : ℕ) := by
    rw [← mathRound_natCast]
    congr 1
    push_cast
    ring
  have hprice : (0 : ℚ) < n / 10 ^ 6 := by positivity
  rw [previewShares, if_pos ⟨hamount, hprice⟩, hround, if_neg (by positivity),
    Int.tdiv_eq_ediv_of_nonneg (by positivity)]
  congr 1
  rw [← Rat.floor_intCast_div_natCast]
  push_cast
  rfl

/-- The ceiling is not below any level that the stake touches, and the shares committed to are no
more than the sweep of the ladder yields, in whatever order levels of one price are taken. -/
theorem market_buy_ceiling_bounds {levels : List BookLevel} {tick slippageBps : ℚ}
    (fallbackAsk : Option ℚ) {input : OrderPreviewInput} {ladder : List Ask} (htick : IsTick tick)
    (hprices : ∀ a ∈ usable levels, OnTick tick a.price) (hslippage : 0 ≤ slippageBps)
    (hamount : 0 < input.amountMicro) (hladder : ladder.Perm (usable levels))
    (hsorted : ladder.Pairwise fun a b => a.price ≤ b.price)
    (hcovers : (input.amountMicro : ℚ) / 10 ^ 6 ≤ depth Ask.price Ask.size ladder)
    (heffective : input.effectivePrice = marketBuyCeilingFromBook levels
      (some (input.amountMicro / 10 ^ 6)) (some tick) fallbackAsk slippageBps) :
    (∀ fill ∈ sweep Ask.price Ask.size ladder (input.amountMicro / 10 ^ 6),
      fill.1.price ≤ input.effectivePrice) ∧
    ∃ preview, computeOrderPreview input = some preview ∧
      preview.shares
        = ⌊(input.amountMicro * 10 ^ 8 : ℚ) / mathRound (input.effectivePrice * 10 ^ 8)⌋ ∧
      (preview.shares : ℚ)
        ≤ 10 ^ 6 * shares (sweep Ask.price Ask.size ladder (input.amountMicro / 10 ^ 6)) := by
  have hnotional : (0 : ℚ) < input.amountMicro / 10 ^ 6 := by
    have : (0 : ℚ) < input.amountMicro := by exact_mod_cast hamount
    positivity
  obtain ⟨n, hn, heq, worst, hworst, hdepth⟩ := marketBuyCeilingFromBook_spec fallbackAsk htick
    hslippage hprices hnotional (hcovers.trans_eq (depth_perm hladder))
  rw [← heffective] at heq hworst
  rw [← depthTo_perm hladder] at hdepth
  have htouched : ∀ fill ∈ sweep Ask.price Ask.size ladder (input.amountMicro / 10 ^ 6),
      fill.1.price ≤ input.effectivePrice :=
    fun fill hfill => (price_le_of_mem_sweep hsorted hdepth hfill).trans hworst
  have hpos : ∀ a ∈ ladder, 0 < a.price ∧ 0 < a.size :=
    fun a ha => mem_usable (hladder.mem_iff.mp ha)
  have hshares := cost_le_mul_shares (fun a ha => (hpos a ha).1) (fun a ha => (hpos a ha).2.le)
    hnotional.le hcovers htouched
  have hpreview := previewShares_of_grid hamount hn
  rw [← heq] at hpreview
  refine ⟨htouched, _, by rw [computeOrderPreview, hpreview]; rfl, rfl, ?_⟩
  have hround :
      (mathRound (input.effectivePrice * 10 ^ 8) : ℚ) = input.effectivePrice * 10 ^ 8 := by
    have hgrid : (n / 10 ^ 6 : ℚ) * 10 ^ 8 = ((n * 100 : ℕ) : ℚ) := by push_cast; ring
    rw [heq, hgrid, mathRound_natCast, Int.cast_natCast]
  have hprice : 0 < input.effectivePrice := by rw [heq]; positivity
  calc ((⌊(input.amountMicro * 10 ^ 8 : ℚ) / mathRound (input.effectivePrice * 10 ^ 8)⌋ : ℤ) : ℚ)
      ≤ input.amountMicro * 10 ^ 8 / mathRound (input.effectivePrice * 10 ^ 8) := Int.floor_le _
    _ = 10 ^ 6 * (input.amountMicro / 10 ^ 6 / input.effectivePrice) := by
        rw [hround]
        field_simp
    _ ≤ 10 ^ 6 * shares (sweep Ask.price Ask.size ladder (input.amountMicro / 10 ^ 6)) := by
        have := (div_le_iff₀' hprice).mpr hshares
        linarith

def sampleBook : List BookLevel :=
  [⟨some (52 / 100), some 300⟩, ⟨some (51 / 100), some 0⟩, ⟨none, some 5⟩, ⟨some (1 / 2), some 100⟩]

theorem filterMap_sampleBook :
    sampleBook.filterMap BookLevel.ask? = [⟨52 / 100, 300⟩, ⟨1 / 2, 100⟩] := by
  norm_num [sampleBook, BookLevel.ask?, List.filterMap_cons]

def sampleOrder : OrderPreviewInput where
  amountMicro := 100000000
  effectivePrice := marketBuyCeilingFromBook sampleBook (some ((100000000 : ℤ) / 10 ^ 6))
    (some (1 / 100)) none 200
  protocolFeeBps := 50
  relayGasMicro := 100000
  takerFeeBps := 0
  minBetMicro := 1000000

theorem market_buy_ceiling_bounds_two_levels :
    (∀ fill ∈ sweep Ask.price Ask.size (usable sampleBook) (sampleOrder.amountMicro / 10 ^ 6),
      fill.1.price ≤ sampleOrder.effectivePrice) ∧
    ∃ preview, computeOrderPreview sampleOrder = some preview ∧
      preview.shares
        = ⌊(sampleOrder.amountMicro * 10 ^ 8 : ℚ)
            / mathRound (sampleOrder.effectivePrice * 10 ^ 8)⌋ ∧
      (preview.shares : ℚ) ≤ 10 ^ 6 *
        shares (sweep Ask.price Ask.size (usable sampleBook)
          (sampleOrder.amountMicro / 10 ^ 6)) := by
  have htick : IsTick (1 / 100) := ⟨10000, by decide, by norm_num⟩
  have hprices : ∀ a ∈ usable sampleBook, OnTick (1 / 100) a.price := by
    intro a ha
    rw [(usable_perm sampleBook).mem_iff, filterMap_sampleBook, List.mem_pair] at ha
    rcases ha with rfl | rfl
    · exact ⟨⟨52, by norm_num⟩, by norm_num, by norm_num⟩
    · exact ⟨⟨50, by norm_num⟩, by norm_num, by norm_num⟩
  have hcovers : (sampleOrder.amountMicro : ℚ) / 10 ^ 6
      ≤ depth Ask.price Ask.size (usable sampleBook) := by
    rw [depth_perm (usable_perm sampleBook), filterMap_sampleBook]
    norm_num [depth, sampleOrder]
  exact market_buy_ceiling_bounds none htick hprices (by norm_num) (by decide) (List.Perm.refl _)
    (usable_sorted sampleBook) hcovers rfl

end Polyshield.Wallet

import Mathlib.Algebra.BigOperators.Group.List.Basic
import Mathlib.Algebra.Order.BigOperators.Group.List
import Mathlib.Algebra.Order.Field.Basic
import Mathlib.Tactic.Linarith

/-!
# Sweeping an ask ladder

A ladder is a list of levels, each with a price and a size. An order of a given
cost takes the levels in order, the last one in part. `depthTo` is the cost of
the levels up to a price; it does not depend on the order of the ladder. An
order of no more than that touches no level above the price, and an order that
is covered gets at least its cost divided by the highest price it touches.
-/

namespace AskLadder

variable {α K : Type*} [Field K] [LinearOrder K] (price size : α → K)

def depth (ladder : List α) : K := (ladder.map fun l => price l * size l).sum

/-- The cost of the levels of at most this price. -/
def depthTo (c : K) (ladder : List α) : K := depth price size (ladder.filter fun l => price l ≤ c)

/-- The levels that an order takes, each with the size it takes of it. -/
def sweep : List α → K → List (α × K)
  | [], _ => []
  | l :: ladder, cost =>
    if cost ≤ 0 then []
    else if cost ≤ price l * size l then [(l, cost / price l)]
    else (l, size l) :: sweep ladder (cost - price l * size l)

def shares (fills : List (α × K)) : K := (fills.map Prod.snd).sum

variable {price size} {c cost : K} {l : α} {ladder ladder' : List α}

omit [LinearOrder K] in
theorem depth_cons :
    depth price size (l :: ladder) = price l * size l + depth price size ladder := by
  simp [depth]

omit [LinearOrder K] in
theorem depth_perm (h : ladder.Perm ladder') : depth price size ladder = depth price size ladder' :=
  (h.map _).sum_eq

theorem depthTo_perm (h : ladder.Perm ladder') :
    depthTo price size c ladder = depthTo price size c ladder' :=
  depth_perm (h.filter _)

theorem depthTo_cons_of_le (h : price l ≤ c) :
    depthTo price size c (l :: ladder) = price l * size l + depthTo price size c ladder := by
  unfold depthTo
  rw [List.filter_cons_of_pos (by simpa using h), depth_cons]

theorem depthTo_of_lt (h : ∀ l ∈ ladder, c < price l) : depthTo price size c ladder = 0 := by
  unfold depthTo
  rw [List.filter_eq_nil_iff.mpr fun l hl => by simpa using h l hl]
  rfl

variable [IsStrictOrderedRing K]

theorem depthTo_nonneg (hcost : ∀ l ∈ ladder, 0 ≤ price l * size l) :
    0 ≤ depthTo price size c ladder := by
  refine List.sum_nonneg fun x hx => ?_
  obtain ⟨l, hl, rfl⟩ := List.mem_map.mp hx
  exact hcost l (List.mem_of_mem_filter hl)

/-- An order that the levels up to a price cover touches none above it. -/
theorem price_le_of_mem_sweep (hsorted : ladder.Pairwise fun a b => price a ≤ price b)
    (hcost : cost ≤ depthTo price size c ladder) {fill : α × K}
    (hfill : fill ∈ sweep price size ladder cost) : price fill.1 ≤ c := by
  induction ladder generalizing cost with
  | nil => cases hfill
  | cons l ladder ih =>
    rw [List.pairwise_cons] at hsorted
    unfold sweep at hfill
    split at hfill
    case isTrue => cases hfill
    case isFalse hpos =>
      by_cases hl : price l ≤ c
      · rw [depthTo_cons_of_le hl] at hcost
        split at hfill
        case isTrue =>
          rw [List.mem_singleton.mp hfill]
          exact hl
        case isFalse =>
          rcases List.mem_cons.mp hfill with rfl | hfill
          · exact hl
          · exact ih hsorted.2 (sub_le_iff_le_add'.mpr hcost) hfill
      · -- All levels are above the price, so the order costs nothing.
        rw [depthTo_of_lt] at hcost
        · exact absurd hcost hpos
        · intro a ha
          rcases List.mem_cons.mp ha with rfl | ha
          · exact not_le.mp hl
          · exact (not_le.mp hl).trans_le (hsorted.1 a ha)

/-- The fills of a covered order cost what the order costs. -/
theorem sum_sweep (hprice : ∀ l ∈ ladder, 0 < price l) (hcost : 0 ≤ cost)
    (hcovers : cost ≤ depth price size ladder) :
    ((sweep price size ladder cost).map fun fill => price fill.1 * fill.2).sum = cost := by
  induction ladder generalizing cost with
  | nil =>
    have hzero : cost = 0 := le_antisymm hcovers hcost
    simp [sweep, hzero]
  | cons l ladder ih =>
    rw [depth_cons] at hcovers
    have hl : 0 < price l := hprice l List.mem_cons_self
    unfold sweep
    split
    case isTrue hzero => simpa using le_antisymm hcost hzero
    case isFalse =>
      split
      case isTrue => simp [mul_div_cancel₀ cost hl.ne']
      case isFalse hmore =>
        have hrest : 0 ≤ cost - price l * size l := (sub_pos.mpr (not_le.mp hmore)).le
        rw [List.map_cons, List.sum_cons,
          ih (fun a ha => hprice a (List.mem_cons_of_mem _ ha)) hrest
            (sub_le_iff_le_add'.mpr hcovers)]
        exact add_sub_cancel ..

theorem sweep_nonneg (hprice : ∀ l ∈ ladder, 0 < price l) (hsize : ∀ l ∈ ladder, 0 ≤ size l)
    {fill : α × K} (hfill : fill ∈ sweep price size ladder cost) : 0 ≤ fill.2 := by
  induction ladder generalizing cost with
  | nil => cases hfill
  | cons l ladder ih =>
    unfold sweep at hfill
    split at hfill
    case isTrue => cases hfill
    case isFalse hpos =>
      split at hfill
      case isTrue =>
        rw [List.mem_singleton.mp hfill]
        exact div_nonneg (not_le.mp hpos).le (hprice l List.mem_cons_self).le
      case isFalse =>
        rcases List.mem_cons.mp hfill with rfl | hfill
        · exact hsize l List.mem_cons_self
        · exact ih (fun a ha => hprice a (List.mem_cons_of_mem _ ha))
            (fun a ha => hsize a (List.mem_cons_of_mem _ ha)) hfill

/-- Fills at no more than a price cost no more than their shares at that price. -/
theorem sum_le_mul_shares {fills : List (α × K)} (hprice : ∀ fill ∈ fills, price fill.1 ≤ c)
    (hsize : ∀ fill ∈ fills, 0 ≤ fill.2) :
    (fills.map fun fill => price fill.1 * fill.2).sum ≤ c * shares fills := by
  induction fills with
  | nil => simp [shares]
  | cons fill fills ih =>
    have hfirst : price fill.1 * fill.2 ≤ c * fill.2 :=
      mul_le_mul_of_nonneg_right (hprice fill List.mem_cons_self) (hsize fill List.mem_cons_self)
    have hrest := ih (fun a ha => hprice a (List.mem_cons_of_mem _ ha))
      (fun a ha => hsize a (List.mem_cons_of_mem _ ha))
    simp only [shares, List.map_cons, List.sum_cons, mul_add] at hrest ⊢
    exact add_le_add hfirst hrest

/-- A covered order gets its cost divided by the highest price it touches, or more. -/
theorem cost_le_mul_shares (hprice : ∀ l ∈ ladder, 0 < price l) (hsize : ∀ l ∈ ladder, 0 ≤ size l)
    (hcost : 0 ≤ cost) (hcovers : cost ≤ depth price size ladder)
    (hc : ∀ fill ∈ sweep price size ladder cost, price fill.1 ≤ c) :
    cost ≤ c * shares (sweep price size ladder cost) := by
  have hsum := sum_sweep hprice hcost hcovers
  have hle := sum_le_mul_shares hc fun fill hfill => sweep_nonneg hprice hsize hfill
  rwa [hsum] at hle

end AskLadder

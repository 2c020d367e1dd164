import Polyshield.Vault.Steps

/-!
# The life of one bet

A bet is its record and its provisional fee. `BetStep` is the transition system
the Vault runs each bet through: which statuses a step may leave, what it writes,
and how it disposes of the fee. `BetRun` is a history of such steps from the
unset entry; its invariants are what the lifecycle of a bet promises.
-/

namespace Polyshield

variable {F : Type} [Field F]

@[ext] structure Bet (F : Type) where
  record : BetRecord F
  fee : UInt64

def Bet.unset : Bet F := ⟨.unset, 0⟩

inductive BetEvent (F : Type) where
  | create (record : BetRecord F) (fee : UInt64)
  | settle
  | cancel
  | naCancel
  | close (soldShares sellProceeds : UInt64)
  | partialFill (filledShares spentAmount : UInt64)
  | adminCancel

/-- The statuses a credit leaves for good. -/
def BetStatus.Terminal (status : BetStatus) : Prop :=
  status ∈ [BetStatus.credited, .cancelledCredited, .closedCredited]

instance : DecidablePred BetStatus.Terminal := fun _ => inferInstanceAs (Decidable (_ ∈ _))

inductive BetStep : Bet F → BetEvent F → Bet F → Prop
  | create {record : BetRecord F} {fee : UInt64} (hstatus : record.status = .active)
    (hsold : record.soldShares = 0) (hproceeds : record.sellProceeds = 0) :
    BetStep .unset (.create record fee) ⟨record, fee⟩
  | settle {b : Bet F} (h : b.record.status = .active ∨ b.record.status = .filled) :
    BetStep b .settle ⟨{ b.record with status := .credited }, 0⟩
  | cancel {b : Bet F} (h : b.record.status = .active ∨ b.record.status = .failed) :
    BetStep b .cancel ⟨{ b.record with status := .cancelledCredited }, 0⟩
  | naCancel {b : Bet F}
    (h : b.record.status = .active ∨ b.record.status = .filled ∨ b.record.status = .failed) :
    BetStep b .naCancel ⟨{ b.record with status := .cancelledCredited }, 0⟩
  | close {b : Bet F} {a p : UInt64}
    (h : b.record.status = .active ∨ b.record.status = .filled)
    (hlo : b.record.soldShares < a) (hhi : a ≤ b.record.expectedShares)
    (hp : b.record.sellProceeds ≤ p) :
    BetStep b (.close a p)
      ⟨closedRecord b.record a p, if a = b.record.expectedShares then 0 else b.fee⟩
  | partialFill {b : Bet F} {f q : UInt64} (h : b.record.status = .active)
    (hlo : 0 < f.toNat) (hhi : f < b.record.expectedShares) (hq : q ≤ b.record.betAmount) :
    BetStep b (.partialFill f q) ⟨normalizedRecord b.record f q, 0⟩
  | adminCancel {b : Bet F} (h : b.record.status = .active) :
    BetStep b .adminCancel ⟨{ b.record with status := .failed }, b.fee⟩

namespace BetEvent

def createdShares? : BetEvent F → Option UInt64
  | .create record _ => some record.expectedShares
  | _ => none

def isClose : BetEvent F → Bool
  | .close _ _ => true
  | _ => false

def charged : BetEvent F → ℕ
  | .create _ fee => fee.toNat
  | _ => 0

/-- What a step returns of the fee into the bettor's note. -/
def refunded (b : Bet F) : BetEvent F → ℕ
  | .cancel => b.fee.toNat
  | .partialFill _ q => refundedFee b.fee.toNat b.record.betAmount.toNat q.toNat
  | _ => 0

/-- What a step adds of the fee to the claimable fees. -/
def released (b : Bet F) : BetEvent F → ℕ
  | .settle => b.fee.toNat
  | .naCancel => b.fee.toNat
  | .close a _ => if a = b.record.expectedShares then b.fee.toNat else 0
  | .partialFill _ q =>
    b.fee.toNat - refundedFee b.fee.toNat b.record.betAmount.toNat q.toNat
  | _ => 0

omit [Field F] in
theorem released_close_full {b : Bet F} {a p : UInt64} (h : a = b.record.expectedShares) :
    (BetEvent.close a p).released b = b.fee.toNat := if_pos h

omit [Field F] in
theorem released_close_partial {b : Bet F} {a p : UInt64} (h : a ≠ b.record.expectedShares) :
    (BetEvent.close a p).released b = 0 := if_neg h

end BetEvent

section Step

variable {b b' : Bet F} {e : BetEvent F} (h : BetStep b e b')

include h

theorem BetStep.not_terminal : ¬ b.record.status.Terminal := by
  unfold BetStatus.Terminal
  cases h with
  | create => simp [Bet.unset, BetRecord.unset]
  | settle h => rcases h with h | h <;> simp [h]
  | cancel h => rcases h with h | h <;> simp [h]
  | naCancel h => rcases h with h | h | h <;> simp [h]
  | close h => rcases h with h | h <;> simp [h]
  | partialFill h => simp [h]
  | adminCancel h => simp [h]

theorem BetStep.sold_mono : b.record.soldShares ≤ b'.record.soldShares ∧
    b.record.sellProceeds ≤ b'.record.sellProceeds := by
  cases h with
  | create => exact ⟨UInt64.zero_le, UInt64.zero_le⟩
  | close _ hlo _ hp => exact ⟨UInt64.le_of_lt hlo, hp⟩
  | _ => exact ⟨UInt64.le_refl _, UInt64.le_refl _⟩

/-- The fee a step finds or charges is what it leaves, refunds or releases. -/
theorem BetStep.fee_split :
    b.fee.toNat + e.charged = b'.fee.toNat + e.refunded b + e.released b := by
  cases h with
  | create => simp [BetEvent.charged, BetEvent.refunded, BetEvent.released, Bet.unset]
  | close =>
    simp only [BetEvent.charged, BetEvent.refunded, BetEvent.released]
    split <;> simp
  | @partialFill _ f q =>
    have := refundedFee_le b.fee.toNat b.record.betAmount.toNat q.toNat
    simp only [BetEvent.charged, BetEvent.refunded, BetEvent.released, UInt64.toNat_zero]
    omega
  | _ => simp [BetEvent.charged, BetEvent.refunded, BetEvent.released]

/-- A step that refunds or releases something takes the whole fee. -/
theorem BetStep.fee_taken (hx : e.refunded b ≠ 0 ∨ e.released b ≠ 0) :
    b.fee ≠ 0 ∧ b'.fee = 0 := by
  have hsplit : ∀ q, refundedFee 0 b.record.betAmount.toNat q = 0 := fun q => by simp [refundedFee]
  cases h with
  | create => simp [BetEvent.refunded, BetEvent.released] at hx
  | adminCancel => simp [BetEvent.refunded, BetEvent.released] at hx
  | close =>
    simp only [BetEvent.refunded, BetEvent.released, ne_eq, not_true_eq_false, false_or] at hx
    split at hx
    · rename_i hfull
      refine ⟨fun h0 => hx (by rw [h0]; rfl), by rw [if_pos hfull]⟩
    · exact absurd rfl hx
  | partialFill =>
    refine ⟨fun h0 => ?_, rfl⟩
    simp [BetEvent.refunded, BetEvent.released, h0, hsplit] at hx
  | _ =>
    refine ⟨fun h0 => ?_, rfl⟩
    simp [BetEvent.refunded, BetEvent.released, h0] at hx

/-- A fee that is still there was there before, or has just been charged. -/
theorem BetStep.fee_kept (hx : b'.fee ≠ 0) : b.fee = b'.fee ∨ b = .unset := by
  cases h with
  | create => exact .inr rfl
  | adminCancel => exact .inl rfl
  | close =>
    left
    simp only at hx ⊢
    split
    · rw [if_pos ‹_›] at hx
      exact absurd rfl hx
    · rfl
  | _ => exact absurd rfl hx

theorem BetStep.sold_le (hb : b.record.soldShares ≤ b.record.expectedShares)
    (hactive : b.record.status = .active → b.record.soldShares = 0) :
    b'.record.soldShares ≤ b'.record.expectedShares := by
  cases h with
  | create _ hsold => simp only; rw [hsold]; exact UInt64.zero_le
  | close _ _ hhi => exact hhi
  | partialFill h0 =>
    simp only [normalizedRecord]
    rw [hactive h0]
    exact UInt64.zero_le
  | _ => exact hb

end Step

/-! ## Histories -/

/-- The steps that led to a state of the bet, each with the state it left. -/
inductive BetRun : List (Bet F × BetEvent F) → Bet F → Prop
  | nil : BetRun [] .unset
  | step {hist : List (Bet F × BetEvent F)} {b b' : Bet F} {e : BetEvent F} (h : BetRun hist b)
    (hs : BetStep b e b') : BetRun (hist ++ [(b, e)]) b'

def sumSteps (amount : Bet F × BetEvent F → ℕ) (hist : List (Bet F × BetEvent F)) : ℕ :=
  (hist.map amount).sum

/-- How many steps of a history have a non-zero amount. -/
def countSteps (amount : Bet F × BetEvent F → ℕ) (hist : List (Bet F × BetEvent F)) : ℕ :=
  hist.countP fun x => decide (amount x ≠ 0)

def chargedAt (x : Bet F × BetEvent F) : ℕ := x.2.charged

def refundedAt (x : Bet F × BetEvent F) : ℕ := x.2.refunded x.1

def releasedAt (x : Bet F × BetEvent F) : ℕ := x.2.released x.1

def BetEvent.ends (b : Bet F) : BetEvent F → Bool
  | .settle | .cancel | .naCancel => true
  | .close a _ => decide (a = b.record.expectedShares)
  | _ => false

section Sums

variable (amount : Bet F × BetEvent F → ℕ) (hist : List (Bet F × BetEvent F))
  (x : Bet F × BetEvent F)

omit [Field F]

@[simp] theorem sumSteps_nil : sumSteps amount [] = 0 := rfl

@[simp] theorem sumSteps_append :
    sumSteps amount (hist ++ [x]) = sumSteps amount hist + amount x := by
  simp [sumSteps]

@[simp] theorem countSteps_nil : countSteps amount [] = 0 := rfl

theorem countSteps_append_le : countSteps amount (hist ++ [x]) ≤ countSteps amount hist + 1 := by
  unfold countSteps
  rw [List.countP_append]
  have := List.countP_le_length (p := fun x => decide (amount x ≠ 0)) (l := [x])
  simp only [List.length_singleton] at this
  omega

theorem countSteps_append_zero (h : amount x = 0) :
    countSteps amount (hist ++ [x]) = countSteps amount hist := by
  simp [countSteps, List.countP_append, h]

theorem sumSteps_eq_zero (h : countSteps amount hist = 0) : sumSteps amount hist = 0 := by
  rw [countSteps, List.countP_eq_zero] at h
  rw [sumSteps, List.sum_eq_zero_iff]
  intro y hy
  obtain ⟨x, hx, rfl⟩ := List.mem_map.mp hy
  simpa using h x hx

end Sums

/-- What a history of steps implies about the bet it ends in. -/
structure BetInvariant (hist : List (Bet F × BetEvent F)) (b : Bet F) : Prop where
  /-- The fee charged is provisional, refunded or released. -/
  fee_split : sumSteps chargedAt hist
    = b.fee.toNat + sumSteps refundedAt hist + sumSteps releasedAt hist
  /-- While a fee is provisional nothing of it was refunded or released. -/
  fee_whole : b.fee ≠ 0 → countSteps refundedAt hist = 0 ∧ countSteps releasedAt hist = 0
  refunded_once : countSteps refundedAt hist ≤ 1
  released_once : countSteps releasedAt hist ≤ 1
  sold_le : b.record.soldShares ≤ b.record.expectedShares
  untouched : b.record.status = .active ∨ b.record.status = .failed →
    b.record.soldShares = 0 ∧ countSteps refundedAt hist = 0 ∧ countSteps releasedAt hist = 0
  terminal : b.record.status.Terminal → b.fee = 0
  open_of_not_terminal : ¬ b.record.status.Terminal → hist.countP (fun x => x.2.ends x.1) = 0
  ended_once : hist.countP (fun x => x.2.ends x.1) ≤ 1
  /-- A bet that ended by a cancellation got its whole fee back. -/
  cancelled : ∀ x ∈ hist, x.2 = .cancel → sumSteps refundedAt hist = sumSteps chargedAt hist

/-- How the counts of a history change with a step that moves no fee or the whole of it. -/
theorem BetInvariant.counts {hist : List (Bet F × BetEvent F)} {b b' : Bet F} {e : BetEvent F}
    (hi : BetInvariant hist b) (hs : BetStep b e b') :
    (b'.fee ≠ 0 → countSteps refundedAt (hist ++ [(b, e)]) = 0 ∧
        countSteps releasedAt (hist ++ [(b, e)]) = 0) ∧
      countSteps refundedAt (hist ++ [(b, e)]) ≤ 1 ∧
      countSteps releasedAt (hist ++ [(b, e)]) ≤ 1 := by
  by_cases hx : e.refunded b ≠ 0 ∨ e.released b ≠ 0
  · -- the whole fee goes, so it was whole before
    obtain ⟨hb, hb'⟩ := hs.fee_taken hx
    obtain ⟨h1, h2⟩ := hi.fee_whole hb
    have h3 := countSteps_append_le refundedAt hist (b, e)
    have h4 := countSteps_append_le releasedAt hist (b, e)
    exact ⟨fun h => absurd hb' h, by omega, by omega⟩
  · simp only [ne_eq, not_or, not_not] at hx
    rw [countSteps_append_zero refundedAt hist (b, e) hx.1,
      countSteps_append_zero releasedAt hist (b, e) hx.2]
    refine ⟨fun h => ?_, hi.refunded_once, hi.released_once⟩
    rcases hs.fee_kept h with hk | rfl
    · exact hi.fee_whole (by rw [hk]; exact h)
    · exact (hi.untouched (.inl rfl)).2

theorem BetStep.active_or_failed {b b' : Bet F} {e : BetEvent F} (hs : BetStep b e b')
    (h : b'.record.status = .active ∨ b'.record.status = .failed) :
    b.record.status = .active ∧ b'.record.soldShares = b.record.soldShares ∧
      e.refunded b = 0 ∧ e.released b = 0 := by
  cases hs with
  | create _ hsold => exact ⟨rfl, hsold, rfl, rfl⟩
  | adminCancel h0 => exact ⟨h0, rfl, rfl, rfl⟩
  | close =>
    simp only [closedRecord] at h
    split at h <;> simp at h
  | partialFill => simp [normalizedRecord] at h
  | settle => simp at h
  | cancel => simp at h
  | naCancel => simp at h

/-- A step ends a bet exactly when it leaves it in a terminal status. -/
theorem BetStep.ends_iff {b b' : Bet F} {e : BetEvent F} (hs : BetStep b e b') :
    e.ends b = true ↔ b'.record.status.Terminal := by
  cases hs with
  | create hstatus => simp [BetEvent.ends, BetStatus.Terminal, hstatus]
  | @close a p =>
    simp only [BetEvent.ends, closedRecord, decide_eq_true_eq, BetStatus.Terminal]
    split <;> simp [*]
  | partialFill => simp [BetEvent.ends, BetStatus.Terminal, normalizedRecord]
  | _ => simp [BetEvent.ends, BetStatus.Terminal]

theorem BetStep.terminal_fee {b b' : Bet F} {e : BetEvent F} (hs : BetStep b e b')
    (h : b'.record.status.Terminal) : b'.fee = 0 := by
  have hends := hs.ends_iff.mpr h
  cases hs with
  | close =>
    simp only [BetEvent.ends, decide_eq_true_eq] at hends
    simp only [if_pos hends]
  | create => cases hends
  | adminCancel => cases hends
  | _ => rfl

theorem BetRun.invariant {hist : List (Bet F × BetEvent F)} {b : Bet F} (h : BetRun hist b) :
    BetInvariant hist b := by
  induction h with
  | nil =>
    refine ⟨rfl, fun h => absurd rfl h, Nat.zero_le _, Nat.zero_le _, UInt64.le_refl _,
      fun _ => ⟨rfl, rfl, rfl⟩, fun _ => rfl, fun _ => rfl, Nat.zero_le _, fun x hx => ?_⟩
    cases hx
  | @step hist b b' e hrun hs ih =>
    obtain ⟨hwhole, hone, hone'⟩ := ih.counts hs
    have hopen := ih.open_of_not_terminal hs.not_terminal
    have hsplit := hs.fee_split
    have hold := ih.fee_split
    constructor
    · simp only [sumSteps_append, chargedAt, refundedAt, releasedAt] at hold ⊢
      omega
    · exact hwhole
    · exact hone
    · exact hone'
    · exact hs.sold_le ih.sold_le fun ha => (ih.untouched (.inl ha)).1
    · intro hst
      obtain ⟨ha, hsold, href, hrel⟩ := hs.active_or_failed hst
      obtain ⟨h1, h2, h3⟩ := ih.untouched (.inl ha)
      rw [hsold, countSteps_append_zero refundedAt hist (b, e) href,
        countSteps_append_zero releasedAt hist (b, e) hrel]
      exact ⟨h1, h2, h3⟩
    · exact hs.terminal_fee
    · intro hnt
      rw [← hs.ends_iff] at hnt
      rw [List.countP_append, hopen]
      simp [hnt]
    · rw [List.countP_append, hopen, Nat.zero_add]
      exact List.countP_le_length
    · intro x hx hc
      rw [List.mem_append, List.mem_singleton] at hx
      rcases hx with hx | rfl
      · -- a cancellation before this step would have been the last one
        rw [List.countP_eq_zero] at hopen
        exact absurd (by rw [hc]; rfl) (hopen x hx)
      · simp only at hc
        subst hc
        cases hs with
        | cancel hst =>
          obtain ⟨-, h2, h3⟩ := ih.untouched hst
          simp only [sumSteps_append, chargedAt, refundedAt, BetEvent.charged,
            BetEvent.refunded]
          have := sumSteps_eq_zero refundedAt hist h2
          have := sumSteps_eq_zero releasedAt hist h3
          simp only at *
          omega

omit [Field F] in
/-- A refund needs a cancellation or a partial fill. -/
theorem sumSteps_refundedAt_eq_zero {hist : List (Bet F × BetEvent F)}
    (h : ∀ x ∈ hist, x.2 ≠ .cancel ∧ ∀ f q, x.2 ≠ .partialFill f q) :
    sumSteps refundedAt hist = 0 := by
  refine sumSteps_eq_zero _ _ (List.countP_eq_zero.mpr fun x hx => ?_)
  obtain ⟨h1, h2⟩ := h x hx
  obtain ⟨b, e⟩ := x
  cases e with
  | cancel => exact absurd rfl h1
  | partialFill f q => exact absurd rfl (h2 f q)
  | _ => simp [refundedAt, BetEvent.refunded]

end Polyshield

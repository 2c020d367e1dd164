import Polyshield.Vault.Lifecycle

/-!
# Shares credited against shares acquired

The operator signs at most one outcome and one sale for a bet. As long as no
position is closed on an `ACTIVE` record whose outcome is a partial fill, the
shares sold and settled stay within the shares acquired; such a close leaves the
record `FILLED` with the shares it was committed for, which settlement then pays.
-/

namespace Polyshield

variable {F Proof Sig : Type} [Field F] [DecidableEq F] {E : Env F Proof Sig}

/-- What the operator has signed for a bet. -/
structure Signed (F : Type) where
  outcome : Option (OperatorAttestation F)
  sold : Option (OperatorAttestation F)

/-- `outcome` and `sold` are the only attestations of the bet `n` that recover to `operator`. -/
structure Signed.Only (signed : Signed F) (E : Env F Proof Sig) (operator : Address) (n : F) :
    Prop where
  outcome : ∀ att sig, E.recover att sig = some operator → att.nullifierOfBet = n →
    att.reportType ∈ [reportFilled, reportFailed, reportPartial] → signed.outcome = some att
  sold : ∀ att sig, E.recover att sig = some operator → att.nullifierOfBet = n →
    att.reportType = reportSold → signed.sold = some att

/-- The outcome signed has the given type. -/
def Signed.HasOutcome (signed : Signed F) (type : UInt8) : Prop :=
  signed.outcome.map OperatorAttestation.reportType = some type

instance (signed : Signed F) (type : UInt8) : Decidable (signed.HasOutcome type) :=
  inferInstanceAs (Decidable (_ = _))

/-- The shares the operator acquired for a bet committed for `shares`. -/
def Signed.acquired (signed : Signed F) (shares : UInt64) : ℕ :=
  match signed.outcome with
  | none => 0
  | some att =>
    if att.reportType = reportFilled then shares.toNat
    else if att.reportType = reportPartial then att.amountA.toNat
    else 0

/-- The shares a step pays at settlement. -/
def settledSharesAt (x : Bet F × BetEvent F) : ℕ :=
  match x.2 with
  | .settle => x.1.record.expectedShares.toNat - x.1.record.soldShares.toNat
  | _ => 0

omit [Field F] [DecidableEq F] in
theorem acquired_filled {signed : Signed F} (h : signed.HasOutcome reportFilled)
    (shares : UInt64) : signed.acquired shares = shares.toNat := by
  obtain ⟨att, ho, ht⟩ := Option.map_eq_some_iff.mp h
  simp [Signed.acquired, ho, ht]

omit [Field F] [DecidableEq F] in
theorem acquired_partial {signed : Signed F} {att : OperatorAttestation F}
    (ho : signed.outcome = some att) (ht : att.reportType = reportPartial) (shares : UInt64) :
    signed.acquired shares = att.amountA.toNat := by
  simp [Signed.acquired, ho, ht, reportPartial, reportFilled]

omit [Field F] [DecidableEq F] in
theorem acquired_other {signed : Signed F} (hf : ¬ signed.HasOutcome reportFilled)
    (hp : ¬ signed.HasOutcome reportPartial) (shares : UInt64) : signed.acquired shares = 0 := by
  unfold Signed.acquired
  split
  · rfl
  · rename_i att ho
    have hf' : att.reportType ≠ reportFilled := fun e => hf (by simp [Signed.HasOutcome, ho, e])
    have hp' : att.reportType ≠ reportPartial := fun e => hp (by simp [Signed.HasOutcome, ho, e])
    rw [if_neg hf', if_neg hp']

/-! ## One step -/

/-- The attestations that let a step happen are signed ones. -/
def Justified (signed : Signed F) (b : Bet F) : BetEvent F → Prop
  | .settle => b.record.status = .filled ∨ signed.HasOutcome reportFilled
  | .close a p => ∃ att, signed.sold = some att ∧ att.amountA = a ∧ att.amountB = p
  | .partialFill f q => ∃ att, signed.outcome = some att ∧ att.reportType = reportPartial ∧
      att.amountA = f ∧ att.amountB = q
  | _ => True

/-- A step of the bet in a state with the operator is justified by what the operator signed. -/
theorem justified_exec {s s' : VaultState F} {m : Msg} {c : Call F Proof Sig} {n : F}
    {signed : Signed F} {e : BetEvent F} (hsigned : signed.Only E s.signingLayerOperator n)
    (h : exec E m s c = .ok s') (he : c.betEvent? s n = some e) :
    Justified signed (s.bet n) e := by
  cases c <;> simp only [Call.betEvent?, Option.ite_none_right_eq_some, Option.some.injEq,
    reduceCtorEq] at he <;> simp only [exec] at h <;> obtain ⟨rfl, rfl⟩ := he <;>
    simp only [Justified]
  case creditSettlement proof inputs att sig =>
    rcases (creditSettlement_ok h).2.1 with ho | ⟨-, ho⟩
    · exact .inl (List.mem_singleton.mp ho)
    · have ht : att.reportType = reportFilled := ho.type.elim id id
      have hout := hsigned.outcome att sig ho.signer ho.bound (by simp [ht])
      exact .inr (by simp [Signed.HasOutcome, hout, ht])
  case closePosition proof inputs att sig =>
    obtain ⟨-, -, -, -, ha, -⟩ := closePosition_ok h
    exact ⟨att, hsigned.sold att sig ha.signer ha.bound (ha.type.elim id id), rfl, rfl⟩
  case partialFillCredit proof inputs att sig =>
    obtain ⟨-, -, ha, -⟩ := partialFillCredit_ok h
    have ht : att.reportType = reportPartial := ha.type.elim id id
    exact ⟨att, hsigned.outcome att sig ha.signer ha.bound (by simp [ht]), ht, rfl, rfl⟩

/-- The defect: a close of an `ACTIVE` record whose outcome is a partial fill. -/
def ClosesPartial (signed : Signed F) (b : Bet F) (e : BetEvent F) : Prop :=
  e.isClose = true ∧ b.record.status = .active ∧ signed.HasOutcome reportPartial

instance (signed : Signed F) (b : Bet F) (e : BetEvent F) : Decidable (ClosesPartial signed b e) :=
  inferInstanceAs (Decidable (_ ∧ _))

/-- What holds of the shares of a bet after the steps `hist`. -/
structure SharesInv (signed : Signed F) (shares : UInt64) (hist : List (Bet F × BetEvent F))
    (b : Bet F) : Prop where
  covered : b.record.soldShares.toNat + sumSteps settledSharesAt hist ≤ signed.acquired shares
  active : b.record.status = .active → b.record.soldShares = 0 ∧
    sumSteps settledSharesAt hist = 0 ∧ (b = .unset ∨ b.record.expectedShares = shares)
  filled : b.record.status = .filled → sumSteps settledSharesAt hist = 0 ∧
    b.record.soldShares ≤ b.record.expectedShares ∧
    b.record.expectedShares.toNat = signed.acquired shares

omit [DecidableEq F] in
theorem sharesInv_unset (signed : Signed F) (shares : UInt64) :
    SharesInv signed shares [] .unset where
  covered := Nat.zero_le _
  active := fun _ => ⟨rfl, rfl, .inl rfl⟩
  filled := fun h => by simp [Bet.unset, BetRecord.unset] at h

omit [DecidableEq F] in
theorem SharesInv.step {signed : Signed F} {shares : UInt64} {hist : List (Bet F × BetEvent F)}
    {b b' : Bet F} {e : BetEvent F} (hi : SharesInv signed shares hist b) (hs : BetStep b e b')
    (hj : Justified signed b e)
    (hsold : ∀ att, signed.sold = some att → att.amountA.toNat ≤ signed.acquired shares)
    (hcreate : ∀ x ∈ e.createdShares?, x = shares)
    (hclose : ¬ ClosesPartial signed b e) : SharesInv signed shares (hist ++ [(b, e)]) b' := by
  have hcov := hi.covered
  cases hs with
  | @create record fee hstatus hsold0 =>
    obtain ⟨-, h2, -⟩ := hi.active rfl
    constructor
    · simp only [sumSteps_append, settledSharesAt, hsold0, h2]
      exact Nat.zero_le _
    · intro _
      simp only [sumSteps_append, settledSharesAt, h2]
      exact ⟨hsold0, trivial, .inr (hcreate _ rfl)⟩
    · intro h
      simp only [hstatus, reduceCtorEq] at h
  | settle hst =>
    constructor
    · simp only [sumSteps_append, settledSharesAt]
      by_cases hfilled : b.record.status = .filled
      · obtain ⟨h1, h2, h3⟩ := hi.filled hfilled
        rw [UInt64.le_iff_toNat_le] at h2
        omega
      · have hact : b.record.status = .active := hst.resolve_right hfilled
        obtain ⟨h1, h2, h3⟩ := hi.active hact
        rw [acquired_filled (hj.resolve_left hfilled)]
        rw [h1, h2]
        rcases h3 with rfl | h3
        · simp [Bet.unset, BetRecord.unset]
        · simp [h3]
    · intro h
      simp only [reduceCtorEq] at h
    · intro h
      simp only [reduceCtorEq] at h
  | cancel =>
    exact ⟨by simpa [settledSharesAt] using hcov, fun h => by simp at h, fun h => by simp at h⟩
  | naCancel =>
    exact ⟨by simpa [settledSharesAt] using hcov, fun h => by simp at h, fun h => by simp at h⟩
  | @close _ a p hst hlo hhi =>
    obtain ⟨att, hatt, rfl, rfl⟩ := hj
    have hle := hsold att hatt
    rw [UInt64.lt_iff_toNat_lt] at hlo
    have hpaid : sumSteps settledSharesAt hist = 0 ∧
        b.record.expectedShares.toNat = signed.acquired shares := by
      rcases hst with hact | hfilled
      · obtain ⟨h1, h2, h3⟩ := hi.active hact
        refine ⟨h2, ?_⟩
        have hnp : ¬ signed.HasOutcome reportPartial := fun hp => hclose ⟨rfl, hact, hp⟩
        by_cases hf : signed.HasOutcome reportFilled
        · rw [acquired_filled hf]
          rcases h3 with rfl | h3
          · -- nothing can be sold of an unset record
            rw [UInt64.le_iff_toNat_le] at hhi
            simp only [Bet.unset, BetRecord.unset, UInt64.toNat_zero] at hhi hlo
            omega
          · rw [h3]
        · rw [acquired_other hf hnp] at hle
          omega
      · obtain ⟨h1, h2, h3⟩ := hi.filled hfilled
        exact ⟨h1, h3⟩
    constructor
    · simp only [sumSteps_append, settledSharesAt, closedRecord]
      omega
    · intro h
      simp only [closedRecord] at h
      split at h <;> cases h
    · intro _
      simp only [sumSteps_append, settledSharesAt, closedRecord]
      exact ⟨hpaid.1, hhi, hpaid.2⟩
  | @partialFill _ f q hact =>
    obtain ⟨att, ho, ht, rfl, rfl⟩ := hj
    obtain ⟨h1, h2, -⟩ := hi.active hact
    have hacq := acquired_partial ho ht shares
    constructor
    · simp only [sumSteps_append, settledSharesAt, normalizedRecord, h1, h2]
      exact Nat.zero_le _
    · intro h
      simp only [normalizedRecord, reduceCtorEq] at h
    · intro _
      simp only [sumSteps_append, settledSharesAt, normalizedRecord, h1, h2, hacq]
      exact ⟨trivial, UInt64.zero_le, trivial⟩
  | adminCancel hact =>
    exact ⟨by simpa [settledSharesAt] using hcov, fun h => by simp at h, fun h => by simp at h⟩

/-! ## Every run -/

/-- The calls of a trace use what was signed for the bet, which was created for `shares`. -/
structure Respects (E : Env F Proof Sig) (signed : Signed F) (n : F) (shares : UInt64)
    (trace : List (Executed F Proof Sig)) : Prop where
  only : ∀ x ∈ trace, signed.Only E x.pre.signingLayerOperator n
  created : ∀ x ∈ betHistory n trace, ∀ e ∈ x.2.createdShares?, e = shares

/-- No call closes the bet on its `ACTIVE` record under a partial outcome. -/
def NeverClosesPartial (signed : Signed F) (n : F) (trace : List (Executed F Proof Sig)) : Prop :=
  ∀ x ∈ betHistory n trace, ¬ ClosesPartial signed x.1 x.2

instance (signed : Signed F) (n : F) (trace : List (Executed F Proof Sig)) :
    Decidable (NeverClosesPartial signed n trace) :=
  inferInstanceAs (Decidable (∀ x ∈ betHistory n trace, _))

section Append

variable {signed : Signed F} {n : F} {shares : UInt64} {trace : List (Executed F Proof Sig)}
  {x : Executed F Proof Sig}

omit [Field F] in
theorem mem_betHistory_append {y : Bet F × BetEvent F} (hy : y ∈ betHistory n trace) :
    y ∈ betHistory n (trace ++ [x]) := by
  rw [betHistory, List.filterMap_append]
  exact List.mem_append_left _ hy

omit [Field F] in
theorem Respects.of_append (h : Respects E signed n shares (trace ++ [x])) :
    Respects E signed n shares trace :=
  ⟨fun y hy => h.only y (List.mem_append_left _ hy),
    fun y hy => h.created y (mem_betHistory_append hy)⟩

omit [Field F] in
theorem NeverClosesPartial.of_append (h : NeverClosesPartial signed n (trace ++ [x])) :
    NeverClosesPartial signed n trace := fun y hy => h y (mem_betHistory_append hy)

end Append

theorem sharesInv_runActions {args : InitArgs} {s : VaultState F} (h : deploy E args = .ok s)
    (as : List (Action F Proof Sig)) {n : F} {signed : Signed F} {shares : UInt64}
    (hsold : ∀ att, signed.sold = some att → att.amountA.toNat ≤ signed.acquired shares) :
    Respects E signed n shares (runActions E s as).trace →
    NeverClosesPartial signed n (runActions E s as).trace →
      SharesInv signed shares (betHistory n (runActions E s as).trace)
        ((runActions E s as).state.bet n) := by
  refine (extend_invariant E (P := fun ch => ChainHistory E ch ∧
    (Respects E signed n shares ch.trace → NeverClosesPartial signed n ch.trace →
      SharesInv signed shares (betHistory n ch.trace) (ch.state.bet n))) ?_ ?_ ?_ as).2
  · refine ⟨chainHistory_runActions h [], fun _ _ => ?_⟩
    obtain rfl := deploy_ok E h
    exact sharesInv_unset signed shares
  · rintro ch m c s' ⟨hch, hinv⟩ hx
    refine ⟨hch.call hx, fun hr hc => ?_⟩
    have hi := hinv hr.of_append hc.of_append
    have hstep := betStep_exec (n := n) hch.inv hx
    cases he : c.betEvent? ch.state n with
    | none =>
      rw [he] at hstep
      have hh : betHistory n (ch.trace ++ [⟨ch.state, m, c, s'⟩]) = betHistory n ch.trace := by
        simp [betHistory, Executed.betStep?, he]
      rw [hh]
      exact (show s'.bet n = ch.state.bet n from hstep) ▸ hi
    | some e =>
      rw [he] at hstep
      have hh : betHistory n (ch.trace ++ [⟨ch.state, m, c, s'⟩])
          = betHistory n ch.trace ++ [(ch.state.bet n, e)] := by
        simp [betHistory, Executed.betStep?, he]
      have hmem : (ch.state.bet n, e) ∈ betHistory n (ch.trace ++ [⟨ch.state, m, c, s'⟩]) := by
        rw [hh]
        exact List.mem_append_right _ (List.mem_singleton_self _)
      have hsigned := hr.only _ (List.mem_append_right _ (List.mem_singleton_self _))
      rw [hh]
      exact hi.step hstep (justified_exec hsigned hx he) hsold (hr.created _ hmem)
        (hc _ hmem)
  · rintro ch usdc ctf ⟨hch, hinv⟩
    exact ⟨⟨(keepsBets_world ..).betInv hch.inv, hch.run, hch.executed⟩, hinv⟩

/-- In every run in which no position of the bet is closed on its `ACTIVE` record
under a partial outcome, the shares sold and settled are covered by the shares
acquired, and a `FILLED` record holds exactly the shares acquired. -/
theorem shares_covered {args : InitArgs} {s : VaultState F} (h : deploy E args = .ok s)
    (as : List (Action F Proof Sig)) (n : F) (signed : Signed F) (shares : UInt64)
    (hsold : ∀ att, signed.sold = some att → att.amountA.toNat ≤ signed.acquired shares)
    (hrespects : Respects E signed n shares (runActions E s as).trace)
    (hcloses : NeverClosesPartial signed n (runActions E s as).trace) :
    let record := (runActions E s as).state.betRecords n
    record.soldShares.toNat
        + sumSteps settledSharesAt (betHistory n (runActions E s as).trace)
      ≤ signed.acquired shares ∧
    (record.status = .filled → record.expectedShares.toNat = signed.acquired shares) := by
  have hinv := sharesInv_runActions h as hsold hrespects hcloses
  exact ⟨hinv.covered, fun hf => (hinv.filled hf).2.2⟩

/-! ## A partial fill, closed early and in time -/

/-- Decided on the value itself, not over all of `uint64`. -/
instance decidableForallMemEq (o : Option UInt64) (shares : UInt64) :
    Decidable (∀ e ∈ o, e = shares) :=
  match o with
  | none => isTrue fun e he => by cases he
  | some x => decidable_of_iff (x = shares) (by simp)

def mockPartial : OperatorAttestation (ZMod 101) := ⟨(5 : ℕ), reportPartial, 4, 1000000⟩

def mockSold : OperatorAttestation (ZMod 101) := ⟨(5 : ℕ), reportSold, 1, 500000⟩

def mockSigned : Signed (ZMod 101) := ⟨some mockPartial, some mockSold⟩

theorem mockSigned_only (operator : Address) :
    mockSigned.Only (mockEnv [mockPartial, mockSold]) operator 5 := by
  constructor <;> intro att sig h _ ht <;>
    simp only [mockEnv, Option.ite_none_right_eq_some, List.mem_cons, List.not_mem_nil,
      or_false] at h <;> rcases h.1 with rfl | rfl
  · rfl
  · exact absurd ht (by decide)
  · exact absurd ht (by decide)
  · rfl

/-- The partial fill is credited before the position is closed. -/
theorem shares_covered_partial_fill_first :
    let ch := runActions (mockEnv [mockPartial, mockSold])
      (mockDeployed (mockEnv [mockPartial, mockSold]))
      [.call ⟨7, 1⟩ (.authorizeBet () ⟨mockRoot, 5, 8, 2000000, 50000000, 10, 11, 0, 12⟩),
        .call ⟨7, 1⟩ (.partialFillCredit () ⟨mockRoot, 6, 13, 5⟩ mockPartial ()),
        .call ⟨7, 1⟩ (.closePosition () ⟨mockRoot, 7, 13, 5⟩ mockSold ()),
        .call ⟨1, 1⟩ (.resolveMarket 11),
        .call ⟨7, 1⟩ (.creditSettlement () ⟨mockRoot, 14, 15, 5, 11, 3⟩ mockPartial ())]
    ch.trace.length = 5 ∧ (ch.state.betRecords 5).soldShares.toNat
      + sumSteps settledSharesAt (betHistory 5 ch.trace) ≤ 4 := by
  refine ⟨by decide +kernel, ?_⟩
  exact (shares_covered (mockDeployed_ok _) _ 5 mockSigned 10
    (fun att h => by cases h; decide)
    ⟨fun x _ => mockSigned_only _, by decide +kernel⟩ (by decide +kernel)).1

/-- The position is closed on the `ACTIVE` record: the record becomes `FILLED` with
the 10 shares it was committed for, and settlement pays the other 9. -/
theorem shares_covered_fails_closed_early :
    let ch := runActions (mockEnv [mockPartial, mockSold])
      (mockDeployed (mockEnv [mockPartial, mockSold]))
      [.call ⟨7, 1⟩ (.authorizeBet () ⟨mockRoot, 5, 8, 2000000, 50000000, 10, 11, 0, 12⟩),
        .call ⟨7, 1⟩ (.closePosition () ⟨mockRoot, 6, 13, 5⟩ mockSold ()),
        .call ⟨1, 1⟩ (.resolveMarket 11),
        .call ⟨7, 1⟩ (.creditSettlement () ⟨mockRoot, 14, 15, 5, 11, 9⟩ mockPartial ())]
    deploy (mockEnv [mockPartial, mockSold]) mockArgs
        = .ok (mockDeployed (mockEnv [mockPartial, mockSold])) ∧
      Respects (mockEnv [mockPartial, mockSold]) mockSigned 5 10 ch.trace ∧
      (∀ att, mockSigned.sold = some att → att.amountA.toNat ≤ mockSigned.acquired 10) ∧
      ¬ (ch.state.betRecords 5).soldShares.toNat
          + sumSteps settledSharesAt (betHistory 5 ch.trace) ≤ mockSigned.acquired 10 := by
  refine ⟨mockDeployed_ok _, ⟨fun x _ => mockSigned_only _, by decide +kernel⟩,
    fun att h => by cases h; decide, by decide +kernel⟩

end Polyshield

import Polyshield.Vault.Credits

/-!
# Bets that can still be credited

A bet can still be credited when some run of the Vault ends with a credit of it
that is positive. In these runs the owner neither cancels a bet nor replaces the
operator, and the reports of the conditional tokens are final. A bet is closed
for good when its status is terminal, or when it was filled and its side of the
resolved market pays nothing.
-/

namespace Polyshield

variable {F Proof Sig : Type} [Field F] [DecidableEq F] {E : Env F Proof Sig}

/-- A market that is resolved is not an `N/A` one. -/
def VaultState.ReportsFinal (s : VaultState F) : Prop :=
  ∀ key, s.marketResolvedAt key ≠ 0 → ¬ s.ctf.IsNA (s.conditionIdOf key)

/-- A call that does not revert, or a change of the other contracts, without the owner's hand. -/
inductive OrdinaryStep (E : Env F Proof Sig) (s : VaultState F) : VaultState F → Prop
  | call {m : Msg} {c : Call F Proof Sig} {s' : VaultState F} (hexec : exec E m s c = .ok s')
      (hcancel : ∀ n, c ≠ .adminCancelBet n)
      (hoperator : s'.signingLayerOperator = s.signingLayerOperator) (hfinal : s'.ReportsFinal) :
      OrdinaryStep E s s'
  | world {usdc : Usdc} {ctf : Ctf}
      (hfinal : VaultState.ReportsFinal { s with usdc := usdc, ctf := ctf }) :
      OrdinaryStep E s { s with usdc := usdc, ctf := ctf }

/-- What others may do to the Vault. -/
abbrev Ordinarily (E : Env F Proof Sig) : VaultState F → VaultState F → Prop :=
  Relation.ReflTransGen (OrdinaryStep E)

/-- The bet a call credits, and the amount. -/
def Call.credit? (s : VaultState F) : Call F Proof Sig → Option (F × ℕ)
  | .creditSettlement _ inputs _ _ => some (inputs.nullifierOfBet, inputs.totalCredit.toNat)
  | .betCancellationCredit _ inputs _ _ =>
    some (inputs.nullifierOfBet, (s.betRecords inputs.nullifierOfBet).betAmount.toNat
      + (s.betProtocolFee inputs.nullifierOfBet).toNat)
  | .naCancellationCredit _ inputs _ _ =>
    some (inputs.nullifierOfBet, (s.betRecords inputs.nullifierOfBet).betAmount.toNat)
  | .closePosition _ inputs att _ =>
    some (inputs.nullifierOfBet,
      att.amountB.toNat - (s.betRecords inputs.nullifierOfBet).sellProceeds.toNat)
  | .partialFillCredit _ inputs att _ =>
    some (inputs.nullifierOfBet,
      (s.betRecords inputs.nullifierOfBet).betAmount.toNat - att.amountB.toNat
        + refundedFee (s.betProtocolFee inputs.nullifierOfBet).toNat
          (s.betRecords inputs.nullifierOfBet).betAmount.toNat att.amountB.toNat)
  | _ => none

/-- Some call credits the bet a positive amount now. -/
def CreditedNow (E : Env F Proof Sig) (s : VaultState F) (n : F) : Prop :=
  ∃ m c s' amount, exec E m s c = .ok s' ∧ c.credit? s = some (n, amount) ∧ 0 < amount

/-- A bet that exists and may be credited a positive amount, now or later. -/
def CanBeCredited (E : Env F Proof Sig) (s : VaultState F) (n : F) : Prop :=
  (s.betRecords n).marketId ≠ 0 ∧ ∃ s', Ordinarily E s s' ∧ CreditedNow E s' n

/-- The operator signs one outcome for a bet. -/
def SingleOutcome (E : Env F Proof Sig) (operator : Address) : Prop :=
  ∀ att sig att' sig', E.recover att sig = some operator → E.recover att' sig' = some operator →
    att.nullifierOfBet = att'.nullifierOfBet →
    att.reportType = reportFilled →
      att'.reportType ≠ reportFailed ∧ att'.reportType ≠ reportPartial

/-! ## Bets that are closed for good -/

/-- A bet that is known to have been filled. -/
def WasFilled (E : Env F Proof Sig) (s : VaultState F) (n : F) : Prop :=
  (s.betRecords n).status.Terminal ∨ (s.betRecords n).status = .filled ∨
    ((s.betRecords n).status = .active ∧ ∃ att sig, att.nullifierOfBet = n ∧
      att.reportType = reportFilled ∧ E.recover att sig = some s.signingLayerOperator)

/-- The market of the bet is resolved and pays the bet's side nothing. -/
def PaysNothing (s : VaultState F) (n : F) : Prop :=
  s.marketResolvedAt (s.betRecords n).marketId ≠ 0 ∧
    s.pendingCredit (s.betRecords n).marketId (s.betRecords n).outcomeSide = 0

/-- A bet that is credited, or lost. -/
def ClosedForGood (E : Env F Proof Sig) (s : VaultState F) (n : F) : Prop :=
  (s.betRecords n).status.Terminal ∨ (WasFilled E s n ∧ PaysNothing s n)

/-- What the runs start from. -/
structure Sound (E : Env F Proof Sig) (s : VaultState F) : Prop where
  bets : BetInv s
  written : ∀ n, (s.betRecords n).status.Written
  reports : s.ReportsFinal
  outcome : SingleOutcome E s.signingLayerOperator

section Step

variable {s s' : VaultState F} {n : F}

theorem written_exec {m : Msg} {c : Call F Proof Sig} (hs : BetInv s)
    (hw : (s.betRecords n).status.Written) (h : exec E m s c = .ok s') :
    (s'.betRecords n).status.Written := by
  have hstep := betStep_exec (n := n) hs h
  cases he : c.betEvent? s n with
  | none =>
    rw [he] at hstep
    have hr : s'.betRecords n = s.betRecords n := congrArg Bet.record hstep
    rw [hr]
    exact hw
  | some e =>
    rw [he] at hstep
    exact BetStep.written hstep

theorem Sound.step (hs : Sound E s) (h : OrdinaryStep E s s') : Sound E s' := by
  cases h with
  | call hexec _ hop hfinal =>
    exact ⟨hs.bets.exec hexec, fun n => written_exec hs.bets (hs.written n) hexec, hfinal,
      hop ▸ hs.outcome⟩
  | world hfinal =>
    exact ⟨(keepsBets_world ..).betInv hs.bets, hs.written, hfinal, hs.outcome⟩

theorem Sound.later (hs : Sound E s) (h : Ordinarily E s s') : Sound E s' := by
  induction h with
  | refl => exact hs
  | tail _ hstep ih => exact ih.step hstep

theorem operator_step (h : OrdinaryStep E s s') :
    s'.signingLayerOperator = s.signingLayerOperator := by
  cases h with
  | call _ _ hop _ => exact hop
  | world => rfl

omit [DecidableEq F] in
theorem BetStep.eq_unset {b b' : Bet F} {record : BetRecord F} {fee : UInt64}
    (h : BetStep b (.create record fee) b') : b = .unset := by
  cases h
  rfl

/-- A bet that exists takes a step of its life, or none. -/
theorem bet_step (hs : BetInv s) (hfound : (s.betRecords n).marketId ≠ 0)
    (h : OrdinaryStep E s s') :
    s'.bet n = s.bet n ∨ ∃ e, BetStep (s.bet n) e (s'.bet n) ∧
      (∀ record fee, e ≠ .create record fee) ∧ e ≠ .adminCancel ∧
      ∀ f q, e = .partialFill f q → q ≠ 0 := by
  cases h with
  | world => exact .inl rfl
  | @call m c _ hexec hcancel =>
    have hstep := betStep_exec (n := n) hs hexec
    cases he : c.betEvent? s n with
    | none =>
      rw [he] at hstep
      exact .inl hstep
    | some e =>
      rw [he] at hstep
      refine .inr ⟨e, hstep, fun record fee hcreate => ?_, fun hadmin => ?_, fun f q hfills => ?_⟩
      · subst hcreate
        exact hfound (congrArg (fun b : Bet F => b.record.marketId) hstep.eq_unset)
      · subst hadmin
        cases c <;> simp only [Call.betEvent?, Option.ite_none_right_eq_some, Option.some.injEq,
          reduceCtorEq, and_false] at he
        exact hcancel _ rfl
      · subst hfills
        cases c <;> simp only [Call.betEvent?, Option.ite_none_right_eq_some, Option.some.injEq,
          reduceCtorEq, and_false, BetEvent.partialFill.injEq] at he
        obtain ⟨-, -, -, -, -, hq, -⟩ := partialFillCredit_ok hexec
        rw [← he.2.2]
        intro hzero
        rw [hzero] at hq
        exact absurd hq (lt_irrefl 0)

/-- What stays of a bet, and how its status and its shares move. -/
structure Keeps (r r' : BetRecord F) : Prop where
  marketId : r'.marketId = r.marketId
  outcomeSide : r'.outcomeSide = r.outcomeSide
  expectedShares : r'.expectedShares ≤ r.expectedShares
  stake : r.betAmount ≠ 0 → r'.betAmount ≠ 0
  status : r'.status = r.status ∨ r'.status = .filled ∨ r'.status.Terminal
  terminal : r.status.Terminal → r' = r

omit [Field F] [DecidableEq F] in
theorem Keeps.refl (r : BetRecord F) : Keeps r r :=
  ⟨rfl, rfl, UInt64.le_refl _, id, .inl rfl, fun _ => rfl⟩

theorem terminal_credited : BetStatus.credited.Terminal := by decide

theorem terminal_cancelledCredited : BetStatus.cancelledCredited.Terminal := by decide

theorem terminal_closedCredited : BetStatus.closedCredited.Terminal := by decide

omit [DecidableEq F] in
theorem BetStep.keeps {b b' : Bet F} {e : BetEvent F} (h : BetStep b e b')
    (hcreate : ∀ record fee, e ≠ .create record fee) (hadmin : e ≠ .adminCancel)
    (hfills : ∀ f q, e = .partialFill f q → q ≠ 0) :
    Keeps b.record b'.record := by
  have hopen := h.not_terminal
  cases h with
  | create => exact absurd rfl (hcreate _ _)
  | adminCancel => exact absurd rfl hadmin
  | settle =>
    exact ⟨rfl, rfl, UInt64.le_refl _, id, .inr (.inr terminal_credited), fun ht => absurd ht hopen⟩
  | cancel | naCancel =>
    exact ⟨rfl, rfl, UInt64.le_refl _, id, .inr (.inr terminal_cancelledCredited),
      fun ht => absurd ht hopen⟩
  | close =>
    refine ⟨rfl, rfl, UInt64.le_refl _, id, .inr ?_, fun ht => absurd ht hopen⟩
    simp only [closedRecord]
    split
    · exact .inr terminal_closedCredited
    · exact .inl rfl
  | partialFill hst hlo hhi =>
    exact ⟨rfl, rfl, UInt64.le_of_lt hhi, fun _ => hfills _ _ rfl, .inr (.inl rfl),
      fun ht => absurd ht hopen⟩

theorem keeps_step (hs : BetInv s) (hfound : (s.betRecords n).marketId ≠ 0)
    (h : OrdinaryStep E s s') : Keeps (s.betRecords n) (s'.betRecords n) := by
  rcases bet_step hs hfound h with heq | ⟨e, hstep, hcreate, hadmin, hfills⟩
  · have hr : s'.betRecords n = s.betRecords n := congrArg Bet.record heq
    rw [hr]
    exact .refl _
  · exact hstep.keeps hcreate hadmin hfills

omit [Field F] [DecidableEq F] in
theorem Keeps.trans {r₁ r₂ r₃ : BetRecord F} (h : Keeps r₁ r₂) (h' : Keeps r₂ r₃) :
    Keeps r₁ r₃ where
  marketId := h'.marketId.trans h.marketId
  outcomeSide := h'.outcomeSide.trans h.outcomeSide
  expectedShares := UInt64.le_trans h'.expectedShares h.expectedShares
  stake hs := h'.stake (h.stake hs)
  status := by
    rcases h'.status with he | he | he
    · rw [he]
      exact h.status
    · exact .inr (.inl he)
    · exact .inr (.inr he)
  terminal ht := by
    have h₁ := h.terminal ht
    exact (h'.terminal (h₁ ▸ ht)).trans h₁

theorem keeps_later (hs : Sound E s) (hfound : (s.betRecords n).marketId ≠ 0)
    (h : Ordinarily E s s') : Keeps (s.betRecords n) (s'.betRecords n) := by
  induction h with
  | refl => exact .refl _
  | tail hrun hstep ih =>
    exact ih.trans (keeps_step (hs.later hrun).bets (ih.marketId ▸ hfound) hstep)

theorem payouts_step {key : F} (h : OrdinaryStep E s s') (hres : s.marketResolvedAt key ≠ 0) :
    s'.pendingCredit key = s.pendingCredit key ∧
      s'.marketResolvedAt key = s.marketResolvedAt key := by
  cases h with
  | world => exact ⟨rfl, rfl⟩
  | call hexec =>
    rcases (frame_exec hexec).2 with ⟨h1, h2⟩ | ⟨c', h0, -, hkeep⟩
    · exact ⟨congrFun h1 key, congrFun h2 key⟩
    · exact hkeep key fun hk => hres (hk ▸ h0)

theorem WasFilled.step (hw : WasFilled E s n) (hs : BetInv s)
    (hfound : (s.betRecords n).marketId ≠ 0) (h : OrdinaryStep E s s') : WasFilled E s' n := by
  have hk := keeps_step hs hfound h
  unfold WasFilled
  rcases hk.status with he | he | he
  · rw [he, operator_step h]
    exact hw
  · exact .inr (.inl he)
  · exact .inl he

theorem PaysNothing.step (hp : PaysNothing s n) (hs : BetInv s)
    (hfound : (s.betRecords n).marketId ≠ 0) (h : OrdinaryStep E s s') : PaysNothing s' n := by
  have hk := keeps_step hs hfound h
  obtain ⟨h1, h2⟩ := payouts_step h hp.1
  unfold PaysNothing
  rw [hk.marketId, hk.outcomeSide, h1, h2]
  exact hp

theorem ClosedForGood.step (hc : ClosedForGood E s n) (hs : BetInv s)
    (hfound : (s.betRecords n).marketId ≠ 0) (h : OrdinaryStep E s s') :
    ClosedForGood E s' n := by
  rcases hc with ht | ⟨hw, hp⟩
  · left
    rw [(keeps_step hs hfound h).terminal ht]
    exact ht
  · exact .inr ⟨hw.step hs hfound h, hp.step hs hfound h⟩

theorem ClosedForGood.later (hc : ClosedForGood E s n) (hs : Sound E s)
    (hfound : (s.betRecords n).marketId ≠ 0) (h : Ordinarily E s s') :
    ClosedForGood E s' n := by
  induction h with
  | refl => exact hc
  | tail hrun hstep ih =>
    exact ih.step (hs.later hrun).bets ((keeps_later hs hfound hrun).marketId ▸ hfound) hstep

theorem WasFilled.later (hw : WasFilled E s n) (hs : Sound E s)
    (hfound : (s.betRecords n).marketId ≠ 0) (h : Ordinarily E s s') : WasFilled E s' n := by
  induction h with
  | refl => exact hw
  | tail hrun hstep ih =>
    exact ih.step (hs.later hrun).bets ((keeps_later hs hfound hrun).marketId ▸ hfound) hstep

/-! ## No credit of a bet that is closed -/

/-- Without the notes and the proof: what a refund of an `N/A` market found. -/
theorem naCancellationCredit_isNA {m : Msg} {proof : Proof} {inputs : NACancelPublicInputs F}
    {att : OperatorAttestation F} {sig : Sig}
    (h : exec E m s (.naCancellationCredit proof inputs att sig) = .ok s') :
    (s.betRecords inputs.nullifierOfBet).marketId = inputs.marketId ∧
      s.ctf.IsNA (s.conditionIdOf inputs.marketId) := by
  simp only [exec, naCancellationCredit, VaultLogic.naCancellationCredit, Except.bind_eq_ok,
    revertIf_eq_ok, exists_const, bind_assoc, not_not] at h
  obtain ⟨-, -, -, -, -, hmarket, -, -, -, -, -, hna, -⟩ := h
  refine ⟨hmarket, fun i hi => ?_⟩
  by_contra hne
  exact hna ⟨i, hi, hne⟩

theorem ClosedForGood.not_creditedNow (hc : ClosedForGood E s n) (hs : Sound E s) :
    ¬ CreditedNow E s n := by
  rintro ⟨m, c, s', amount, hexec, hcredit, hpos⟩
  have hstep := betStep_exec (n := n) hs.bets hexec
  cases c <;> simp only [Call.credit?, Option.some.injEq, Prod.mk.injEq, reduceCtorEq] at hcredit
  all_goals
    obtain ⟨rfl, rfl⟩ := hcredit
    simp only [Call.betEvent?, if_true] at hstep
    have hopen := hstep.not_terminal
    rcases hc with ht | ⟨hw, hres, hpay⟩
    · exact absurd ht hopen
  case creditSettlement =>
    obtain ⟨-, -, hmarket, -, htotal, -⟩ := creditSettlement_ok hexec
    rw [← hmarket, hpay, UInt64.toNat_zero, Nat.mul_zero] at htotal
    omega
  case betCancellationCredit =>
    obtain ⟨-, ho, -⟩ := betCancellationCredit_ok hexec
    rcases hw with ht | hst | ⟨hst, att, sig, hbet, htype, hsigner⟩
    · exact absurd ht hopen
    · rcases ho with hmem | ⟨hact, -⟩
      · rw [hst] at hmem
        revert hmem
        decide
      · rw [hst] at hact
        cases hact
    · rcases ho with hmem | ⟨-, hatt⟩
      · rw [hst] at hmem
        revert hmem
        decide
      · exact (hs.outcome _ _ _ _ hsigner hatt.signer (hbet.trans hatt.bound.symm) htype).1
          (by simpa using hatt.type)
  case naCancellationCredit =>
    obtain ⟨hmarket, hna⟩ := naCancellationCredit_isNA hexec
    rw [← hmarket] at hna
    exact hs.reports _ hres hna
  case closePosition =>
    obtain ⟨delta, credit, -, -, -, -, -, -, hunresolved, -⟩ := closePosition_ok hexec
    exact hres hunresolved
  case partialFillCredit =>
    obtain ⟨-, hact, hatt, -⟩ := partialFillCredit_ok hexec
    rcases hw with ht | hst | ⟨hst, att, sig, hbet, htype, hsigner⟩
    · exact absurd ht hopen
    · rw [hst] at hact
      cases hact
    · exact (hs.outcome _ _ _ _ hsigner hatt.signer (hbet.trans hatt.bound.symm) htype).2
        (by simpa using hatt.type)

theorem ClosedForGood.not_canBeCredited (hc : ClosedForGood E s n) (hs : Sound E s) :
    ¬ CanBeCredited E s n := by
  rintro ⟨hfound, s', hrun, hnow⟩
  exact (hc.later hs hfound hrun).not_creditedNow (hs.later hrun) hnow

theorem CanBeCredited.earlier (h : CanBeCredited E s' n)
    (hfound : (s.betRecords n).marketId ≠ 0) (hrun : Ordinarily E s s') : CanBeCredited E s n := by
  obtain ⟨-, s'', hrun', hnow⟩ := h
  exact ⟨hfound, s'', hrun.trans hrun', hnow⟩

/-! ## Calls that are ordinary -/

omit [DecidableEq F] in
theorem BetStep.marketId {b b' : Bet F} {e : BetEvent F} (h : BetStep b e b')
    (hcreate : ∀ record fee, e ≠ .create record fee) :
    b'.record.marketId = b.record.marketId := by
  cases h with
  | create => exact absurd rfl (hcreate _ _)
  | settle | cancel | naCancel | close | partialFill | adminCancel => rfl

/-- Only `authorizeBet` makes a bet. -/
theorem marketId_exec {m : Msg} {c : Call F Proof Sig} (hs : BetInv s)
    (hc : ∀ proof inputs, c ≠ .authorizeBet proof inputs) (h : exec E m s c = .ok s') :
    (s'.betRecords n).marketId = (s.betRecords n).marketId := by
  have hstep := betStep_exec (n := n) hs h
  cases he : c.betEvent? s n with
  | none =>
    rw [he] at hstep
    exact congrArg (fun b : Bet F => b.record.marketId) hstep
  | some e =>
    rw [he] at hstep
    have hcreate : ∀ record fee, e ≠ .create record fee := by
      rintro record fee rfl
      cases c <;> simp only [Call.betEvent?, Option.ite_none_right_eq_some, Option.some.injEq,
        reduceCtorEq, and_false] at he
      exact hc _ _ rfl
    exact BetStep.marketId hstep hcreate

theorem ordinaryStep_credit {m : Msg} {c : CreditCall F Sig} {proof : Proof}
    (h : exec E m s (c.call proof) = .ok s') (hfinal : s'.ReportsFinal) : OrdinaryStep E s s' := by
  refine .call h (fun k hk => by cases c <;> cases hk) ?_ hfinal
  cases c with
  | settle =>
    obtain ⟨t', -, rfl⟩ := (creditSettlement_ok h).1.effect
    rfl
  | cancel =>
    obtain ⟨t', -, rfl⟩ := (betCancellationCredit_ok h).1.effect
    rfl
  | close =>
    obtain ⟨delta, credit, hcr, -⟩ := closePosition_ok h
    obtain ⟨t', -, rfl⟩ := hcr.effect
    rfl
  | partialFill =>
    obtain ⟨t', -, rfl⟩ := (partialFillCredit_ok h).1.effect
    rfl

theorem ordinaryStep_withdraw {m : Msg} {proof : Proof} {inputs : WithdrawalPublicInputs F}
    {a : Address} (h : exec E m s (.withdraw proof inputs a) = .ok s')
    (hfinal : s'.ReportsFinal) : OrdinaryStep E s s' := by
  refine .call h (fun k hk => by cases hk) ?_ hfinal
  obtain ⟨-, -, -, -, -, t', usdc', -, rfl⟩ := withdraw_ok h
  rfl

theorem ordinaryStep_consolidate {m : Msg} {proof : Proof} {inputs : ConsolidatePublicInputs F}
    (h : exec E m s (.consolidate proof inputs) = .ok s') (hfinal : s'.ReportsFinal) :
    OrdinaryStep E s s' := by
  refine .call h (fun k hk => by cases hk) ?_ hfinal
  obtain ⟨-, -, -, -, spent', r, t', -, -, rfl⟩ := consolidate_ok h
  rfl

/-- The credit leaves nothing of the bet. -/
def CreditCall.Ends (s : VaultState F) : CreditCall F Sig → Prop
  | .settle _ _ _ | .cancel _ _ _ => True
  | .close inputs att _ => (s.betRecords inputs.nullifierOfBet).expectedShares ≤ att.amountA
  | .partialFill _ _ _ => False

theorem terminal_of_ends {m : Msg} {c : CreditCall F Sig} {proof : Proof}
    (h : exec E m s (c.call proof) = .ok s') (hends : c.Ends s) :
    (s'.betRecords c.core.nullifierOfBet).status.Terminal := by
  cases c with
  | settle inputs =>
    obtain ⟨t', -, rfl⟩ := (creditSettlement_ok h).1.effect
    simp only [CreditCall.core, SettlementPublicInputs.core, Function.update_self]
    exact terminal_credited
  | cancel inputs =>
    obtain ⟨t', -, rfl⟩ := (betCancellationCredit_ok h).1.effect
    simp only [CreditCall.core, Function.update_self]
    exact terminal_cancelledCredited
  | close inputs att =>
    obtain ⟨delta, credit, hcr, -, -, -, hle, -⟩ := closePosition_ok h
    obtain ⟨t', -, rfl⟩ := hcr.effect
    simp only [CreditCall.core, Function.update_self, closedRecord]
    rw [if_pos (UInt64.le_antisymm hle hends)]
    exact terminal_closedCredited
  | partialFill => exact hends.elim

end Step

end Polyshield

import Polyshield.Vault.Bet
import Polyshield.Vault.Books

/-!
# The Vault runs every bet through its life

Each call steps the bet it names as `BetStep` says and leaves every other bet
alone (`betStep_exec`), so the calls of a run that name a bet are a history of
that bet, and what holds of histories holds of the Vault.
-/

namespace Polyshield

variable {F Proof Sig : Type} [Field F] [DecidableEq F] {E : Env F Proof Sig}

def VaultState.bet (s : VaultState F) (n : F) : Bet F := ⟨s.betRecords n, s.betProtocolFee n⟩

/-- What a call in the state `pre` does to the bet `n`. -/
def Call.betEvent? (pre : VaultState F) (n : F) : Call F Proof Sig → Option (BetEvent F)
  | .authorizeBet _ inputs =>
    if inputs.nullifier = n
    then some (.create inputs.record (protocolFeeOf pre.feeConfig inputs.betAmount)) else none
  | .creditSettlement _ inputs _ _ => if inputs.nullifierOfBet = n then some .settle else none
  | .betCancellationCredit _ inputs _ _ =>
    if inputs.nullifierOfBet = n then some .cancel else none
  | .naCancellationCredit _ inputs _ _ =>
    if inputs.nullifierOfBet = n then some .naCancel else none
  | .closePosition _ inputs att _ =>
    if inputs.nullifierOfBet = n then some (.close att.amountA att.amountB) else none
  | .partialFillCredit _ inputs att _ =>
    if inputs.nullifierOfBet = n then some (.partialFill att.amountA att.amountB) else none
  | .adminCancelBet nullifierOfBet => if nullifierOfBet = n then some .adminCancel else none
  | _ => none

/-- The step a call made the bet `n` take, with the bet as the call found it. -/
def Executed.betStep? (n : F) (x : Executed F Proof Sig) : Option (Bet F × BetEvent F) :=
  (x.call.betEvent? x.pre n).map fun e => (x.pre.bet n, e)

/-- The steps of the bet `n` in a trace. -/
def betHistory (n : F) (trace : List (Executed F Proof Sig)) : List (Bet F × BetEvent F) :=
  trace.filterMap (Executed.betStep? n)

section Step

variable {s s' : VaultState F} {n : F}

omit [Field F] in
theorem RewritesBet.bet_self {record' : BetRecord F} {fee' : UInt64}
    (h : RewritesBet s s' n record' fee') : s'.bet n = ⟨record', fee'⟩ := by
  unfold VaultState.bet
  rw [h.betRecords, h.betProtocolFee, Function.update_self, Function.update_self]

omit [Field F] in
theorem RewritesBet.bet_of_ne {k : F} {record' : BetRecord F} {fee' : UInt64}
    (h : RewritesBet s s' k record' fee') (hne : k ≠ n) : s'.bet n = s.bet n := by
  unfold VaultState.bet
  rw [h.betRecords, h.betProtocolFee, Function.update_of_ne hne.symm,
    Function.update_of_ne hne.symm]

omit [Field F] in
theorem CreatesBet.bet_self {record' : BetRecord F} {fee' : UInt64}
    (h : CreatesBet s s' n record' fee') : s'.bet n = ⟨record', fee'⟩ := by
  unfold VaultState.bet
  rw [h.betRecords, h.betProtocolFee, Function.update_self, Function.update_self]

omit [Field F] in
theorem CreatesBet.bet_of_ne {k : F} {record' : BetRecord F} {fee' : UInt64}
    (h : CreatesBet s s' k record' fee') (hne : k ≠ n) : s'.bet n = s.bet n := by
  unfold VaultState.bet
  rw [h.betRecords, h.betProtocolFee, Function.update_of_ne hne.symm,
    Function.update_of_ne hne.symm]

theorem CreatesBet.bet_unset {record' : BetRecord F} {fee' : UInt64}
    (h : CreatesBet s s' n record' fee') (hs : BetInv s) : s.bet n = .unset := by
  obtain ⟨h1, h2⟩ := hs.unset n (h.not_mem hs)
  unfold VaultState.bet
  rw [h1, h2]
  rfl

omit [Field F] [DecidableEq F] in
theorem KeepsBets.bet (h : KeepsBets s s') : s'.bet n = s.bet n := by
  unfold VaultState.bet
  rw [h.betRecords, h.betProtocolFee]

/-- What a call that names the bet, or does not, does to it. -/
def StepsBet (s s' : VaultState F) (n : F) : Option (BetEvent F) → Prop
  | none => s'.bet n = s.bet n
  | some e => BetStep (s.bet n) e (s'.bet n)

/-- A rewrite of one bet is a step of that bet and of no other. -/
theorem RewritesBet.stepsBet {k : F} {record' : BetRecord F} {fee' : UInt64} {e : BetEvent F}
    (h : RewritesBet s s' k record' fee') (hstep : BetStep (s.bet k) e ⟨record', fee'⟩) :
    StepsBet s s' n (if k = n then some e else none) := by
  split
  · rename_i hk
    subst hk
    unfold StepsBet
    rw [h.bet_self]
    exact hstep
  · exact h.bet_of_ne ‹_›

/-- Every call steps the bet it names and no other. -/
theorem betStep_exec {m : Msg} {c : Call F Proof Sig} (hs : BetInv s)
    (h : exec E m s c = .ok s') : StepsBet s s' n (c.betEvent? s n) := by
  by_cases hc : c.isAdministrative = true
  · have hk := (keepsBets_administrative hc h).bet (n := n)
    cases c <;> first | exact hk | cases hc
  · cases c <;> simp only [Call.isAdministrative, not_true_eq_false] at hc <;>
      simp only [exec] at h <;> simp only [Call.betEvent?]
    case deposit => exact (keepsBets_deposit h).bet
    case withdraw => exact (keepsBets_withdraw h).bet
    case consolidate => exact (keepsBets_consolidate h).bet
    case withdrawFees => exact (keepsBets_withdrawFees h).bet
    case authorizeBet proof inputs =>
      have hcr := createsBet_authorizeBet h
      split
      · rename_i hk
        subst hk
        unfold StepsBet
        rw [hcr.bet_self, hcr.bet_unset hs]
        exact .create rfl rfl rfl
      · exact hcr.bet_of_ne ‹_›
    case creditSettlement =>
      obtain ⟨hcr, ho, -⟩ := creditSettlement_ok h
      refine (hcr.rewritesBet hs rfl).stepsBet (.settle ?_)
      rcases ho with ho | ho
      · exact .inr (List.mem_singleton.mp ho)
      · exact .inl ho.1
    case betCancellationCredit =>
      obtain ⟨hcr, ho, -⟩ := betCancellationCredit_ok h
      refine (hcr.rewritesBet hs rfl).stepsBet (.cancel ?_)
      rcases ho with ho | ho
      · exact .inr (List.mem_singleton.mp ho)
      · exact .inl ho.1
    case naCancellationCredit =>
      obtain ⟨hcr, ho, -⟩ := naCancellationCredit_ok h
      refine (hcr.rewritesBet hs rfl).stepsBet (.naCancel ?_)
      rcases ho with ho | ho
      · simp only [List.mem_cons, List.not_mem_nil, or_false] at ho
        exact .inr ho
      · exact .inl ho.1
    case closePosition =>
      obtain ⟨delta, credit, hcr, hst, -, hlo, hhi, hp, -⟩ := closePosition_ok h
      exact (hcr.rewritesBet hs rfl).stepsBet (.close hst hlo hhi hp)
    case partialFillCredit =>
      obtain ⟨hcr, hst, -, hlo, hhi, -, hq, -⟩ := partialFillCredit_ok h
      exact (hcr.rewritesBet hs rfl).stepsBet (.partialFill hst hlo hhi hq)
    case adminCancelBet =>
      obtain ⟨-, -, hst, -⟩ := adminCancelBet_ok h
      exact (rewritesBet_adminCancelBet h hs).stepsBet (.adminCancel hst)

/-- A credit of the bet adds to the claimable fees what its step releases. -/
theorem released_exec {m : Msg} {c : Call F Proof Sig} {e : BetEvent F}
    (h : exec E m s c = .ok s') (he : c.betEvent? s n = some e)
    (hcreate : ∀ record fee, e ≠ .create record fee) :
    s'.feeAccumulator = s.feeAccumulator + e.released (s.bet n) := by
  cases c <;> simp only [Call.betEvent?, Option.ite_none_right_eq_some, Option.some.injEq,
    reduceCtorEq] at he <;> simp only [exec] at h <;> obtain ⟨rfl, rfl⟩ := he
  case authorizeBet => exact absurd rfl (hcreate _ _)
  case creditSettlement =>
    obtain ⟨t', -, rfl⟩ := (creditSettlement_ok h).1.effect
    rfl
  case betCancellationCredit =>
    obtain ⟨t', -, rfl⟩ := (betCancellationCredit_ok h).1.effect
    rfl
  case naCancellationCredit =>
    obtain ⟨t', -, rfl⟩ := (naCancellationCredit_ok h).1.effect
    rfl
  case closePosition proof inputs att sig =>
    obtain ⟨delta, credit, hcr, -⟩ := closePosition_ok h
    obtain ⟨t', -, rfl⟩ := hcr.effect
    by_cases hfull : att.amountA = (s.betRecords inputs.nullifierOfBet).expectedShares
    · rw [BetEvent.released_close_full hfull]
      exact if_pos hfull
    · rw [BetEvent.released_close_partial hfull]
      exact if_neg hfull
  case partialFillCredit =>
    obtain ⟨t', -, rfl⟩ := (partialFillCredit_ok h).1.effect
    rfl
  case adminCancelBet =>
    obtain ⟨-, -, -, rfl⟩ := adminCancelBet_ok h
    rfl

end Step

/-! ## Every run -/

/-- A chain whose trace is a history of every bet. -/
structure ChainHistory (E : Env F Proof Sig) (ch : Chain F Proof Sig) : Prop where
  inv : BetInv ch.state
  run : ∀ n, BetRun (betHistory n ch.trace) (ch.state.bet n)
  executed : ∀ x ∈ ch.trace, exec E x.msg x.pre x.call = .ok x.post

theorem ChainHistory.call {ch : Chain F Proof Sig} {m : Msg} {c : Call F Proof Sig}
    {s' : VaultState F} (hch : ChainHistory E ch) (h : exec E m ch.state c = .ok s') :
    ChainHistory E ⟨s', ch.trace ++ [⟨ch.state, m, c, s'⟩]⟩ where
  inv := hch.inv.exec h
  run := fun n => by
    have hstep := betStep_exec (n := n) hch.inv h
    have hrun := hch.run n
    simp only [betHistory, List.filterMap_append] at hrun ⊢
    cases he : c.betEvent? ch.state n with
    | none =>
      rw [he] at hstep
      simp only [List.filterMap_cons, Executed.betStep?, he, Option.map_none, List.filterMap_nil,
        List.append_nil]
      exact hstep ▸ hrun
    | some e =>
      rw [he] at hstep
      simp only [List.filterMap_cons, Executed.betStep?, he, Option.map_some, List.filterMap_nil]
      exact hrun.step hstep
  executed := fun x hx => by
    rcases List.mem_append.mp hx with hx | hx
    · exact hch.executed x hx
    · rw [List.mem_singleton.mp hx]
      exact h

theorem chainHistory_runActions {args : InitArgs} {s : VaultState F}
    (h : deploy E args = .ok s) (as : List (Action F Proof Sig)) :
    ChainHistory E (runActions E s as) := by
  refine extend_invariant E ?_ (fun ch m c s' hch hx => hch.call hx) ?_ as
  · refine ⟨betInv_deploy h, fun n => ?_, fun x hx => by cases hx⟩
    obtain rfl := deploy_ok E h
    exact .nil
  · intro ch usdc ctf hch
    exact ⟨(keepsBets_world ..).betInv hch.inv, hch.run, hch.executed⟩

/-- From a state of a bet on: a terminal record stays, and the sold shares and proceeds grow. -/
structure Later (r r' : BetRecord F) : Prop where
  terminal : r.status.Terminal → r' = r
  sold : r.soldShares ≤ r'.soldShares
  proceeds : r.sellProceeds ≤ r'.sellProceeds

theorem later_extend {ch : Chain F Proof Sig} (hch : ChainHistory E ch) (n : F)
    (bs : List (Action F Proof Sig)) :
    Later (ch.state.betRecords n) ((extend E ch bs).state.betRecords n) := by
  refine (extend_invariant E (P := fun ch' => ChainHistory E ch' ∧
    Later (ch.state.betRecords n) (ch'.state.betRecords n)) ⟨hch, ?_⟩ ?_ ?_ bs).2
  · exact ⟨fun _ => rfl, UInt64.le_refl _, UInt64.le_refl _⟩
  · rintro ch' m c s' ⟨hch', hl⟩ hx
    refine ⟨hch'.call hx, ?_⟩
    have hstep := betStep_exec (n := n) hch'.inv hx
    cases he : c.betEvent? ch'.state n with
    | none =>
      rw [he] at hstep
      have hr : s'.betRecords n = ch'.state.betRecords n := congrArg Bet.record hstep
      rw [hr]
      exact hl
    | some e =>
      rw [he] at hstep
      obtain ⟨h1, h2⟩ := BetStep.sold_mono hstep
      refine ⟨fun ht => ?_, UInt64.le_trans hl.sold h1, UInt64.le_trans hl.proceeds h2⟩
      have hterm : (ch'.state.bet n).record.status.Terminal := by
        rw [show (ch'.state.bet n).record = ch.state.betRecords n from hl.terminal ht]
        exact ht
      exact absurd hterm (BetStep.not_terminal hstep)
  · rintro ch' usdc ctf ⟨hch', hl⟩
    exact ⟨⟨(keepsBets_world ..).betInv hch'.inv, hch'.run, hch'.executed⟩, hl⟩

/-- What a run has done with one bet. -/
structure BetLifecycle (E : Env F Proof Sig) (s : VaultState F) (as : List (Action F Proof Sig))
    (n : F) : Prop where
  /-- No bet is created twice, and a record was never written without its bet. -/
  created_once : (runActions E s as).state.betList.Nodup ∧
    (n ∉ (runActions E s as).state.betList → (runActions E s as).state.bet n = .unset)
  /-- Terminal records are absorbing, sold shares and proceeds monotone. -/
  later : ∀ bs, Later ((runActions E s as).state.betRecords n)
    ((runActions E s (as ++ bs)).state.betRecords n)
  ended_once :
    (betHistory n (runActions E s as).trace).countP (fun x => x.2.ends x.1) ≤ 1
  sold_le : ((runActions E s as).state.betRecords n).soldShares
    ≤ ((runActions E s as).state.betRecords n).expectedShares
  /-- The fee charged is provisional, was refunded, or was released. -/
  fee_split : sumSteps chargedAt (betHistory n (runActions E s as).trace)
    = ((runActions E s as).state.betProtocolFee n).toNat
      + sumSteps refundedAt (betHistory n (runActions E s as).trace)
      + sumSteps releasedAt (betHistory n (runActions E s as).trace)
  refunded_once : countSteps refundedAt (betHistory n (runActions E s as).trace) ≤ 1
  released_once : countSteps releasedAt (betHistory n (runActions E s as).trace) ≤ 1
  /-- What a step releases is what its call adds to the claimable fees. -/
  released : ∀ x ∈ (runActions E s as).trace, ∀ e, x.call.betEvent? x.pre n = some e →
    (∀ record fee, e ≠ .create record fee) →
      x.post.feeAccumulator = x.pre.feeAccumulator + e.released (x.pre.bet n)
  /-- What a step refunds is part of the amount its proof adds to the note. -/
  refunded : ∀ x ∈ (runActions E s as).trace, ∀ proof inputs att sig, inputs.nullifierOfBet = n →
    (x.call = .betCancellationCredit proof inputs att sig → ∃ amount : UInt64,
      amount.toNat
          = (x.pre.bet n).record.betAmount.toNat + BetEvent.refunded (x.pre.bet n) .cancel ∧
        verifyBetCancel E proof inputs amount = true) ∧
    (x.call = .partialFillCredit proof inputs att sig → ∃ amount : UInt64,
      amount.toNat = (x.pre.bet n).record.betAmount.toNat - att.amountB.toNat
          + BetEvent.refunded (x.pre.bet n) (.partialFill att.amountA att.amountB) ∧
        verifyPartialCredit E proof inputs amount = true)
  terminal_fee : ((runActions E s as).state.betRecords n).status.Terminal →
    (runActions E s as).state.betProtocolFee n = 0
  cancelled : ∀ x ∈ betHistory n (runActions E s as).trace, x.2 = .cancel →
    sumSteps refundedAt (betHistory n (runActions E s as).trace)
      = sumSteps chargedAt (betHistory n (runActions E s as).trace)
  not_cancelled : ∀ x ∈ betHistory n (runActions E s as).trace, x.2.ends x.1 = true →
    x.2 ≠ .cancel →
    (∀ y ∈ betHistory n (runActions E s as).trace, ∀ f q, y.2 ≠ .partialFill f q) →
      sumSteps refundedAt (betHistory n (runActions E s as).trace) = 0

omit [Field F] [DecidableEq F] in
/-- Two steps that end a bet in one history are the same step. -/
theorem eq_of_countP_le_one {α : Type} {p : α → Bool} {l : List α} (h : l.countP p ≤ 1) {x y : α}
    (hx : x ∈ l) (hy : y ∈ l) (hpx : p x = true) (hpy : p y = true) : x = y := by
  rw [List.countP_eq_length_filter] at h
  have hxf := List.mem_filter.mpr ⟨hx, hpx⟩
  have hyf := List.mem_filter.mpr ⟨hy, hpy⟩
  match hf : l.filter p, h, hxf, hyf with
  | [a], _, hxf, hyf => rw [List.mem_singleton.mp hxf, List.mem_singleton.mp hyf]

/-- Every bet of every run has the lifecycle of `BetStep`. -/
theorem bet_lifecycle {args : InitArgs} {s : VaultState F} (h : deploy E args = .ok s)
    (as : List (Action F Proof Sig)) (n : F) : BetLifecycle E s as n := by
  have hch := chainHistory_runActions h as
  have hinv := (hch.run n).invariant
  refine ⟨⟨hch.inv.nodup, fun hn => ?_⟩, fun bs => ?_, hinv.ended_once, hinv.sold_le,
    hinv.fee_split, hinv.refunded_once, hinv.released_once, fun x hx e he hc => ?_,
    fun x hx proof inputs att sig hn => ⟨fun hcall => ?_, fun hcall => ?_⟩, hinv.terminal,
    hinv.cancelled, fun x hx hends hc hp => ?_⟩
  · obtain ⟨h1, h2⟩ := hch.inv.unset n (by rwa [VaultState.bets, List.mem_toFinset])
    exact Bet.ext h1 h2
  · rw [runActions_append]
    exact later_extend hch n bs
  · exact released_exec (hch.executed x hx) he hc
  · have hx' := hch.executed x hx
    rw [hcall] at hx'
    obtain ⟨-, -, refund, hrefund, hv⟩ := betCancellationCredit_ok hx'
    subst hn
    exact ⟨refund, hrefund, hv⟩
  · have hx' := hch.executed x hx
    rw [hcall] at hx'
    obtain ⟨-, -, -, -, -, -, -, refund, hrefund, hv⟩ := partialFillCredit_ok hx'
    subst hn
    exact ⟨refund, hrefund, hv⟩
  · refine sumSteps_refundedAt_eq_zero fun y hy => ⟨fun hyc => hc ?_, hp y hy⟩
    have hyends : y.2.ends y.1 = true := by rw [hyc]; rfl
    rw [eq_of_countP_le_one hinv.ended_once hx hy hends hyends]
    exact hyc

/-! ## A deployment with the mocks of the contract tests -/

instance fact_prime_101 : Fact (Nat.Prime 101) := ⟨by norm_num⟩

/-- A small hash in place of Poseidon. -/
def mockCircomlib : Circomlib (ZMod 101) where
  num2Bits _ _ := True
  lessThan _ _ _ _ := True
  poseidon2 a b := (2 : ℕ) * a + (3 : ℕ) * b + 1
  poseidon4 a b c d := a + (2 : ℕ) * b + (3 : ℕ) * c + (5 : ℕ) * d + 1

/-- A verifier that passes, and an operator that has signed the attestations of a list. -/
def mockEnv (signed : List (OperatorAttestation (ZMod 101))) : Env (ZMod 101) Unit Unit where
  circomlib := mockCircomlib
  verify _ _ _ := true
  recover att _ := if att ∈ signed then some 1 else none
  token := plainErc20
  vault := 9

def mockArgs : InitArgs where
  usdc := ⟨fun _ => 1000000000, fun _ => 1000000000⟩
  ctf := ⟨fun _ i => if i = 0 then 1 else 0, fun _ => 1, fun _ => 2⟩
  signingLayerOperator := 1
  depositWallet := 2
  owner := 3

def mockDeployed (E : Env (ZMod 101) Unit Unit) : VaultState (ZMod 101) :=
  initializeV2 (initialState E mockArgs)

theorem mockDeployed_ok (E : Env (ZMod 101) Unit Unit) :
    deploy E mockArgs = .ok (mockDeployed E) := rfl

def mockRoot : ZMod 101 := 38

/-- A bet that is authorized and then cancelled. -/
theorem bet_lifecycle_cancelled_bet :
    let E := mockEnv [⟨5, reportFailed, 0, 0⟩]
    let as : List (Action (ZMod 101) Unit Unit) :=
      [.call ⟨7, 1⟩ (.authorizeBet () ⟨mockRoot, 5, 8, 2000000, 50000000, 10, 11, 0, 12⟩),
        .call ⟨7, 1⟩ (.betCancellationCredit () ⟨mockRoot, 6, 13, 5⟩ ⟨5, reportFailed, 0, 0⟩ ())]
    (runActions E (mockDeployed E) as).trace.length = 2 ∧
      BetLifecycle E (mockDeployed E) as 5 :=
  ⟨by decide +kernel, bet_lifecycle (mockDeployed_ok _) _ 5⟩

end Polyshield

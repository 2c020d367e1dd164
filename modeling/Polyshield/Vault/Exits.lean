import Polyshield.Vault.Lifecycle

/-!
# The exits of a resolved bet

A bet on a resolved condition leaves through `creditSettlement`, once
`resolveMarket` has stored the payouts, or through `naCancellationCredit`, once
`registerCondition` has named the condition. Which of the two a report opens is
decided by the quotients of its payout vector.
-/

namespace Polyshield

variable {F Proof Sig : Type} [Field F] [DecidableEq F] {E : Env F Proof Sig}

namespace Ctf

/-- The payout of one share of a slot, rounded down. -/
def quotient (ctf : Ctf) (conditionId i : ℕ) : ℕ :=
  ctf.payoutNumerators conditionId i / ctf.payoutDenominator conditionId

/-- Some slot pays, and every payout is a `uint64`. -/
def Payable (ctf : Ctf) (conditionId : ℕ) : Prop :=
  (∃ i < ctf.getOutcomeSlotCount conditionId, ctf.quotient conditionId i ≠ 0) ∧
    ∀ i < ctf.getOutcomeSlotCount conditionId, ctf.quotient conditionId i < 2 ^ 64

/-- No slot pays. -/
def IsNA (ctf : Ctf) (conditionId : ℕ) : Prop :=
  ∀ i < ctf.getOutcomeSlotCount conditionId, ctf.payoutNumerators conditionId i = 0

theorem Payable.not_isNA {ctf : Ctf} {conditionId : ℕ} (h : ctf.Payable conditionId) :
    ¬ ctf.IsNA conditionId := by
  obtain ⟨⟨i, hi, hq⟩, -⟩ := h
  intro hna
  rw [quotient, hna i hi, Nat.zero_div] at hq
  exact hq rfl

/-- What a share of an outcome side is paid; a side without a slot is paid nothing. -/
def payout (ctf : Ctf) (conditionId : ℕ) (side : UInt8) : ℕ :=
  if side.toNat < ctf.getOutcomeSlotCount conditionId
  then ctf.quotient conditionId side.toNat else 0

end Ctf

/-! ## The loop of `resolveMarket` -/

section Loop

variable {ctf : Ctf} {c : ℕ}

/-- What the loop has accumulated after `k` slots. -/
def payoutsOf (ctf : Ctf) (c k : ℕ) (before : UInt8 → UInt64) : PayoutLoop where
  payouts := fun side => if side.toNat < k then UInt64.ofNat (ctf.quotient c side.toNat)
    else before side
  anyNonZero := decide (∃ i < k, 0 < ctf.payoutNumerators c i)
  anyNonZeroAfterDiv := decide (∃ i < k, ctf.quotient c i ≠ 0)

theorem payoutStep_eq (acc : PayoutLoop) (i : ℕ) :
    payoutStep ctf c (ctf.payoutDenominator c) acc i
      = if 2 ^ 64 - 1 < ctf.quotient c i then .error .ppsOverflow
        else .ok
          ⟨Function.update acc.payouts (UInt8.ofNat i) (UInt64.ofNat (ctf.quotient c i)),
            acc.anyNonZero || decide (0 < ctf.payoutNumerators c i),
            acc.anyNonZeroAfterDiv || decide (0 < UInt64.ofNat (ctf.quotient c i))⟩ := by
  unfold payoutStep revertIf Ctf.quotient
  by_cases h : 2 ^ 64 - 1 < ctf.payoutNumerators c i / ctf.payoutDenominator c
  · simp only [if_pos h, bind, Except.bind]
  · simp only [if_neg h, bind, Except.bind, pure, Except.pure]

theorem payoutStep_payoutsOf {k : ℕ} (before : UInt8 → UInt64) (hk : k < 256)
    (hq : ctf.quotient c k < 2 ^ 64) :
    payoutStep ctf c (ctf.payoutDenominator c) (payoutsOf ctf c k before) k
      = .ok (payoutsOf ctf c (k + 1) before) := by
  have hpos : 0 < UInt64.ofNat (ctf.quotient c k) ↔ ctf.quotient c k ≠ 0 := by
    rw [UInt64.lt_iff_toNat_lt, UInt64.toNat_ofNat', Nat.mod_eq_of_lt hq]
    exact Nat.pos_iff_ne_zero
  have hside : (UInt8.ofNat k).toNat = k := by
    rw [UInt8.toNat_ofNat', Nat.mod_eq_of_lt hk]
  rw [payoutStep_eq, if_neg (by omega)]
  simp only [payoutsOf, Except.ok.injEq, PayoutLoop.mk.injEq]
  refine ⟨?_, ?_, ?_⟩
  · funext side
    by_cases h : side = UInt8.ofNat k
    · subst h
      simp [hside]
    · have hne : side.toNat ≠ k := fun e => h (UInt8.toNat_inj.mp (e.trans hside.symm))
      rw [Function.update_of_ne h]
      by_cases hlt : side.toNat < k
      · rw [if_pos hlt, if_pos (by omega)]
      · rw [if_neg hlt, if_neg (by omega)]
  · simp only [← Bool.decide_or, Nat.exists_lt_succ_right]
  · simp only [← Bool.decide_or, Nat.exists_lt_succ_right, hpos]

theorem payoutLoop_ok (before : UInt8 → UInt64) :
    ∀ k ≤ 256, (∀ i < k, ctf.quotient c i < 2 ^ 64) →
      (List.range k).foldlM (payoutStep ctf c (ctf.payoutDenominator c)) ⟨before, false, false⟩
        = .ok (payoutsOf ctf c k before) := by
  intro k
  induction k with
  | zero =>
    intro _ _
    simp [payoutsOf, pure, Except.pure]
  | succ k ih =>
    intro hk hq
    rw [List.range_succ, List.foldlM_append, ih (by omega) fun i hi => hq i (by omega)]
    simp only [List.foldlM_cons, List.foldlM_nil, bind_pure]
    exact payoutStep_payoutsOf before (by omega) (hq k (by omega))

theorem payoutLoop_error {k : ℕ} (acc : PayoutLoop) (hq : ∃ i < k, 2 ^ 64 ≤ ctf.quotient c i) :
    ∀ acc', (List.range k).foldlM (payoutStep ctf c (ctf.payoutDenominator c)) acc ≠ .ok acc' := by
  obtain ⟨i, hi, hq⟩ := hq
  obtain ⟨d, rfl⟩ : ∃ d, k = i + (d + 1) := ⟨k - i - 1, by omega⟩
  intro acc' h
  rw [List.range_add, List.foldlM_append, Except.bind_eq_ok] at h
  obtain ⟨acc1, -, h⟩ := h
  rw [List.range_succ_eq_map, List.map_cons, List.foldlM_cons, Except.bind_eq_ok] at h
  obtain ⟨acc2, h, -⟩ := h
  rw [Nat.add_zero, payoutStep_eq, if_pos (by omega)] at h
  cases h

end Loop

/-! ## The two ways out -/

section Exits

variable {s s' : VaultState F} {m : Msg} {c : ℕ}

def resolvedState (m : Msg) (s : VaultState F) (c : ℕ) : VaultState F :=
  let key : F := circuitKey c
  let payouts := (payoutsOf s.ctf c (s.ctf.getOutcomeSlotCount c) (s.pendingCredit key)).payouts
  { s with
    pendingCredit := Function.update s.pendingCredit key payouts
    marketResolvedAt := Function.update s.marketResolvedAt key (UInt64.ofNat m.timestamp)
    conditionIdOf := Function.update s.conditionIdOf key c
    logs := s.logs ++ [.marketResolved key (UInt64.ofNat m.timestamp)] }

/-- A market that was not resolved gets resolved exactly on a payable report. -/
theorem resolveMarket_eq_ok (hslots : s.ctf.getOutcomeSlotCount c ≤ 256) :
    resolveMarket m s c = .ok s' ↔
      m.sender = s.signingLayerOperator ∧ s.marketResolvedAt (circuitKey c) = 0 ∧
        s.ctf.payoutDenominator c ≠ 0 ∧ s.ctf.Payable c ∧ s' = resolvedState m s c := by
  simp only [resolveMarket, Except.bind_eq_ok, revertIf_eq_ok, exists_const, not_not,
    Except.pure_eq_ok, Bool.not_eq_false]
  constructor
  · rintro ⟨hop, hres, hden, slots, hloop, -, hdiv, rfl⟩
    have hfit : ∀ i < s.ctf.getOutcomeSlotCount c, s.ctf.quotient c i < 2 ^ 64 := by
      intro i hi
      by_contra hq
      exact payoutLoop_error _ ⟨i, hi, not_lt.mp hq⟩ _ hloop
    rw [payoutLoop_ok _ _ hslots hfit, Except.ok.injEq] at hloop
    subst hloop
    exact ⟨hop, hres, hden, ⟨of_decide_eq_true hdiv, hfit⟩, rfl⟩
  · rintro ⟨hop, hres, hden, ⟨⟨i, hi, hq⟩, hfit⟩, rfl⟩
    refine ⟨hop, hres, hden, _, payoutLoop_ok _ _ hslots hfit, ?_, ?_, rfl⟩
    · refine decide_eq_true ⟨i, hi, Nat.pos_of_ne_zero fun h0 => hq ?_⟩
      rw [Ctf.quotient, h0, Nat.zero_div]
    · exact decide_eq_true ⟨i, hi, hq⟩

/-- What `naCancellationCredit` asks of the market of a bet. -/
def naMarketChecks (s : VaultState F) (marketId : F) : Except Revert Unit := do
  let realConditionId := s.conditionIdOf marketId
  revertIf (realConditionId = 0) .conditionNotRegistered
  revertIf (s.ctf.payoutDenominator realConditionId = 0) .conditionNotResolved
  let slotCount := s.ctf.getOutcomeSlotCount realConditionId
  revertIf (∃ i < slotCount, s.ctf.payoutNumerators realConditionId i ≠ 0) .notNA

/-- What `naCancellationCredit` does once the market has passed. -/
def naRefund (E : Env F Proof Sig) (s : VaultState F) (proof : Proof)
    (inputs : NACancelPublicInputs F) : Except Revert (VaultState F) := do
  let record := s.betRecords inputs.nullifierOfBet
  revertIf (verifyNACancel E proof inputs record.betAmount = false) .invalidProof
  let s ← spendAndInsert E s inputs.nullifier inputs.newCommitment
  let s := s.setRecord inputs.nullifierOfBet { record with status := .cancelledCredited }
  releaseProtocolFee (s.emit
    (.naCancellationCredited inputs.nullifier inputs.nullifierOfBet inputs.newCommitment))
    inputs.nullifierOfBet

/-- What `creditSettlement` does once the market and the amount have passed. -/
def settlementPayment (E : Env F Proof Sig) (s : VaultState F) (proof : Proof)
    (inputs : SettlementPublicInputs F) : Except Revert (VaultState F) := do
  let record := s.betRecords inputs.nullifierOfBet
  revertIf (verifySettlement E proof inputs = false) .invalidProof
  let s ← spendAndInsert E s inputs.nullifier inputs.newCommitment
  let s := s.setRecord inputs.nullifierOfBet { record with status := .credited }
  releaseProtocolFee (s.emit
    (.settlementCredited inputs.nullifier inputs.nullifierOfBet inputs.newCommitment))
    inputs.nullifierOfBet

/-- What a credit asks of its note and of the outcome of its bet. -/
structure Creditable (E : Env F Proof Sig) (s : VaultState F) (i : BetCancelPublicInputs F)
    (settled : List BetStatus) (att : OperatorAttestation F) (sig : Sig)
    (primaryType altType : UInt8) : Prop where
  unpaused : s.paused = false
  unspent : s.spent i.nullifier = false
  known : s.tree.isKnownRoot i.merkleRoot = true
  outcome : Outcome E s i.nullifierOfBet settled att sig primaryType altType

theorem revertIf_of_not {p : Prop} [Decidable p] {e : Revert} (h : ¬ p) : revertIf p e = .ok () :=
  if_neg h

theorem ok_bind {ε α β : Type} (a : α) (f : α → Except ε β) : (Except.ok a >>= f) = f a := rfl

omit [Field F] in
theorem checkAttestation_eq_ok {att : OperatorAttestation F} {sig : Sig} {nob : F}
    {primaryType altType : UInt8} (h : Attested E s att sig nob primaryType altType) :
    checkAttestation E s att sig nob primaryType altType = .ok () := by
  obtain ⟨h1, h2, h3⟩ := h
  have h2' : ¬ (att.reportType ≠ primaryType ∧ att.reportType ≠ altType) := by tauto
  simp [checkAttestation, revertIf, h1, h2', h3, bind, Except.bind]

omit [Field F] in
theorem requireOutcome_eq_ok {nob : F} {settled : List BetStatus} {e : Revert}
    {att : OperatorAttestation F} {sig : Sig} {primaryType altType : UInt8}
    (h : Outcome E s nob settled att sig primaryType altType) :
    requireOutcome E s (s.betRecords nob) settled e att sig nob primaryType altType = .ok () := by
  unfold requireOutcome
  split
  · rfl
  · obtain ⟨ha, hatt⟩ := h.resolve_left ‹_›
    rw [checkAttestation_eq_ok hatt]
    simp [ha, revertIf, bind, Except.bind]

theorem Creditable.checks {i : BetCancelPublicInputs F} {settled : List BetStatus}
    {att : OperatorAttestation F} {sig : Sig} {primaryType altType : UInt8}
    (h : Creditable E s i settled att sig primaryType altType) :
    whenNotPaused s = .ok () ∧ requireUnspentKnownRoot s i.nullifier i.merkleRoot = .ok () := by
  refine ⟨revertIf_of_not (by simp [h.unpaused]), ?_⟩
  rw [requireUnspentKnownRoot, revertIf_of_not (by simp [h.unspent]), ok_bind]
  exact revertIf_of_not (by simp [h.known])

/-- A creditable bet whose shares were not sold depends on its market alone. -/
theorem naCancellationCredit_eq {proof : Proof} {inputs : NACancelPublicInputs F}
    {att : OperatorAttestation F} {sig : Sig}
    (h : Creditable E s inputs.core [.filled, .failed] att sig reportFilled reportFailed)
    (hm : (s.betRecords inputs.nullifierOfBet).marketId = inputs.marketId)
    (hm0 : inputs.marketId ≠ 0) (hsold : (s.betRecords inputs.nullifierOfBet).soldShares = 0) :
    naCancellationCredit E s proof inputs att sig
      = naMarketChecks s inputs.marketId >>= fun _ => naRefund E s proof inputs := by
  obtain ⟨hpause, hnote⟩ := h.checks
  have houtcome : requireOutcome E s (s.betRecords inputs.nullifierOfBet) [.filled, .failed]
      .betNotCancellable att sig inputs.nullifierOfBet reportFilled reportFailed = .ok () :=
    requireOutcome_eq_ok h.outcome
  simp only [NACancelPublicInputs.core] at hnote
  simp only [naCancellationCredit, VaultLogic.naCancellationCredit, hpause, hnote, houtcome,
    ok_bind, bind_assoc]
  rw [revertIf_of_not (hm ▸ hm0), revertIf_of_not (by simp [hm]),
    revertIf_of_not (by simp [hsold])]
  simp only [ok_bind, naMarketChecks, naRefund, bind_assoc, pure_bind]

/-- A creditable bet of a resolved market depends on the amount alone. -/
theorem creditSettlement_eq {proof : Proof} {inputs : SettlementPublicInputs F}
    {att : OperatorAttestation F} {sig : Sig}
    (h : Creditable E s inputs.core [.filled] att sig reportFilled reportFilled)
    (hm : (s.betRecords inputs.nullifierOfBet).marketId = inputs.marketId)
    (hm0 : inputs.marketId ≠ 0) (hres : s.marketResolvedAt inputs.marketId ≠ 0)
    (hsold : (s.betRecords inputs.nullifierOfBet).soldShares
      ≤ (s.betRecords inputs.nullifierOfBet).expectedShares)
    (hcredit : ((s.betRecords inputs.nullifierOfBet).expectedShares.toNat
        - (s.betRecords inputs.nullifierOfBet).soldShares.toNat)
          * (s.pendingCredit inputs.marketId
              (s.betRecords inputs.nullifierOfBet).outcomeSide).toNat
      = inputs.totalCredit.toNat) :
    creditSettlement E s proof inputs att sig = settlementPayment E s proof inputs := by
  obtain ⟨hpause, hnote⟩ := h.checks
  have houtcome : requireOutcome E s (s.betRecords inputs.nullifierOfBet) [.filled]
      .betNotFilled att sig inputs.nullifierOfBet reportFilled reportFilled = .ok () :=
    requireOutcome_eq_ok h.outcome
  have hheld : checkedSub (s.betRecords inputs.nullifierOfBet).expectedShares
      (s.betRecords inputs.nullifierOfBet).soldShares
        = .ok ((s.betRecords inputs.nullifierOfBet).expectedShares
          - (s.betRecords inputs.nullifierOfBet).soldShares) :=
    if_pos (UInt64.le_iff_toNat_le.mp hsold)
  simp only [SettlementPublicInputs.core] at hnote
  simp only [creditSettlement, VaultLogic.creditSettlement, hpause, hnote, houtcome, hheld,
    ok_bind, bind_assoc]
  rw [revertIf_of_not (hm ▸ hm0), revertIf_of_not (by simp [hm]), revertIf_of_not hres]
  simp only [ok_bind]
  rw [revertIf_of_not (by
    rw [UInt64.toNat_sub_of_le _ _ hsold, hcredit]
    exact not_not.mpr rfl)]
  simp only [ok_bind, settlementPayment, pure_bind]

def registeredState (s : VaultState F) (c : ℕ) : VaultState F :=
  { s with
    conditionIdOf := Function.update s.conditionIdOf (circuitKey c) c
    logs := s.logs ++ [.conditionRegistered (circuitKey c) c] }

theorem registerCondition_eq (hop : m.sender = s.signingLayerOperator) :
    registerCondition m s c = .ok (registeredState s c) := by
  rw [registerCondition, revertIf_of_not (by simp [hop])]
  rfl

/-- A registered condition with a report passes the market checks exactly when no slot pays. -/
theorem naMarketChecks_registered (hc : c ≠ 0) (hden : s.ctf.payoutDenominator c ≠ 0) :
    naMarketChecks (registeredState s c) (circuitKey c) = .ok () ↔ s.ctf.IsNA c := by
  simp [naMarketChecks, registeredState, hc, hden, Ctf.IsNA]

end Exits

/-! ## Payouts stay as they were resolved -/

section Payouts

variable {s s' : VaultState F} {m : Msg}

omit [Field F] [DecidableEq F] in
/-- What a call makes of `deployedToPolymarket`. -/
def Call.deployed (deployed : ℕ) : Call F Proof Sig → ℕ
  | .fundPolymarketWallet amount => deployed + amount
  | .acknowledgePolymarketReturn amount => deployed - amount
  | _ => deployed

/-- A call appends to the logs, two calls write `deployedToPolymarket`, and only `resolveMarket`
writes payouts. -/
theorem frame_exec {c : Call F Proof Sig} (h : exec E m s c = .ok s') :
    (s'.ctf = s.ctf ∧ (∃ events, s'.logs = s.logs ++ events) ∧
      s'.deployedToPolymarket = c.deployed s.deployedToPolymarket) ∧
    ((s'.pendingCredit = s.pendingCredit ∧ s'.marketResolvedAt = s.marketResolvedAt) ∨
      ∃ c' : ℕ, s.marketResolvedAt (circuitKey c') = 0 ∧
        s'.marketResolvedAt (circuitKey c') = UInt64.ofNat m.timestamp ∧
        ∀ key, key ≠ circuitKey c' → s'.pendingCredit key = s.pendingCredit key ∧
          s'.marketResolvedAt key = s.marketResolvedAt key) := by
  cases c <;> simp only [exec] at h
  case resolveMarket c' =>
    simp only [resolveMarket, Except.bind_eq_ok, revertIf_eq_ok, exists_const, not_not,
      Except.pure_eq_ok] at h
    obtain ⟨-, hres, -, slots, -, -, -, rfl⟩ := h
    refine ⟨⟨rfl, ⟨_, rfl⟩, rfl⟩,
      .inr ⟨c', hres, Function.update_self .., fun key hkey => ⟨?_, ?_⟩⟩⟩
    · exact Function.update_of_ne hkey ..
    · exact Function.update_of_ne hkey ..
  case deposit =>
    obtain ⟨-, -, r, t', usdc', -, rfl⟩ := deposit_ok h
    exact ⟨⟨rfl, ⟨_, rfl⟩, rfl⟩, .inl ⟨rfl, rfl⟩⟩
  case authorizeBet =>
    obtain ⟨-, -, fee, -, -, t', -, rfl⟩ := authorizeBet_ok h
    exact ⟨⟨rfl, ⟨_, rfl⟩, rfl⟩, .inl ⟨rfl, rfl⟩⟩
  case withdraw =>
    obtain ⟨-, -, -, -, -, t', usdc', -, rfl⟩ := withdraw_ok h
    exact ⟨⟨rfl, ⟨_, rfl⟩, rfl⟩, .inl ⟨rfl, rfl⟩⟩
  case creditSettlement =>
    obtain ⟨t', -, rfl⟩ := (creditSettlement_ok h).1.effect
    exact ⟨⟨rfl, ⟨_, rfl⟩, rfl⟩, .inl ⟨rfl, rfl⟩⟩
  case betCancellationCredit =>
    obtain ⟨t', -, rfl⟩ := (betCancellationCredit_ok h).1.effect
    exact ⟨⟨rfl, ⟨_, rfl⟩, rfl⟩, .inl ⟨rfl, rfl⟩⟩
  case naCancellationCredit =>
    obtain ⟨t', -, rfl⟩ := (naCancellationCredit_ok h).1.effect
    exact ⟨⟨rfl, ⟨_, rfl⟩, rfl⟩, .inl ⟨rfl, rfl⟩⟩
  case closePosition =>
    obtain ⟨delta, credit, hcr, -⟩ := closePosition_ok h
    obtain ⟨t', -, rfl⟩ := hcr.effect
    exact ⟨⟨rfl, ⟨_, rfl⟩, rfl⟩, .inl ⟨rfl, rfl⟩⟩
  case partialFillCredit =>
    obtain ⟨t', -, rfl⟩ := (partialFillCredit_ok h).1.effect
    exact ⟨⟨rfl, ⟨_, rfl⟩, rfl⟩, .inl ⟨rfl, rfl⟩⟩
  case consolidate =>
    obtain ⟨-, -, -, -, spent', r, t', -, -, rfl⟩ := consolidate_ok h
    exact ⟨⟨rfl, ⟨_, rfl⟩, rfl⟩, .inl ⟨rfl, rfl⟩⟩
  case adminCancelBet =>
    obtain ⟨-, -, -, rfl⟩ := adminCancelBet_ok h
    exact ⟨⟨rfl, ⟨_, rfl⟩, rfl⟩, .inl ⟨rfl, rfl⟩⟩
  case withdrawFees =>
    obtain ⟨-, usdc', rfl⟩ := withdrawFees_ok h
    exact ⟨⟨rfl, ⟨_, rfl⟩, rfl⟩, .inl ⟨rfl, rfl⟩⟩
  all_goals
    simp only [registerCondition, setFeeParams, setSigningLayerOperator, setDeploymentCap,
      setAdminCancelTimelock, pause, unpause, adminSweep, fundPolymarketWallet,
      acknowledgePolymarketReturn, onlyOwner, whenNotPaused, Except.bind_eq_ok, revertIf_eq_ok,
      Except.pure_eq_ok, exists_const] at h
  case registerCondition =>
    obtain ⟨-, rfl⟩ := h
    exact ⟨⟨rfl, ⟨_, rfl⟩, rfl⟩, .inl ⟨rfl, rfl⟩⟩
  case setSigningLayerOperator | setDeploymentCap =>
    obtain ⟨-, rfl⟩ := h
    exact ⟨⟨rfl, ⟨[], (List.append_nil _).symm⟩, rfl⟩, .inl ⟨rfl, rfl⟩⟩
  case setFeeParams =>
    obtain ⟨-, -, -, rfl⟩ := h
    exact ⟨⟨rfl, ⟨_, rfl⟩, rfl⟩, .inl ⟨rfl, rfl⟩⟩
  case setAdminCancelTimelock | pause | unpause =>
    obtain ⟨-, -, rfl⟩ := h
    exact ⟨⟨rfl, ⟨[], (List.append_nil _).symm⟩, rfl⟩, .inl ⟨rfl, rfl⟩⟩
  case adminSweep =>
    obtain ⟨-, -, usdc', -, rfl⟩ := h
    exact ⟨⟨rfl, ⟨_, rfl⟩, rfl⟩, .inl ⟨rfl, rfl⟩⟩
  case fundPolymarketWallet =>
    obtain ⟨-, -, -, dep, hdep, -, usdc', -, rfl⟩ := h
    exact ⟨⟨rfl, ⟨_, rfl⟩, checkedAdd256_ok hdep⟩, .inl ⟨rfl, rfl⟩⟩
  case acknowledgePolymarketReturn =>
    obtain ⟨-, -, dep, hdep, rfl⟩ := h
    exact ⟨⟨rfl, ⟨_, rfl⟩, (Nat.sub_eq_of_eq_add (checkedSub256_ok hdep).symm).symm⟩,
      .inl ⟨rfl, rfl⟩⟩

theorem payouts_extend (ch : Chain F Proof Sig) {key : F}
    (hres : ch.state.marketResolvedAt key ≠ 0) (bs : List (Action F Proof Sig)) :
    (extend E ch bs).state.pendingCredit key = ch.state.pendingCredit key ∧
      (extend E ch bs).state.marketResolvedAt key = ch.state.marketResolvedAt key := by
  refine extend_invariant E (P := fun ch' =>
    ch'.state.pendingCredit key = ch.state.pendingCredit key ∧
      ch'.state.marketResolvedAt key = ch.state.marketResolvedAt key) ⟨rfl, rfl⟩ ?_ ?_ bs
  · rintro ch' m c s' ⟨hp, hr⟩ hx
    rcases (frame_exec hx).2 with ⟨h1, h2⟩ | ⟨c', h0, -, hkeep⟩
    · exact ⟨(congrFun h1 key).trans hp, (congrFun h2 key).trans hr⟩
    · obtain ⟨h1, h2⟩ := hkeep key fun hk => hres (by rw [← hr, hk, h0])
      exact ⟨h1.trans hp, h2.trans hr⟩
  · exact fun ch' usdc ctf h => h

/-- The block times of a trace are `uint64`s other than zero. -/
def Timed (trace : List (Executed F Proof Sig)) : Prop :=
  ∀ x ∈ trace, 0 < x.msg.timestamp ∧ x.msg.timestamp < 2 ^ 64

theorem unresolved_payouts {args : InitArgs} {s : VaultState F} (h : deploy E args = .ok s)
    (as : List (Action F Proof Sig)) (ht : Timed (runActions E s as).trace) {key : F}
    (hres : (runActions E s as).state.marketResolvedAt key = 0) :
    (runActions E s as).state.pendingCredit key = fun _ => 0 := by
  refine extend_invariant E (P := fun ch => Timed ch.trace →
    ch.state.marketResolvedAt key = 0 → ch.state.pendingCredit key = fun _ => 0)
    (fun _ _ => ?_) ?_ ?_ as ht hres
  · obtain rfl := deploy_ok E h
    rfl
  · intro ch m c s' hP hx ht hres
    have ht' : Timed ch.trace := fun x hx => ht x (List.mem_append_left _ hx)
    rcases (frame_exec hx).2 with ⟨h1, h2⟩ | ⟨c', h0, hat, hkeep⟩
    · exact (congrFun h1 key).trans (hP ht' ((congrFun h2 key).symm.trans hres))
    · obtain ⟨hpos, hlt⟩ := ht _ (List.mem_append_right _ (List.mem_singleton.mpr rfl))
      have hne : key ≠ circuitKey c' := by
        rintro rfl
        have := congrArg UInt64.toNat (hat.symm.trans hres)
        rw [UInt64.toNat_ofNat', Nat.mod_eq_of_lt hlt] at this
        exact hpos.ne' this
      obtain ⟨h1, h2⟩ := hkeep key hne
      exact h1.trans (hP ht' (h2.symm.trans hres))
  · exact fun ch usdc ctf hP => hP

end Payouts

/-! ## Every resolved bet -/

/-- What a report of the condition `c` opens for the bet `n`. -/
structure BetExits (E : Env F Proof Sig) (ch : Chain F Proof Sig) (n : F) (c : ℕ) : Prop where
  /-- The market gets resolved, unless it was, exactly on a payable report. -/
  resolve : ch.state.marketResolvedAt (circuitKey c) = 0 →
    ∀ m : Msg, m.sender = ch.state.signingLayerOperator →
      ((∃ s', exec E m ch.state (.resolveMarket c) = .ok s') ↔ ch.state.ctf.Payable c)
  /-- The market checks of an N/A credit pass, once the condition is registered, exactly on a
  report that pays nothing, and nothing else about the market stands in the way. -/
  na : ∀ m : Msg, m.sender = ch.state.signingLayerOperator →
    exec E m ch.state (.registerCondition c) = .ok (registeredState ch.state c) ∧
      (naMarketChecks (registeredState ch.state c) (circuitKey c) = .ok () ↔
        ch.state.ctf.IsNA c) ∧
      ∀ proof inputs att sig, inputs.nullifierOfBet = n → inputs.marketId = circuitKey c →
        Creditable E (registeredState ch.state c) inputs.core [.filled, .failed] att sig
          reportFilled reportFailed →
        exec E m (registeredState ch.state c) (.naCancellationCredit proof inputs att sig)
          = naMarketChecks (registeredState ch.state c) (circuitKey c)
              >>= fun _ => naRefund E (registeredState ch.state c) proof inputs
  exclusive : ¬ (ch.state.ctf.Payable c ∧ ch.state.ctf.IsNA c)
  /-- From then on a settlement of the market credits the shares held at the payout of their
  side, and a settlement for that amount is refused for nothing else about the market. -/
  settle : ∀ m s', 0 < m.timestamp → m.timestamp < 2 ^ 64 →
    exec E m ch.state (.resolveMarket c) = .ok s' → ∀ bs,
      let later := (extend E ch (.call m (.resolveMarket c) :: bs)).state
      ∀ m' proof inputs att sig, inputs.marketId = circuitKey c →
        let record := later.betRecords inputs.nullifierOfBet
        let held := record.expectedShares.toNat - record.soldShares.toNat
        let credit := held * ch.state.ctf.payout c record.outcomeSide
        (∀ s'', exec E m' later (.creditSettlement proof inputs att sig) = .ok s'' →
          inputs.totalCredit.toNat = credit) ∧
        (record.marketId = circuitKey c → inputs.totalCredit.toNat = credit →
          Creditable E later inputs.core [.filled] att sig reportFilled reportFilled →
          exec E m' later (.creditSettlement proof inputs att sig)
            = settlementPayment E later proof inputs)

theorem extend_cons {ch : Chain F Proof Sig} {m : Msg} {call : Call F Proof Sig}
    {s' : VaultState F} (h : exec E m ch.state call = .ok s') (bs : List (Action F Proof Sig)) :
    extend E ch (.call m call :: bs)
      = extend E ⟨s', ch.trace ++ [⟨ch.state, m, call, s'⟩]⟩ bs := by
  simp only [extend, List.foldl_cons, advance, h]

/-- In every later state the resolved payout of a side is its quotient. -/
theorem payout_later {args : InitArgs} {s s' : VaultState F} (h : deploy E args = .ok s)
    {as : List (Action F Proof Sig)} (ht : Timed (runActions E s as).trace) {c : ℕ} {m : Msg}
    (hslots : (runActions E s as).state.ctf.getOutcomeSlotCount c ≤ 256)
    (hm : 0 < m.timestamp) (hm' : m.timestamp < 2 ^ 64)
    (hx : exec E m (runActions E s as).state (.resolveMarket c) = .ok s')
    (bs : List (Action F Proof Sig)) :
    let later := (extend E (runActions E s as) (.call m (.resolveMarket c) :: bs)).state
    later.marketResolvedAt (circuitKey c) ≠ 0 ∧ ∀ side,
      (later.pendingCredit (circuitKey c) side).toNat
        = (runActions E s as).state.ctf.payout c side := by
  obtain ⟨-, hres, -, hpay, rfl⟩ := (resolveMarket_eq_ok hslots).mp hx
  have hzero := unresolved_payouts h as ht hres
  set st := (runActions E s as).state
  have hat : (resolvedState m st c).marketResolvedAt (circuitKey c)
      = UInt64.ofNat m.timestamp := Function.update_self ..
  have hpc : (resolvedState m st c).pendingCredit (circuitKey c)
      = (payoutsOf st.ctf c (st.ctf.getOutcomeSlotCount c) fun _ => 0).payouts := by
    rw [← hzero]
    exact Function.update_self ..
  have hne : (resolvedState m st c).marketResolvedAt (circuitKey c) ≠ 0 := by
    rw [hat]
    intro h0
    have := congrArg UInt64.toNat h0
    rw [UInt64.toNat_ofNat', Nat.mod_eq_of_lt hm'] at this
    exact hm.ne' this
  rw [extend_cons hx]
  obtain ⟨h1, h2⟩ := payouts_extend (E := E) ⟨resolvedState m st c,
    (runActions E s as).trace ++ [⟨st, m, .resolveMarket c, resolvedState m st c⟩]⟩ hne bs
  refine ⟨by rwa [h2], fun side => ?_⟩
  rw [h1, hpc]
  unfold Ctf.payout payoutsOf
  by_cases hside : side.toNat < st.ctf.getOutcomeSlotCount c
  · simp only [if_pos hside]
    rw [UInt64.toNat_ofNat', Nat.mod_eq_of_lt (hpay.2 _ hside)]
  · simp only [if_neg hside]
    rfl

/-- A bet on a reported condition has the exit its report opens, and never both. -/
theorem resolved_bet_exits {args : InitArgs} {s : VaultState F} (h : deploy E args = .ok s)
    (as : List (Action F Proof Sig)) (ht : Timed (runActions E s as).trace) (n : F) (c : ℕ)
    (hmarket : ((runActions E s as).state.betRecords n).marketId = circuitKey c)
    (hmarket0 : ((runActions E s as).state.betRecords n).marketId ≠ 0)
    (hsold : ((runActions E s as).state.betRecords n).soldShares = 0)
    (hden : (runActions E s as).state.ctf.payoutDenominator c ≠ 0)
    (hslots : (runActions E s as).state.ctf.getOutcomeSlotCount c ≤ 256) :
    BetExits E (runActions E s as) n c := by
  have hkey : (circuitKey c : F) ≠ 0 := hmarket ▸ hmarket0
  have hc : c ≠ 0 := by
    rintro rfl
    exact hkey (by simp [circuitKey])
  refine ⟨fun hres m hop => ⟨fun ⟨s', hx⟩ => ?_, fun hpay => ?_⟩, fun m hop => ⟨?_, ?_, ?_⟩,
    fun ⟨hpay, hna⟩ => hpay.not_isNA hna, ?_⟩
  · exact ((resolveMarket_eq_ok hslots).mp hx).2.2.2.1
  · exact ⟨_, (resolveMarket_eq_ok hslots).mpr ⟨hop, hres, hden, hpay, rfl⟩⟩
  · exact registerCondition_eq hop
  · exact naMarketChecks_registered hc hden
  · rintro proof inputs att sig rfl hm hcr
    rw [← hm]
    exact naCancellationCredit_eq hcr (hmarket.trans hm.symm) (hm ▸ hkey) hsold
  · intro m s' hm hm' hx bs later m' proof inputs att sig hkey' record held credit
    obtain ⟨hres, hpayout⟩ := payout_later h ht hslots hm hm' hx bs
    refine ⟨fun s'' hs'' => ?_, fun hrec hcredit hcr => ?_⟩
    · obtain ⟨-, -, -, -, htotal, -⟩ := creditSettlement_ok hs''
      rw [htotal, hkey', hpayout]
    · have hinv := ((chainHistory_runActions h (as ++ .call m (.resolveMarket c) :: bs)).run
        inputs.nullifierOfBet).invariant
      rw [runActions_append] at hinv
      refine creditSettlement_eq hcr (hrec.trans hkey'.symm) (hkey' ▸ hkey) (hkey' ▸ hres)
        hinv.sold_le ?_
      rw [hcredit, hkey', hpayout]

/-- The mock deployment before a condition that pays one half to each side. -/
def mockEvenArgs : InitArgs :=
  { mockArgs with ctf := ⟨fun _ _ => 1, fun _ => 2, fun _ => 2⟩ }

def mockBet : List (Action (ZMod 101) Unit Unit) :=
  [.call ⟨7, 1⟩ (.authorizeBet ()
    ⟨mockRoot, (5 : ℕ), (8 : ℕ), 2000000, 50000000, 10, (11 : ℕ), 0, (12 : ℕ)⟩)]

/-- A bet on a condition that pays its first side has the settlement as its exit. -/
theorem resolved_bet_exits_first_side :
    BetExits (mockEnv []) (runActions (mockEnv []) (mockDeployed (mockEnv [])) mockBet) 5 11 :=
  resolved_bet_exits (mockDeployed_ok _) mockBet (by unfold Timed; decide +kernel) 5 11
    (by decide +kernel) (by decide +kernel) (by decide +kernel) (by decide +kernel)
    (by decide +kernel)

def revertReason {α : Type} : Except Revert α → Option Revert
  | .error e => some e
  | .ok _ => none

/-- A report of one half for each side leaves a bet with neither exit: `resolveMarket` refuses
the payouts, which round to zero, and the N/A credit refuses the numerators. -/
theorem no_exit_even_split :
    let E := mockEnv [⟨5, reportFilled, 0, 0⟩]
    let s := (runActions E (initializeV2 (initialState E mockEvenArgs)) mockBet).state
    ((s.betRecords 5).marketId = circuitKey 11 ∧ (s.betRecords 5).status = .active ∧
        (s.betRecords 5).soldShares = 0 ∧ s.ctf.payoutDenominator 11 = 2 ∧
        s.ctf.getOutcomeSlotCount 11 = 2 ∧ s.marketResolvedAt (circuitKey 11) = 0) ∧
      revertReason (exec E ⟨1, 2⟩ s (.resolveMarket 11)) = some .payoutRoundsToZero ∧
      revertReason (do
        let s ← exec E ⟨1, 2⟩ s (.registerCondition 11)
        exec E ⟨7, 3⟩ s (.naCancellationCredit () ⟨mockRoot, 6, 13, 5, 11⟩
          ⟨5, reportFilled, 0, 0⟩ ())) = some .notNA := by
  decide +kernel

end Polyshield

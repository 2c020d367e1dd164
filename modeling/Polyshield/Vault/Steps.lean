import Polyshield.Vault.Contract

/-!
# What a successful call has checked and changed

One lemma for each function of the Vault. The five functions that credit a bet
change the same parts of the storage, so their lemmas share `Credits`: the note
that is spent, the record and the fee entry of the bet, and the accumulator.
-/

namespace Polyshield

variable {F Proof Sig : Type} [Field F] [DecidableEq F] {E : Env F Proof Sig}

/-! ## Shared helpers -/

/-- `t'` is `t` with one more leaf, or `t` itself when the commitment is zero. -/
inductive Grows (E : Env F Proof Sig) (t : CommitmentMerkleTree F) :
    F → CommitmentMerkleTree F → Prop
  | none : Grows E t 0 t
  | leaf {c r : F} {t' : CommitmentMerkleTree F} (hc : c ≠ 0)
      (h : t.insert E.circomlib.poseidon2 rootWindow c = .ok (r, t')) : Grows E t c t'

omit [Field F] in
theorem insertLeaf_ok {s s' : VaultState F} {c : F} (h : insertLeaf E s c = .ok s') :
    ∃ r t', s.tree.insert E.circomlib.poseidon2 rootWindow c = .ok (r, t') ∧
      s' = { s with tree := t' } := by
  unfold insertLeaf at h
  split at h
  · cases h
  · cases h
    exact ⟨_, _, ‹_›, rfl⟩

omit [Field F] in
theorem spendNullifier_ok {s s' : VaultState F} {nullifier : F}
    (h : spendNullifier s nullifier = .ok s') :
    s.spent nullifier = false ∧
      s' = { s with spent := Function.update s.spent nullifier true } := by
  simp only [spendNullifier, Except.bind_eq_ok, Except.pure_eq_ok] at h
  obtain ⟨spent, hm, rfl⟩ := h
  obtain ⟨h1, rfl⟩ := markSpent_ok hm
  exact ⟨h1, rfl⟩

theorem spendAndInsert_ok {s s' : VaultState F} {nullifier c : F}
    (h : spendAndInsert E s nullifier c = .ok s') :
    s.spent nullifier = false ∧ ∃ t', Grows E s.tree c t' ∧
      s' = { s with spent := Function.update s.spent nullifier true, tree := t' } := by
  simp only [spendAndInsert, Except.bind_eq_ok] at h
  obtain ⟨s1, h1, h2⟩ := h
  obtain ⟨hs, rfl⟩ := spendNullifier_ok h1
  refine ⟨hs, ?_⟩
  split at h2
  · rename_i hc
    cases h2
    subst hc
    exact ⟨_, .none, rfl⟩
  · rename_i hc
    obtain ⟨r, t', ht, rfl⟩ := insertLeaf_ok h2
    exact ⟨t', .leaf hc ht, rfl⟩

/-- The operator attested the bet with a report of one of two types. -/
structure Attested (E : Env F Proof Sig) (s : VaultState F) (att : OperatorAttestation F)
    (sig : Sig) (nob : F) (primaryType altType : UInt8) : Prop where
  bound : att.nullifierOfBet = nob
  type : att.reportType = primaryType ∨ att.reportType = altType
  signer : E.recover att sig = some s.signingLayerOperator

omit [Field F] in
theorem checkAttestation_ok {s : VaultState F} {att : OperatorAttestation F} {sig : Sig} {nob : F}
    {primaryType altType : UInt8} {u : Unit}
    (h : checkAttestation E s att sig nob primaryType altType = .ok u) :
    Attested E s att sig nob primaryType altType := by
  simp only [checkAttestation, Except.bind_eq_ok, revertIf_eq_ok, exists_const] at h
  obtain ⟨h1, h2, h3⟩ := h
  refine ⟨not_not.mp h1, by tauto, ?_⟩
  split at h3
  · cases h3
  · rename_i signer hr
    rw [revertIf_eq_ok, not_not] at h3
    rw [hr, h3]

/-- What `requireOutcome` lets through. -/
def Outcome (E : Env F Proof Sig) (s : VaultState F) (nob : F) (settled : List BetStatus)
    (att : OperatorAttestation F) (sig : Sig) (primaryType altType : UInt8) : Prop :=
  (s.betRecords nob).status ∈ settled ∨
    ((s.betRecords nob).status = .active ∧ Attested E s att sig nob primaryType altType)

omit [Field F] in
theorem requireOutcome_ok {s : VaultState F} {nob : F} {settled : List BetStatus} {e : Revert}
    {att : OperatorAttestation F} {sig : Sig} {primaryType altType : UInt8} {u : Unit}
    (h : requireOutcome E s (s.betRecords nob) settled e att sig nob primaryType altType = .ok u) :
    Outcome E s nob settled att sig primaryType altType := by
  unfold requireOutcome at h
  split at h
  · exact .inl ‹_›
  · simp only [Except.bind_eq_ok, revertIf_eq_ok, exists_const, not_not] at h
    exact .inr ⟨h.1, checkAttestation_ok h.2⟩

omit [Field F] in
theorem releaseProtocolFee_ok {s s' : VaultState F} {nob : F}
    (h : releaseProtocolFee s nob = .ok s') :
    s' = { s with
      betProtocolFee := Function.update s.betProtocolFee nob 0
      feeAccumulator := s.feeAccumulator + (s.betProtocolFee nob).toNat } := by
  simp only [releaseProtocolFee] at h
  split at h
  · rename_i h0
    cases h
    have hu : Function.update s.betProtocolFee nob 0 = s.betProtocolFee := by
      rw [← h0, Function.update_eq_self]
    rw [hu, h0]
    simp
  · simp only [Except.bind_eq_ok, Except.pure_eq_ok] at h
    obtain ⟨acc, hacc, rfl⟩ := h
    rw [checkedAdd256_ok hacc]
    rfl

/-! ## The credits of a bet -/

/-- A credit spent the note of `i` and left the bet with a new record and fee entry. -/
structure Credits (E : Env F Proof Sig) (s s' : VaultState F) (i : BetCancelPublicInputs F)
    (record' : BetRecord F) (fee' : UInt64) (acc' : ℕ) (events : List (Event F)) : Prop where
  unpaused : s.paused = false
  unspent : s.spent i.nullifier = false
  known : s.tree.isKnownRoot i.merkleRoot = true
  found : (s.betRecords i.nullifierOfBet).marketId ≠ 0
  effect : ∃ t', Grows E s.tree i.newCommitment t' ∧
    s' = { s with
      tree := t'
      spent := Function.update s.spent i.nullifier true
      betRecords := Function.update s.betRecords i.nullifierOfBet record'
      betProtocolFee := Function.update s.betProtocolFee i.nullifierOfBet fee'
      feeAccumulator := acc'
      logs := s.logs ++ events }

def SettlementPublicInputs.core (i : SettlementPublicInputs F) : BetCancelPublicInputs F :=
  ⟨i.merkleRoot, i.nullifier, i.newCommitment, i.nullifierOfBet⟩

def NACancelPublicInputs.core (i : NACancelPublicInputs F) : BetCancelPublicInputs F :=
  ⟨i.merkleRoot, i.nullifier, i.newCommitment, i.nullifierOfBet⟩

section Credits

variable {s s' : VaultState F} {proof : Proof} {att : OperatorAttestation F} {sig : Sig}

/-- The fee entry and the accumulator after the provisional fee was released. -/
def released (s : VaultState F) (nob : F) : ℕ := s.feeAccumulator + (s.betProtocolFee nob).toNat

theorem creditSettlement_ok {inputs : SettlementPublicInputs F}
    (h : creditSettlement E s proof inputs att sig = .ok s') :
    Credits E s s' inputs.core
        { s.betRecords inputs.nullifierOfBet with status := .credited } 0
        (released s inputs.nullifierOfBet)
        [.settlementCredited inputs.nullifier inputs.nullifierOfBet inputs.newCommitment] ∧
      Outcome E s inputs.nullifierOfBet [.filled] att sig reportFilled reportFilled ∧
      (s.betRecords inputs.nullifierOfBet).marketId = inputs.marketId ∧
      s.marketResolvedAt inputs.marketId ≠ 0 ∧
      inputs.totalCredit.toNat
        = ((s.betRecords inputs.nullifierOfBet).expectedShares.toNat
            - (s.betRecords inputs.nullifierOfBet).soldShares.toNat)
          * (s.pendingCredit inputs.marketId
              (s.betRecords inputs.nullifierOfBet).outcomeSide).toNat ∧
      verifySettlement E proof inputs = true := by
  simp only [creditSettlement, VaultLogic.creditSettlement, whenNotPaused, requireUnspentKnownRoot,
    Except.bind_eq_ok, revertIf_eq_ok, Except.pure_eq_ok, exists_const, bind_assoc, not_not,
    Bool.not_eq_true, Bool.not_eq_false, exists_eq_left'] at h
  obtain ⟨hp, hs, hr, hf, hm, u, ho, hres, held, hheld, hcredit, hv, s1, hspend, hrel⟩ := h
  obtain ⟨-, t', ht, rfl⟩ := spendAndInsert_ok hspend
  refine ⟨⟨hp, hs, hr, hf, t', ht, releaseProtocolFee_ok hrel⟩, requireOutcome_ok ho, hm, hres, ?_,
    hv⟩
  rw [← hcredit]
  congr 1
  have := checkedSub_ok hheld
  omega

theorem betCancellationCredit_ok {inputs : BetCancelPublicInputs F}
    (h : betCancellationCredit E s proof inputs att sig = .ok s') :
    Credits E s s' inputs { s.betRecords inputs.nullifierOfBet with status := .cancelledCredited } 0
        s.feeAccumulator
        [.betCancellationCredited inputs.nullifier inputs.nullifierOfBet inputs.newCommitment] ∧
      Outcome E s inputs.nullifierOfBet [.failed] att sig reportFailed reportFailed ∧
      ∃ refund, refund.toNat = (s.betRecords inputs.nullifierOfBet).betAmount.toNat
          + (s.betProtocolFee inputs.nullifierOfBet).toNat ∧
        verifyBetCancel E proof inputs refund = true := by
  simp only [betCancellationCredit, VaultLogic.betCancellationCredit, whenNotPaused,
    requireUnspentKnownRoot, Except.bind_eq_ok, revertIf_eq_ok, Except.pure_eq_ok, exists_const,
    bind_assoc, Bool.not_eq_true, Bool.not_eq_false] at h
  obtain ⟨hp, hs, hr, hf, u, ho, refund, hrefund, hv, s1, hspend, rfl⟩ := h
  obtain ⟨-, t', ht, rfl⟩ := spendAndInsert_ok hspend
  exact ⟨⟨hp, hs, hr, hf, t', ht, rfl⟩, requireOutcome_ok ho, refund, checkedAdd_ok hrefund, hv⟩

theorem naCancellationCredit_ok {inputs : NACancelPublicInputs F}
    (h : naCancellationCredit E s proof inputs att sig = .ok s') :
    Credits E s s' inputs.core
        { s.betRecords inputs.nullifierOfBet with status := .cancelledCredited } 0
        (released s inputs.nullifierOfBet)
        [.naCancellationCredited inputs.nullifier inputs.nullifierOfBet inputs.newCommitment] ∧
      Outcome E s inputs.nullifierOfBet [.filled, .failed] att sig reportFilled reportFailed ∧
      (s.betRecords inputs.nullifierOfBet).soldShares = 0 ∧
      verifyNACancel E proof inputs (s.betRecords inputs.nullifierOfBet).betAmount = true := by
  simp only [naCancellationCredit, VaultLogic.naCancellationCredit, whenNotPaused,
    requireUnspentKnownRoot, Except.bind_eq_ok, revertIf_eq_ok, Except.pure_eq_ok, exists_const,
    bind_assoc, not_not, Bool.not_eq_true, Bool.not_eq_false, exists_eq_left'] at h
  obtain ⟨hp, hs, hr, hf, -, u, ho, hsold, -, -, -, hv, s1, hspend, hrel⟩ := h
  obtain ⟨-, t', ht, rfl⟩ := spendAndInsert_ok hspend
  refine ⟨⟨hp, hs, hr, hf, t', ht, releaseProtocolFee_ok hrel⟩, requireOutcome_ok ho, ?_, hv⟩
  rw [UInt64.not_lt] at hsold
  exact UInt64.le_zero_iff.mp hsold

def closedRecord (record : BetRecord F) (soldShares sellProceeds : UInt64) : BetRecord F :=
  { record with
    soldShares := soldShares
    sellProceeds := sellProceeds
    status := if soldShares = record.expectedShares then .closedCredited else .filled }

theorem closePosition_ok {inputs : ClosePublicInputs F}
    (h : closePosition E s proof inputs att sig = .ok s') :
    let record := s.betRecords inputs.nullifierOfBet
    ∃ deltaSold credit : UInt64,
      Credits E s s' inputs (closedRecord record att.amountA att.amountB)
        (if att.amountA = record.expectedShares then 0 else s.betProtocolFee inputs.nullifierOfBet)
        (if att.amountA = record.expectedShares then released s inputs.nullifierOfBet
          else s.feeAccumulator)
        [.betSold inputs.nullifierOfBet deltaSold credit,
          .positionClosed inputs.nullifier inputs.nullifierOfBet inputs.newCommitment
            (decide (att.amountA = record.expectedShares))] ∧
      (record.status = .active ∨ record.status = .filled) ∧
      Attested E s att sig inputs.nullifierOfBet reportSold reportSold ∧
      record.soldShares < att.amountA ∧ att.amountA ≤ record.expectedShares ∧
      record.sellProceeds ≤ att.amountB ∧ s.marketResolvedAt record.marketId = 0 ∧
      credit.toNat + record.sellProceeds.toNat = att.amountB.toNat ∧
      deltaSold.toNat + record.soldShares.toNat = att.amountA.toNat ∧
      verifyClose E proof inputs credit = true := by
  simp only [closePosition, VaultLogic.closePosition, whenNotPaused,
    requireUnspentKnownRoot, Except.bind_eq_ok, revertIf_eq_ok, exists_const,
    bind_assoc, pure_bind, not_not, not_or, not_and, Bool.not_eq_true, Bool.not_eq_false,
    UInt64.not_lt, UInt64.not_le] at h
  obtain ⟨hp, hs, hr, hf, hst, u, hatt, ⟨hlo, hhi⟩, hmono, hres, credit, hcredit, hv, s1, hspend,
    delta, hdelta, hrel⟩ := h
  obtain ⟨-, t', ht, rfl⟩ := spendAndInsert_ok hspend
  refine ⟨delta, credit, ⟨hp, hs, hr, hf, t', ht, ?_⟩, by tauto, checkAttestation_ok hatt, hlo, hhi,
    hmono, hres, checkedSub_ok hcredit, checkedSub_ok hdelta, hv⟩
  by_cases hfull : att.amountA = (s.betRecords inputs.nullifierOfBet).expectedShares
  · simp only [hfull, decide_true, ↓reduceIte] at hrel
    rw [releaseProtocolFee_ok hrel]
    simp [hfull, closedRecord, VaultState.emit, VaultState.setRecord, released]
  · simp only [hfull, decide_false, ↓reduceIte, Bool.false_eq_true] at hrel
    cases hrel
    simp [hfull, closedRecord, VaultState.emit, VaultState.setRecord]

def normalizedRecord (record : BetRecord F) (filledShares spentAmount : UInt64) : BetRecord F :=
  { record with
    expectedShares := filledShares
    betAmount := spentAmount
    status := .filled
    filledShares := 0
    spentAmount := 0 }

/-- The part of the protocol fee on the stake a partial fill left unexecuted. -/
def refundedFee (pf betAmount spentAmount : ℕ) : ℕ := pf * (betAmount - spentAmount) / betAmount

theorem refundedFee_le (pf betAmount spentAmount : ℕ) :
    refundedFee pf betAmount spentAmount ≤ pf := by
  refine Nat.div_le_of_le_mul ?_
  rw [Nat.mul_comm]
  exact Nat.mul_le_mul_right _ (Nat.sub_le _ _)

theorem partialFillCredit_ok {inputs : PartialFillPublicInputs F}
    (h : partialFillCredit E s proof inputs att sig = .ok s') :
    let record := s.betRecords inputs.nullifierOfBet
    let pf := (s.betProtocolFee inputs.nullifierOfBet).toNat
    let refunded := refundedFee pf record.betAmount.toNat att.amountB.toNat
    Credits E s s' inputs (normalizedRecord record att.amountA att.amountB) 0
        (s.feeAccumulator + (pf - refunded))
        [.partialFillCredited inputs.nullifier inputs.nullifierOfBet inputs.newCommitment] ∧
      record.status = .active ∧
      Attested E s att sig inputs.nullifierOfBet reportPartial reportPartial ∧
      0 < att.amountA.toNat ∧ att.amountA < record.expectedShares ∧
      0 < att.amountB.toNat ∧ att.amountB ≤ record.betAmount ∧
      ∃ refund : UInt64,
        refund.toNat = record.betAmount.toNat - att.amountB.toNat + refunded ∧
        verifyPartialCredit E proof inputs refund = true := by
  simp only [partialFillCredit, VaultLogic.partialFillCredit, whenNotPaused,
    requireUnspentKnownRoot, Except.bind_eq_ok, revertIf_eq_ok, Except.pure_eq_ok, exists_const,
    bind_assoc, pure_bind, not_not, not_or, Bool.not_eq_true, Bool.not_eq_false,
    UInt64.not_lt, UInt64.not_le] at h
  obtain ⟨hp, hs, hr, hf, hst, u, hatt, ⟨ha0, ha⟩, ⟨hb0, hb⟩, un, hun, refund, hrefund, earned,
    hearned, hv, s1, hspend, acc, hacc, rfl⟩ := h
  obtain ⟨-, t', ht, rfl⟩ := spendAndInsert_ok hspend
  have hle := refundedFee_le (s.betProtocolFee inputs.nullifierOfBet).toNat
    (s.betRecords inputs.nullifierOfBet).betAmount.toNat att.amountB.toNat
  have hun' := checkedSub_ok hun
  have hcast : (UInt64.ofNat ((s.betProtocolFee inputs.nullifierOfBet).toNat * un.toNat
        / (s.betRecords inputs.nullifierOfBet).betAmount.toNat)).toNat
      = refundedFee (s.betProtocolFee inputs.nullifierOfBet).toNat
          (s.betRecords inputs.nullifierOfBet).betAmount.toNat att.amountB.toNat := by
    have e : un.toNat
        = (s.betRecords inputs.nullifierOfBet).betAmount.toNat - att.amountB.toNat := by omega
    rw [e, ← refundedFee, UInt64.toNat_ofNat']
    refine Nat.mod_eq_of_lt ?_
    have := (s.betProtocolFee inputs.nullifierOfBet).toNat_lt
    omega
  have hearned' := checkedSub_ok hearned
  have hrefund' := checkedAdd_ok hrefund
  rw [hcast] at hearned' hrefund'
  refine ⟨⟨hp, hs, hr, hf, t', ht, ?_⟩, hst, checkAttestation_ok hatt, ?_, ha, ?_, hb, refund, ?_,
    hv⟩
  · rw [checkedAdd256_ok hacc]
    have e : earned.toNat = (s.betProtocolFee inputs.nullifierOfBet).toNat
        - refundedFee (s.betProtocolFee inputs.nullifierOfBet).toNat
          (s.betRecords inputs.nullifierOfBet).betAmount.toNat att.amountB.toNat := by omega
    rw [e]
    rfl
  · exact Nat.pos_of_ne_zero fun e => ha0 (UInt64.toNat_inj.mp e)
  · exact Nat.pos_of_ne_zero fun e => hb0 (UInt64.toNat_inj.mp e)
  · omega

end Credits

/-! ## The other functions -/

section Others

variable {s s' : VaultState F} {m : Msg} {proof : Proof}

theorem deposit_ok {commitment : F} {amount : ℕ}
    (h : deposit E m s proof commitment amount = .ok s') :
    verifyDeposit E proof commitment amount m.sender = true ∧ amount ≤ depositCap ∧
      ∃ r t' usdc', s.tree.insert E.circomlib.poseidon2 rootWindow commitment = .ok (r, t') ∧
        s' = { s with
          tree := t'
          usdc := usdc'
          cumulativeDeposits := Function.update s.cumulativeDeposits m.sender
            (s.cumulativeDeposits m.sender + amount)
          logs := s.logs ++ [.deposited m.sender commitment amount] } := by
  simp only [deposit, whenNotPaused, Except.bind_eq_ok, revertIf_eq_ok, Except.pure_eq_ok,
    exists_const, Bool.not_eq_false, Nat.not_lt] at h
  obtain ⟨-, cum, hcum, hcap, hv, usdc', -, s1, hins, rfl⟩ := h
  obtain ⟨r, t', ht, rfl⟩ := insertLeaf_ok hins
  have hcum' := checkedAdd256_ok hcum
  refine ⟨hv, by omega, r, t', usdc', ht, ?_⟩
  rw [hcum']
  rfl

/-- What `authorizeBet` leaves of the state, apart from the storage of deposits and markets. -/
theorem authorizeBet_ok {inputs : BetAuthPublicInputs F}
    (h : authorizeBet E m s proof inputs = .ok s') :
    s.spent inputs.nullifier = false ∧ s.tree.isKnownRoot inputs.merkleRoot = true ∧
      ∃ fee : UInt64, fee.toNat = (protocolFeeOf s.feeConfig inputs.betAmount).toNat
          + s.feeConfig.relayGasFeeUSDC.toNat ∧
        verifyBetAuth E proof inputs fee = true ∧
        ∃ t', Grows E s.tree inputs.newCommitment t' ∧
          s' = { s with
            tree := t'
            spent := Function.update s.spent inputs.nullifier true
            betRecords := Function.update s.betRecords inputs.nullifier inputs.record
            betProtocolFee := Function.update s.betProtocolFee inputs.nullifier
              (protocolFeeOf s.feeConfig inputs.betAmount)
            betCreatedAt := Function.update s.betCreatedAt inputs.nullifier
              (UInt64.ofNat m.timestamp)
            feeAccumulator := s.feeAccumulator + s.feeConfig.relayGasFeeUSDC.toNat
            logs := s.logs ++ [.betAuthorized inputs.nullifier inputs.marketId inputs.positionId
              inputs.expectedShares inputs.betAmount.toNat inputs.price inputs.outcomeSide
              inputs.newCommitment (protocolFeeOf s.feeConfig inputs.betAmount)
              s.feeConfig.relayGasFeeUSDC] } := by
  simp only [authorizeBet, whenNotPaused, requireUnspentKnownRoot, Except.bind_eq_ok,
    revertIf_eq_ok, Except.pure_eq_ok, exists_const, Bool.not_eq_true, Bool.not_eq_false] at h
  obtain ⟨-, ⟨hs, hr⟩, -, fee, hfee, hv, s1, hspend, acc, hacc, rfl⟩ := h
  obtain ⟨-, t', ht, rfl⟩ := spendAndInsert_ok hspend
  refine ⟨hs, hr, fee, checkedAdd_ok hfee, hv, t', ht, ?_⟩
  rw [checkedAdd256_ok hacc]
  rfl

theorem withdraw_ok {inputs : WithdrawalPublicInputs F} {recipientAddress : Address}
    (h : withdraw E s proof inputs recipientAddress = .ok s') :
    s.spent inputs.nullifier = false ∧ s.tree.isKnownRoot inputs.merkleRoot = true ∧
      verifyWithdrawal E proof inputs = true ∧
      s.feeConfig.withdrawalFeeUSDC.toNat ≤ inputs.withdrawalAmount.toNat ∧
      E.circomlib.poseidon2 (recipientAddress.toNat : F) 0 = inputs.recipientHash ∧
      ∃ t' usdc', Grows E s.tree inputs.newCommitment t' ∧
        s' = { s with
          tree := t'
          usdc := usdc'
          spent := Function.update s.spent inputs.nullifier true
          feeAccumulator := s.feeAccumulator + s.feeConfig.withdrawalFeeUSDC.toNat
          logs := s.logs ++ [.withdrawn inputs.nullifier recipientAddress
            inputs.withdrawalAmount.toNat inputs.newCommitment] } := by
  simp only [withdraw, whenNotPaused, requireUnspentKnownRoot, Except.bind_eq_ok,
    revertIf_eq_ok, Except.pure_eq_ok, exists_const, Bool.not_eq_true, Bool.not_eq_false,
    not_not] at h
  obtain ⟨-, ⟨hs, hr⟩, -, hv, hrec, -, s1, hspend, acc, hacc, payout, hpay, usdc', -, rfl⟩ := h
  obtain ⟨-, t', ht, rfl⟩ := spendAndInsert_ok hspend
  have hpay' := checkedSub256_ok hpay
  refine ⟨hs, hr, hv, by omega, hrec, t', usdc', ht, ?_⟩
  rw [checkedAdd256_ok hacc]
  rfl

/-- The nullifiers of the slots in the list get spent one after the other. -/
inductive SpendsSlots (nullifier : Fin 4 → F) : List (Fin 4) → (F → Bool) → (F → Bool) → Prop
  | nil (spent) : SpendsSlots nullifier [] spent spent
  | skip {j js spent spent'} (hj : nullifier j = 0) (h : SpendsSlots nullifier js spent spent') :
    SpendsSlots nullifier (j :: js) spent spent'
  | spend {j js spent spent'} (hj : nullifier j ≠ 0) (hs : spent (nullifier j) = false)
    (h : SpendsSlots nullifier js (Function.update spent (nullifier j) true) spent') :
    SpendsSlots nullifier (j :: js) spent spent'

theorem spendSlots_ok {nullifier : Fin 4 → F} {js : List (Fin 4)} {s s' : VaultState F}
    (h : VaultLogic.spendSlots nullifier js s = .ok s') :
    ∃ spent', SpendsSlots nullifier js s.spent spent' ∧ s' = { s with spent := spent' } := by
  induction js generalizing s with
  | nil =>
    cases h
    exact ⟨_, .nil _, rfl⟩
  | cons j js ih =>
    simp only [VaultLogic.spendSlots] at h
    split at h
    · obtain ⟨spent', hs', rfl⟩ := ih h
      exact ⟨_, .skip ‹_› hs', rfl⟩
    · rw [Except.bind_eq_ok] at h
      obtain ⟨s1, h1, h2⟩ := h
      obtain ⟨spent', hs', rfl⟩ := ih h2
      obtain ⟨hs, rfl⟩ := spendNullifier_ok h1
      exact ⟨_, .spend ‹_› hs hs', rfl⟩

theorem consolidate_ok {inputs : ConsolidatePublicInputs F}
    (h : consolidate E s proof inputs = .ok s') :
    s.tree.isKnownRoot inputs.merkleRoot = true ∧ inputs.nullifier 0 ≠ 0 ∧
      (∀ j, inputs.nullifier j ≠ 0 → s.spent (inputs.nullifier j) = false) ∧
      verifyConsolidate E proof inputs = true ∧
      ∃ spent' r t', SpendsSlots inputs.nullifier [0, 1, 2, 3] s.spent spent' ∧
        s.tree.insert E.circomlib.poseidon2 rootWindow inputs.newCommitment = .ok (r, t') ∧
        s' = { s with
          tree := t'
          spent := spent'
          logs := s.logs ++ [.consolidated inputs.nullifier inputs.newCommitment] } := by
  simp only [consolidate, VaultLogic.consolidate, whenNotPaused, Except.bind_eq_ok,
    revertIf_eq_ok, Except.pure_eq_ok, exists_const, Bool.not_eq_false, not_exists, not_and,
    Bool.not_eq_true] at h
  obtain ⟨-, hr, h0, hns, hv, s1, hsp, s2, hins, rfl⟩ := h
  obtain ⟨spent', hs', rfl⟩ := spendSlots_ok hsp
  obtain ⟨r, t', ht, rfl⟩ := insertLeaf_ok hins
  exact ⟨hr, h0, hns, hv, spent', r, t', hs', ht, rfl⟩

theorem adminCancelBet_ok {nullifierOfBet : F} (h : adminCancelBet m s nullifierOfBet = .ok s') :
    m.sender = s.owner ∧ (s.betRecords nullifierOfBet).marketId ≠ 0 ∧
      (s.betRecords nullifierOfBet).status = .active ∧
      s' = { s with
        betRecords := Function.update s.betRecords nullifierOfBet
          { s.betRecords nullifierOfBet with status := .failed }
        logs := s.logs ++ [.adminBetCancelled nullifierOfBet] } := by
  simp only [adminCancelBet, onlyOwner, Except.bind_eq_ok, revertIf_eq_ok, Except.pure_eq_ok,
    exists_const, not_not] at h
  obtain ⟨ho, hf, hst, at_, -, -, rfl⟩ := h
  exact ⟨ho, hf, hst, rfl⟩

omit [Field F] [DecidableEq F] in
theorem withdrawFees_ok {amount : ℕ} (h : withdrawFees E m s amount = .ok s') :
    amount ≤ s.feeAccumulator ∧ ∃ usdc',
      s' = { s with
        feeAccumulator := s.feeAccumulator - amount
        usdc := usdc'
        logs := s.logs ++ [.feesWithdrawn m.sender amount] } := by
  simp only [withdrawFees, Except.bind_eq_ok, revertIf_eq_ok, Except.pure_eq_ok, exists_const,
    Nat.not_lt] at h
  obtain ⟨-, hle, acc, hacc, usdc', -, rfl⟩ := h
  have hacc' := checkedSub256_ok hacc
  refine ⟨hle, usdc', ?_⟩
  rw [show s.feeAccumulator - amount = acc by omega]
  rfl

/-- A state with the same notes, bets and fees. -/
structure SameBooks (s s' : VaultState F) : Prop where
  tree : s'.tree = s.tree
  spent : s'.spent = s.spent
  betRecords : s'.betRecords = s.betRecords
  betProtocolFee : s'.betProtocolFee = s.betProtocolFee
  feeAccumulator : s'.feeAccumulator = s.feeAccumulator

/-- Calls that move neither notes, bets nor fees. -/
def Call.isAdministrative : Call F Proof Sig → Bool
  | .resolveMarket _ | .registerCondition _ | .setFeeParams _ | .setSigningLayerOperator _
  | .setDeploymentCap _ | .setAdminCancelTimelock _ | .pause | .unpause | .adminSweep _ _
  | .fundPolymarketWallet _ | .acknowledgePolymarketReturn _ => true
  | _ => false

theorem administrative_ok {c : Call F Proof Sig} (hc : c.isAdministrative = true)
    (h : exec E m s c = .ok s') : SameBooks s s' ∧ ∃ events, s'.logs = s.logs ++ events ∧
      ∀ e ∈ events, ∀ n m' p x b pr o c' pf rf, e ≠ .betAuthorized n m' p x b pr o c' pf rf := by
  cases c <;> simp only [Call.isAdministrative, Bool.false_eq_true] at hc <;>
    simp only [exec, resolveMarket, registerCondition, setFeeParams, setSigningLayerOperator,
      setDeploymentCap, setAdminCancelTimelock, pause, unpause, adminSweep, fundPolymarketWallet,
      acknowledgePolymarketReturn, onlyOwner, whenNotPaused, Except.bind_eq_ok, revertIf_eq_ok,
      Except.pure_eq_ok, exists_const] at h
  case resolveMarket =>
    obtain ⟨-, -, -, slots, -, -, -, rfl⟩ := h
    exact ⟨⟨rfl, rfl, rfl, rfl, rfl⟩, _, rfl, by simp⟩
  case registerCondition =>
    obtain ⟨-, rfl⟩ := h
    exact ⟨⟨rfl, rfl, rfl, rfl, rfl⟩, _, rfl, by simp⟩
  case setFeeParams =>
    obtain ⟨-, -, -, rfl⟩ := h
    exact ⟨⟨rfl, rfl, rfl, rfl, rfl⟩, _, rfl, by simp⟩
  case setSigningLayerOperator | setDeploymentCap =>
    obtain ⟨-, rfl⟩ := h
    exact ⟨⟨rfl, rfl, rfl, rfl, rfl⟩, [], by simp, by simp⟩
  case setAdminCancelTimelock | pause | unpause =>
    obtain ⟨-, -, rfl⟩ := h
    exact ⟨⟨rfl, rfl, rfl, rfl, rfl⟩, [], by simp, by simp⟩
  case adminSweep =>
    obtain ⟨-, -, usdc', -, rfl⟩ := h
    exact ⟨⟨rfl, rfl, rfl, rfl, rfl⟩, _, rfl, by simp⟩
  case fundPolymarketWallet =>
    obtain ⟨-, -, -, dep, -, -, usdc', -, rfl⟩ := h
    exact ⟨⟨rfl, rfl, rfl, rfl, rfl⟩, _, rfl, by simp⟩
  case acknowledgePolymarketReturn =>
    obtain ⟨-, -, dep, -, rfl⟩ := h
    exact ⟨⟨rfl, rfl, rfl, rfl, rfl⟩, _, rfl, by simp⟩

end Others

end Polyshield

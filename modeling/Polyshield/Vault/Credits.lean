import Polyshield.Vault.Exits

/-!
# The checks and the amount of a credit

Four entry points credit a bet to a note. Each first checks the state, then lets
its verifier check the proof for an amount of its own, and only then writes.
`injected` is the first part: it fails as the entry point does, or has the
amount the proof is verified for.
-/

namespace Polyshield

variable {F Proof Sig : Type} [Field F] [DecidableEq F] (E : Env F Proof Sig)

inductive CreditCall (F Sig : Type) where
  | settle (inputs : SettlementPublicInputs F) (att : OperatorAttestation F) (sig : Sig)
  | cancel (inputs : BetCancelPublicInputs F) (att : OperatorAttestation F) (sig : Sig)
  | close (inputs : ClosePublicInputs F) (att : OperatorAttestation F) (sig : Sig)
  | partialFill (inputs : PartialFillPublicInputs F) (att : OperatorAttestation F) (sig : Sig)

namespace CreditCall

def call (proof : Proof) : CreditCall F Sig → Call F Proof Sig
  | .settle inputs att sig => .creditSettlement proof inputs att sig
  | .cancel inputs att sig => .betCancellationCredit proof inputs att sig
  | .close inputs att sig => .closePosition proof inputs att sig
  | .partialFill inputs att sig => .partialFillCredit proof inputs att sig

def core : CreditCall F Sig → BetCancelPublicInputs F
  | .settle inputs _ _ => inputs.core
  | .cancel inputs _ _ | .close inputs _ _ | .partialFill inputs _ _ => inputs

/-- The proof is one for this amount. -/
def verify (proof : Proof) (credit : UInt64) : CreditCall F Sig → Bool
  | .settle inputs _ _ => verifySettlement E proof { inputs with totalCredit := credit }
  | .cancel inputs _ _ => verifyBetCancel E proof inputs credit
  | .close inputs _ _ => verifyClose E proof inputs credit
  | .partialFill inputs _ _ => verifyPartialCredit E proof inputs credit

/-- What is checked before the proof, and the amount the proof has to be for. -/
def injected (s : VaultState F) : CreditCall F Sig → Except Revert UInt64
  | .settle inputs att sig => do
    whenNotPaused s
    requireUnspentKnownRoot s inputs.nullifier inputs.merkleRoot
    let record := s.betRecords inputs.nullifierOfBet
    revertIf (record.marketId = 0) .betNotFound
    revertIf (record.marketId ≠ inputs.marketId) .wrongMarket
    requireOutcome E s record [.filled] .betNotFilled att sig inputs.nullifierOfBet
      reportFilled reportFilled
    revertIf (s.marketResolvedAt inputs.marketId = 0) .marketNotResolved
    let payoutPerShare := s.pendingCredit inputs.marketId record.outcomeSide
    let sharesHeld ← checkedSub record.expectedShares record.soldShares
    revertIf (sharesHeld.toNat * payoutPerShare.toNat ≠ inputs.totalCredit.toNat)
      .invalidTotalCredit
    return inputs.totalCredit
  | .cancel inputs att sig => do
    whenNotPaused s
    requireUnspentKnownRoot s inputs.nullifier inputs.merkleRoot
    let record := s.betRecords inputs.nullifierOfBet
    revertIf (record.marketId = 0) .betNotFound
    requireOutcome E s record [.failed] .betNotFailed att sig inputs.nullifierOfBet
      reportFailed reportFailed
    checkedAdd record.betAmount (s.betProtocolFee inputs.nullifierOfBet)
  | .close inputs att sig => do
    whenNotPaused s
    requireUnspentKnownRoot s inputs.nullifier inputs.merkleRoot
    let record := s.betRecords inputs.nullifierOfBet
    revertIf (record.marketId = 0) .betNotFound
    revertIf (record.status ≠ .active ∧ record.status ≠ .filled) .betNotClosing
    checkAttestation E s att sig inputs.nullifierOfBet reportSold reportSold
    revertIf (att.amountA ≤ record.soldShares ∨ record.expectedShares < att.amountA)
      .invalidSoldShares
    revertIf (att.amountB < record.sellProceeds) .nonMonotonicProceeds
    revertIf (s.marketResolvedAt record.marketId ≠ 0) .cannotCloseResolvedMarket
    checkedSub att.amountB record.sellProceeds
  | .partialFill inputs att sig => do
    whenNotPaused s
    requireUnspentKnownRoot s inputs.nullifier inputs.merkleRoot
    let record := s.betRecords inputs.nullifierOfBet
    revertIf (record.marketId = 0) .betNotFound
    revertIf (record.status ≠ .active) .betNotPartialFilled
    checkAttestation E s att sig inputs.nullifierOfBet reportPartial reportPartial
    revertIf (att.amountA = 0 ∨ record.expectedShares ≤ att.amountA) .invalidFilledShares
    revertIf (att.amountB = 0 ∨ record.betAmount < att.amountB) .invalidSpentAmount
    let pf := s.betProtocolFee inputs.nullifierOfBet
    let unexecuted ← checkedSub record.betAmount att.amountB
    let refundedPf := UInt64.ofNat (pf.toNat * unexecuted.toNat / record.betAmount.toNat)
    let refundAmount ← checkedAdd unexecuted refundedPf
    let _ ← checkedSub pf refundedPf
    return refundAmount

end CreditCall

section Injected

variable {E} {m : Msg} {s s' : VaultState F} {c : CreditCall F Sig} {proof : Proof}

/-- The tree takes another leaf and the accumulator the fee of the bet. -/
structure Room (s : VaultState F) (nob : F) : Prop where
  leaf : s.tree.nextIndex < 2 ^ treeDepth
  fee : s.feeAccumulator + (s.betProtocolFee nob).toNat < 2 ^ 256

theorem spendAndInsert_of_room {nob nullifier x : F} (h : Room s nob)
    (hspent : s.spent nullifier = false) :
    ∃ s1, spendAndInsert E s nullifier x = .ok s1 ∧ s1.feeAccumulator = s.feeAccumulator ∧
      s1.betProtocolFee = s.betProtocolFee := by
  have hspend : spendNullifier s nullifier
      = .ok { s with spent := Function.update s.spent nullifier true } := by
    simp [spendNullifier, markSpent, hspent, bind, Except.bind, pure, Except.pure]
  rw [spendAndInsert, hspend, ok_bind]
  by_cases hx : x = 0
  · exact ⟨_, if_pos hx, rfl, rfl⟩
  · rw [if_neg hx, insertLeaf, CommitmentMerkleTree.insert, if_neg (not_le.mpr h.leaf)]
    exact ⟨_, rfl, rfl, rfl⟩

omit [Field F] in
theorem releaseProtocolFee_of_lt {nob : F}
    (h : s.feeAccumulator + (s.betProtocolFee nob).toNat < 2 ^ 256) :
    ∃ s1, releaseProtocolFee s nob = .ok s1 := by
  by_cases hpf : s.betProtocolFee nob = 0
  · exact ⟨s, by simp [releaseProtocolFee, hpf]⟩
  · simp only [releaseProtocolFee, if_neg hpf, checkedAdd256, if_pos h]
    exact ⟨_, rfl⟩

theorem unspent_of_requireUnspentKnownRoot {nullifier root : F} {u : Unit}
    (h : requireUnspentKnownRoot s nullifier root = .ok u) : s.spent nullifier = false := by
  simp only [requireUnspentKnownRoot, Except.bind_eq_ok, revertIf_eq_ok, exists_const,
    Bool.not_eq_true] at h
  exact h.1

/-- With room left, a call that passes its checks with a proof for the amount succeeds. -/
theorem exec_of_injected {credit : UInt64} (h : c.injected E s = .ok credit)
    (hv : c.verify E proof credit = true) (hroom : Room s c.core.nullifierOfBet) :
    ∃ s', exec E m s (c.call proof) = .ok s' := by
  cases c with
  | settle inputs att sig =>
    simp only [CreditCall.injected, Except.bind_eq_ok, Except.pure_eq_ok] at h
    obtain ⟨u1, h1, u2, h2, u3, h3, u4, h4, u5, h5, u6, h6, held, h7, u8, h8, rfl⟩ := h
    obtain ⟨s1, hs1, hacc, hfee⟩ := spendAndInsert_of_room (E := E) (x := inputs.newCommitment)
      hroom (unspent_of_requireUnspentKnownRoot h2)
    have hv' : revertIf (verifySettlement E proof inputs = false) .invalidProof = .ok () := by
      rw [revertIf_eq_ok, Bool.not_eq_false]
      exact hv
    simp only [CreditCall.call, exec, creditSettlement, VaultLogic.creditSettlement,
      Except.bind_eq_ok, Except.pure_eq_ok, bind_assoc]
    have hrelease :
        s1.feeAccumulator + (s1.betProtocolFee inputs.nullifierOfBet).toNat < 2 ^ 256 := by
      rw [hacc, hfee]
      exact hroom.fee
    obtain ⟨s2, hs2⟩ := @releaseProtocolFee_of_lt _ _ ((s1.setRecord inputs.nullifierOfBet
      { s.betRecords inputs.nullifierOfBet with status := .credited }).emit
        (.settlementCredited inputs.nullifier inputs.nullifierOfBet inputs.newCommitment))
      inputs.nullifierOfBet hrelease
    exact ⟨s2, u1, h1, u2, h2, u3, h3, u4, h4, u5, h5, u6, h6, held, h7, u8, h8, _, hv', s1, hs1,
      _, rfl, hs2⟩
  | cancel inputs att sig =>
    simp only [CreditCall.injected, Except.bind_eq_ok] at h
    obtain ⟨u1, h1, u2, h2, u3, h3, u4, h4, h5⟩ := h
    obtain ⟨s1, hs1, -, -⟩ := spendAndInsert_of_room (E := E) (x := inputs.newCommitment) hroom
      (unspent_of_requireUnspentKnownRoot h2)
    have hv' : revertIf (verifyBetCancel E proof inputs credit = false) .invalidProof = .ok () := by
      rw [revertIf_eq_ok, Bool.not_eq_false]
      exact hv
    simp only [CreditCall.call, exec, betCancellationCredit, VaultLogic.betCancellationCredit,
      Except.bind_eq_ok, Except.pure_eq_ok]
    exact ⟨_, u1, h1, u2, h2, u3, h3, u4, h4, credit, h5, _, hv', s1, hs1, rfl⟩
  | close inputs att sig =>
    simp only [CreditCall.injected, Except.bind_eq_ok] at h
    obtain ⟨u1, h1, u2, h2, u3, h3, u4, h4, u5, h5, u6, h6, u7, h7, u8, h8, h9⟩ := h
    obtain ⟨s1, hs1, hacc, hfee⟩ := spendAndInsert_of_room (E := E) (x := inputs.newCommitment)
      hroom (unspent_of_requireUnspentKnownRoot h2)
    have hv' : revertIf (verifyClose E proof inputs credit = false) .invalidProof = .ok () := by
      rw [revertIf_eq_ok, Bool.not_eq_false]
      exact hv
    have hlo : (s.betRecords inputs.nullifierOfBet).soldShares ≤ att.amountA := by
      rw [revertIf_eq_ok, not_or, UInt64.not_le] at h6
      exact UInt64.le_of_lt h6.1
    have hdelta : checkedSub att.amountA (s.betRecords inputs.nullifierOfBet).soldShares
        = .ok (att.amountA - (s.betRecords inputs.nullifierOfBet).soldShares) :=
      if_pos (UInt64.le_iff_toNat_le.mp hlo)
    simp only [CreditCall.call, exec, closePosition, VaultLogic.closePosition,
      Except.bind_eq_ok, Except.pure_eq_ok, bind_assoc, h1, h2, h3, h4, h5, h6, h7, h8, h9, hv',
      hs1, hdelta, Except.ok.injEq, exists_const, exists_eq_left', true_and]
    split
    · refine releaseProtocolFee_of_lt ?_
      change s1.feeAccumulator + (s1.betProtocolFee _).toNat < _
      rw [hacc, hfee]
      exact hroom.fee
    · exact ⟨_, rfl⟩
  | partialFill inputs att sig =>
    simp only [CreditCall.injected, Except.bind_eq_ok, Except.pure_eq_ok] at h
    obtain ⟨u1, h1, u2, h2, u3, h3, u4, h4, u5, h5, u6, h6, u7, h7, un, h8, refund, h9, ea, h10,
      rfl⟩ := h
    obtain ⟨s1, hs1, hacc, hfee⟩ := spendAndInsert_of_room (E := E) (x := inputs.newCommitment)
      hroom (unspent_of_requireUnspentKnownRoot h2)
    have hv' : revertIf (verifyPartialCredit E proof inputs refund = false) .invalidProof
        = .ok () := by
      rw [revertIf_eq_ok, Bool.not_eq_false]
      exact hv
    have hearned : checkedAdd256 s1.feeAccumulator ea.toNat
        = .ok (s1.feeAccumulator + ea.toNat) := by
      refine if_pos ?_
      have := checkedSub_ok h10
      have := hroom.fee
      rw [hacc]
      simp only [CreditCall.core] at this
      omega
    simp only [CreditCall.call, exec, partialFillCredit, VaultLogic.partialFillCredit,
      Except.bind_eq_ok, Except.pure_eq_ok, bind_assoc]
    exact ⟨_, u1, h1, u2, h2, u3, h3, u4, h4, u5, h5, u6, h6, u7, h7, un, h8, refund, h9, ea, h10,
      _, hv', s1, hs1, _, rfl, _, hearned, rfl⟩

/-! ## What the checks ask -/

theorem checkedAdd_eq_ok {a b c : UInt64} :
    checkedAdd a b = .ok c ↔ c.toNat = a.toNat + b.toNat := by
  refine ⟨checkedAdd_ok, fun h => ?_⟩
  have hlt : a.toNat + b.toNat < 2 ^ 64 := h ▸ c.toNat_lt
  rw [checkedAdd, if_pos hlt, Except.ok.injEq]
  refine UInt64.toNat_inj.mp ?_
  rw [UInt64.toNat_add, Nat.mod_eq_of_lt hlt, h]

theorem checkedSub_eq_ok {a b c : UInt64} :
    checkedSub a b = .ok c ↔ c.toNat + b.toNat = a.toNat := by
  refine ⟨checkedSub_ok, fun h => ?_⟩
  have hle : b.toNat ≤ a.toNat := by omega
  rw [checkedSub, if_pos hle, Except.ok.injEq]
  refine UInt64.toNat_inj.mp ?_
  rw [UInt64.toNat_sub_of_le _ _ (UInt64.le_iff_toNat_le.mpr hle)]
  omega

omit [Field F] in
theorem checkAttestation_eq_ok_iff {att : OperatorAttestation F} {sig : Sig} {nob : F}
    {primaryType altType : UInt8} {u : Unit} :
    checkAttestation E s att sig nob primaryType altType = .ok u ↔
      Attested E s att sig nob primaryType altType :=
  ⟨checkAttestation_ok, fun h => checkAttestation_eq_ok h⟩

omit [Field F] in
theorem requireOutcome_eq_ok_iff {nob : F} {settled : List BetStatus} {e : Revert}
    {att : OperatorAttestation F} {sig : Sig} {primaryType altType : UInt8} {u : Unit} :
    requireOutcome E s (s.betRecords nob) settled e att sig nob primaryType altType = .ok u ↔
      Outcome E s nob settled att sig primaryType altType :=
  ⟨requireOutcome_ok, fun h => requireOutcome_eq_ok h⟩

/-- What every credit asks of the note and the bet it names. -/
structure Presentable (s : VaultState F) (i : BetCancelPublicInputs F) : Prop where
  unpaused : s.paused = false
  unspent : s.spent i.nullifier = false
  known : s.tree.isKnownRoot i.merkleRoot = true
  found : (s.betRecords i.nullifierOfBet).marketId ≠ 0

variable {att : OperatorAttestation F} {sig : Sig} {credit : UInt64}

theorem injected_settle_eq_ok {inputs : SettlementPublicInputs F} :
    (CreditCall.settle inputs att sig).injected E s = .ok credit ↔
      Presentable s inputs.core ∧ (s.betRecords inputs.nullifierOfBet).marketId = inputs.marketId ∧
      Outcome E s inputs.nullifierOfBet [.filled] att sig reportFilled reportFilled ∧
      s.marketResolvedAt inputs.marketId ≠ 0 ∧
      (∃ held : UInt64, held.toNat + (s.betRecords inputs.nullifierOfBet).soldShares.toNat
          = (s.betRecords inputs.nullifierOfBet).expectedShares.toNat ∧
        held.toNat * (s.pendingCredit inputs.marketId
          (s.betRecords inputs.nullifierOfBet).outcomeSide).toNat = inputs.totalCredit.toNat) ∧
      credit = inputs.totalCredit := by
  simp only [CreditCall.injected, whenNotPaused, requireUnspentKnownRoot, Except.bind_eq_ok,
    revertIf_eq_ok, exists_const, Except.pure_eq_ok, requireOutcome_eq_ok_iff, checkedSub_eq_ok,
    not_not, ne_eq, Bool.not_eq_true, Bool.not_eq_false]
  constructor
  · rintro ⟨h1, ⟨h2, h3⟩, h4, h5, h6, h7, held, h8, h9, h10⟩
    exact ⟨⟨h1, h2, h3, h4⟩, h5, h6, h7, ⟨held, h8, h9⟩, h10.symm⟩
  · rintro ⟨h, h5, h6, h7, ⟨held, h8, h9⟩, h10⟩
    exact ⟨h.unpaused, ⟨h.unspent, h.known⟩, h.found, h5, h6, h7, held, h8, h9, h10.symm⟩

theorem injected_cancel_eq_ok {inputs : BetCancelPublicInputs F} :
    (CreditCall.cancel inputs att sig).injected E s = .ok credit ↔
      Presentable s inputs ∧
      Outcome E s inputs.nullifierOfBet [.failed] att sig reportFailed reportFailed ∧
      credit.toNat = (s.betRecords inputs.nullifierOfBet).betAmount.toNat
        + (s.betProtocolFee inputs.nullifierOfBet).toNat := by
  simp only [CreditCall.injected, whenNotPaused, requireUnspentKnownRoot, Except.bind_eq_ok,
    revertIf_eq_ok, exists_const, requireOutcome_eq_ok_iff, checkedAdd_eq_ok, Bool.not_eq_true,
    Bool.not_eq_false]
  constructor
  · rintro ⟨h1, ⟨h2, h3⟩, h4, h5, h6⟩
    exact ⟨⟨h1, h2, h3, h4⟩, h5, h6⟩
  · rintro ⟨h, h5, h6⟩
    exact ⟨h.unpaused, ⟨h.unspent, h.known⟩, h.found, h5, h6⟩

theorem injected_close_eq_ok {inputs : ClosePublicInputs F} :
    (CreditCall.close inputs att sig).injected E s = .ok credit ↔
      Presentable s inputs ∧
      ((s.betRecords inputs.nullifierOfBet).status = .active ∨
        (s.betRecords inputs.nullifierOfBet).status = .filled) ∧
      Attested E s att sig inputs.nullifierOfBet reportSold reportSold ∧
      ((s.betRecords inputs.nullifierOfBet).soldShares < att.amountA ∧
        att.amountA ≤ (s.betRecords inputs.nullifierOfBet).expectedShares) ∧
      s.marketResolvedAt (s.betRecords inputs.nullifierOfBet).marketId = 0 ∧
      credit.toNat + (s.betRecords inputs.nullifierOfBet).sellProceeds.toNat
        = att.amountB.toNat := by
  simp only [CreditCall.injected, whenNotPaused, requireUnspentKnownRoot, Except.bind_eq_ok,
    revertIf_eq_ok, exists_const, checkAttestation_eq_ok_iff, checkedSub_eq_ok, Bool.not_eq_true,
    Bool.not_eq_false, not_not, not_or, not_and, UInt64.not_le, UInt64.not_lt, ne_eq]
  constructor
  · rintro ⟨h1, ⟨h2, h3⟩, h4, h5, h6, h7, -, h9, h10⟩
    exact ⟨⟨h1, h2, h3, h4⟩, by tauto, h6, h7, h9, h10⟩
  · rintro ⟨h, h5, h6, h7, h9, h10⟩
    refine ⟨h.unpaused, ⟨h.unspent, h.known⟩, h.found, by tauto, h6, h7, ?_, h9, h10⟩
    rw [UInt64.le_iff_toNat_le]
    omega

theorem injected_partialFill_eq_ok {inputs : PartialFillPublicInputs F} :
    (CreditCall.partialFill inputs att sig).injected E s = .ok credit ↔
      Presentable s inputs ∧ (s.betRecords inputs.nullifierOfBet).status = .active ∧
      Attested E s att sig inputs.nullifierOfBet reportPartial reportPartial ∧
      (att.amountA ≠ 0 ∧ att.amountA < (s.betRecords inputs.nullifierOfBet).expectedShares) ∧
      (att.amountB ≠ 0 ∧ att.amountB ≤ (s.betRecords inputs.nullifierOfBet).betAmount) ∧
      credit.toNat = (s.betRecords inputs.nullifierOfBet).betAmount.toNat - att.amountB.toNat
        + refundedFee (s.betProtocolFee inputs.nullifierOfBet).toNat
          (s.betRecords inputs.nullifierOfBet).betAmount.toNat att.amountB.toNat := by
  simp only [CreditCall.injected, whenNotPaused, requireUnspentKnownRoot, Except.bind_eq_ok,
    revertIf_eq_ok, exists_const, checkAttestation_eq_ok_iff, checkedSub_eq_ok, checkedAdd_eq_ok,
    Except.pure_eq_ok, Bool.not_eq_true, Bool.not_eq_false, not_not, not_or, UInt64.not_le,
    UInt64.not_lt, ne_eq]
  have hle := refundedFee_le (s.betProtocolFee inputs.nullifierOfBet).toNat
    (s.betRecords inputs.nullifierOfBet).betAmount.toNat att.amountB.toNat
  have hpf := (s.betProtocolFee inputs.nullifierOfBet).toNat_lt
  -- the fee's share fits, since it is at most the fee
  have hshare : ∀ un : UInt64,
      un.toNat + att.amountB.toNat = (s.betRecords inputs.nullifierOfBet).betAmount.toNat →
      (UInt64.ofNat ((s.betProtocolFee inputs.nullifierOfBet).toNat * un.toNat
        / (s.betRecords inputs.nullifierOfBet).betAmount.toNat)).toNat
        = refundedFee (s.betProtocolFee inputs.nullifierOfBet).toNat
          (s.betRecords inputs.nullifierOfBet).betAmount.toNat att.amountB.toNat := by
    intro un hun
    rw [show un.toNat = (s.betRecords inputs.nullifierOfBet).betAmount.toNat - att.amountB.toNat
      by omega, ← refundedFee, UInt64.toNat_ofNat', Nat.mod_eq_of_lt (by omega)]
  constructor
  · rintro ⟨h1, ⟨h2, h3⟩, h4, h5, h6, h7, h8, un, hun, refund, hrefund, earned, -, rfl⟩
    rw [hshare un hun] at hrefund
    exact ⟨⟨h1, h2, h3, h4⟩, h5, h6, h7, h8, by omega⟩
  · rintro ⟨h, h5, h6, h7, h8, hcredit⟩
    have hB := UInt64.le_iff_toNat_le.mp h8.2
    have hbet := (s.betRecords inputs.nullifierOfBet).betAmount.toNat_lt
    obtain ⟨un, hun⟩ : ∃ un : UInt64, un.toNat + att.amountB.toNat
        = (s.betRecords inputs.nullifierOfBet).betAmount.toNat :=
      ⟨(s.betRecords inputs.nullifierOfBet).betAmount - att.amountB, by
        rw [UInt64.toNat_sub_of_le _ _ h8.2]; omega⟩
    have hs := hshare un hun
    refine ⟨h.unpaused, ⟨h.unspent, h.known⟩, h.found, h5, h6, h7, h8, un, hun, credit, ?_, ?_⟩
    · rw [hs]; omega
    · refine ⟨s.betProtocolFee inputs.nullifierOfBet - UInt64.ofNat
        ((s.betProtocolFee inputs.nullifierOfBet).toNat * un.toNat
          / (s.betRecords inputs.nullifierOfBet).betAmount.toNat), ?_, rfl⟩
      rw [UInt64.toNat_sub_of_le _ _ (UInt64.le_iff_toNat_le.mpr (by omega))]
      omega

end Injected

/-! ## The statuses of a record -/

/-- A status that some call writes. -/
def BetStatus.Written (status : BetStatus) : Prop :=
  status ≠ .closing ∧ status ≠ .partialFilled ∧ status ≠ .resting

instance : DecidablePred BetStatus.Written := fun _ => inferInstanceAs (Decidable (_ ∧ _))

omit [DecidableEq F] in
theorem BetStep.written {b b' : Bet F} {e : BetEvent F} (h : BetStep b e b') :
    b'.record.status.Written := by
  cases h with
  | create hstatus => rw [hstatus]; decide
  | close => simp only [closedRecord]; split <;> decide
  | settle | cancel | naCancel | partialFill | adminCancel => simp only [normalizedRecord]; decide

theorem written_runActions {args : InitArgs} {s : VaultState F} (h : deploy E args = .ok s)
    (as : List (Action F Proof Sig)) (n : F) :
    ((runActions E s as).state.betRecords n).status.Written := by
  have hrun := (chainHistory_runActions h as).run n
  change ((runActions E s as).state.bet n).record.status.Written
  generalize betHistory n (runActions E s as).trace = hist at hrun
  generalize (runActions E s as).state.bet n = b at hrun
  cases hrun with
  | nil =>
    rw [show (Bet.unset : Bet F).record.status = .active from rfl]
    decide
  | step _ hs => exact hs.written

end Polyshield

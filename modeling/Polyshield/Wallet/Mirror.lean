import Polyshield.Wallet.Credits

/-!
# The credits mirror the Vault

A submitted credit is accepted when the amount its note grows by is the amount
the Vault injects. The client computes that amount from the receipt, the
attestation and the record, and each flow is right on some records: a settlement
when the side of the receipt pays what the recorded side pays, a close when no
proceeds were credited before, and so on.
-/

namespace Polyshield.Wallet

variable {F Proof Sig : Type} [Field F] {E : Env F Proof Sig}

/-! ## What is read and what is cached -/

/-- An attestation of the operator for the bet, within the bounds the Vault sets. -/
structure InBounds (E : Env F Proof Sig) (s : VaultState F) (bet : F)
    (a : SignedAttestation F Sig) : Prop where
  bound : a.att.nullifierOfBet = bet
  signer : E.recover a.att a.signature = some s.signingLayerOperator
  partialFill : a.att.reportType = reportPartial → (s.betRecords bet).status = .active →
    (a.att.amountA ≠ 0 ∧ a.att.amountA < (s.betRecords bet).expectedShares) ∧
      (a.att.amountB ≠ 0 ∧ a.att.amountB ≤ (s.betRecords bet).betAmount)
  sold : a.att.reportType = reportSold →
    (s.betRecords bet).soldShares ≤ a.att.amountA ∧
      a.att.amountA ≤ (s.betRecords bet).expectedShares ∧
      (s.betRecords bet).sellProceeds ≤ a.att.amountB

/-- The reads are of this state, and of attestations within the bounds. -/
structure Truthful [DecidableEq F] (E : Env F Proof Sig) (s : VaultState F) (r : Reads F Sig) :
    Prop where
  betRecord : ∀ bet record, r.betRecord bet = some record → record = s.betRecords bet
  betProtocolFee : ∀ bet fee, r.betProtocolFee bet = some fee → fee = s.betProtocolFee bet
  pendingCredit : ∀ key side v, r.pendingCredit key side = some v → v = s.pendingCredit key side
  marketResolvedAt : ∀ key v, r.marketResolvedAt key = some v → v = s.marketResolvedAt key
  attestation : ∀ bet type a, r.attestation bet type = some a → InBounds E s bet a
  merklePath : ∀ c m, r.merklePath c = some m → s.tree.isKnownRoot m.root = true

/-- A receipt of a bet that exists, as the bet flow or recovery writes it. -/
structure ReceiptFor (s : VaultState F) (receipt : Note F) : Prop where
  found : (s.betRecords receipt.bet).marketId ≠ 0
  condition : receipt.conditionId = some (s.betRecords receipt.bet).marketId
  origin :
    (∃ raw, receipt.rawConditionId = some raw ∧
      circuitKey raw = (s.betRecords receipt.bet).marketId ∧
      receipt.side.isSome ∧ outcomeSideOf receipt = (s.betRecords receipt.bet).outcomeSide) ∨
    (receipt.rawConditionId = none ∧
      receipt.marketId = some (.hex (s.betRecords receipt.bet).marketId) ∧ receipt.side = none)

theorem ReceiptFor.circuitKey_eq {s : VaultState F} {receipt : Note F} (h : ReceiptFor s receipt)
    (keccak : String → ℕ) :
    receiptCircuitKey keccak receipt = some (s.betRecords receipt.bet).marketId := by
  unfold receiptCircuitKey
  rcases h.origin with ⟨raw, hraw, hkey, -, -⟩ | ⟨hraw, hmarket, -⟩
  · rw [hraw, ← hkey]
  · rw [hraw, hmarket, ← h.condition]

/-- A proof that is generated verifies for the public inputs of its witness. -/
def HonestProver (E : Env F Proof Sig) (prove : CreditWitness F → Option Proof) : Prop :=
  ∀ w proof, prove w = some proof → E.verify w.type proof w.publicInputs = true

/-! ## The flows -/

inductive Flow (F Sig : Type) where
  | settle (receipt : Note F)
  | close (receipt : Note F)
  | partialFill (receipt : Note F)
  | reclaim (receipt : Note F) (polls : List (Reads F Sig))

namespace Flow

def receipt : Flow F Sig → Note F
  | .settle receipt | .close receipt | .partialFill receipt | .reclaim receipt _ => receipt

def polls : Flow F Sig → List (Reads F Sig)
  | .reclaim _ polls => polls
  | _ => []

def run (C : Circomlib F) (keccak : String → ℕ) (ses : Session F Proof Sig) :
    Flow F Sig → CreditOutcome F Proof Sig
  | .settle receipt =>
    match readyToSettle keccak ses.reads receipt with
    | some bet => settlePosition C ses bet
    | none => .idle .notOpen
  | .close receipt => finalizeClose C ses receipt
  | .partialFill receipt => finalizePartialFill C ses receipt
  | .reclaim receipt polls => reclaimBet C ses polls receipt

end Flow

/-- The Vault's checks pass, the new note has the old balance and the credit of the Vault, and the
proof verifies. -/
def Mirrored [DecidableEq F] (E : Env F Proof Sig) (s : VaultState F) (owner : Address)
    (sub : Submission F Proof Sig) : Prop :=
  ∃ credit : UInt64, sub.call.injected E s = .ok credit ∧
    sub.newBalance = sub.note.balance + credit.toNat ∧
    sub.call.core.newCommitment = computeCommitment E.circomlib sub.secret
      (sub.note.balance + credit.toNat) (sub.note.nonce + 1) owner ∧
    sub.call.verify E sub.proof credit = true

/-- What the call would credit has been credited. -/
def Taken (s : VaultState F) (receipt : Note F) : CreditCall F Sig → Prop
  | .settle _ _ _ | .cancel _ _ _ => (s.betRecords receipt.bet).status.Terminal
  | .close _ att _ => (s.betRecords receipt.bet).status.Terminal ∨
    att.amountA ≤ (s.betRecords receipt.bet).soldShares
  | .partialFill _ _ _ => (s.betRecords receipt.bet).status.Terminal ∨
    (s.betRecords receipt.bet).status = .filled

/-- The records on which an entry point accepts the amount the client computes for it. -/
def AmountRight (s : VaultState F) (receipt : Note F) : CreditCall F Sig → Prop
  | .settle _ _ _ =>
    s.pendingCredit (s.betRecords receipt.bet).marketId (outcomeSideOf receipt)
      = s.pendingCredit (s.betRecords receipt.bet).marketId (s.betRecords receipt.bet).outcomeSide
  | .close _ att _ =>
    ((s.betRecords receipt.bet).status = .active ∨ (s.betRecords receipt.bet).status = .filled) ∧
      (s.betRecords receipt.bet).soldShares < att.amountA ∧
      (s.betRecords receipt.bet).sellProceeds = 0 ∧
      s.marketResolvedAt (s.betRecords receipt.bet).marketId = 0
  | .partialFill _ att _ =>
    (s.betRecords receipt.bet).betAmount.toNat - att.amountB.toNat
      + refundedFee (s.betProtocolFee receipt.bet).toNat
        (s.betRecords receipt.bet).betAmount.toNat att.amountB.toNat < 2 ^ 64
  | .cancel _ _ _ =>
    (s.betRecords receipt.bet).status ≠ .filled ∧
      (s.betRecords receipt.bet).betAmount.toNat + (s.betProtocolFee receipt.bet).toNat < 2 ^ 64

/-! ## What a flow submits -/

/-- The note, the amount and the proof of a submission. -/
structure Submits (C : Circomlib F) (ses : Session F Proof Sig) (receipt : Note F)
    (type : ProofType) (marketId : Option F) (credit : ℤ) (sub : Submission F Proof Sig) :
    Prop where
  note : getFreeNoteForDeposit ses.cache ses.address receipt.depositIndex = some sub.note
  newBalance : sub.newBalance = sub.note.balance + credit
  newCommitment : sub.call.core.newCommitment
    = computeCommitment C sub.secret (sub.note.balance + credit) (sub.note.nonce + 1) ses.address
  nullifier : sub.call.core.nullifier = sub.note.nullifier
  bet : sub.call.core.nullifierOfBet = receipt.bet
  merkle : ∃ m, ses.reads.merklePath sub.note.commitment = some m ∧
    sub.call.core.merkleRoot = m.root
  proof : ∃ w : CreditWitness F, ses.prove w = some sub.proof ∧ w.type = type ∧
    w.publicInputs = [sub.call.core.merkleRoot, sub.call.core.nullifier,
      sub.call.core.newCommitment, sub.call.core.nullifierOfBet] ++ marketId.toList
        ++ [(credit : F)]

section Submissions

variable {C : Circomlib F} {ses : Session F Proof Sig} {receipt note : Note F}
  {sub : Submission F Proof Sig}

theorem Submits.of_prepared {type : ProofType} {marketId : Option F} {credit : ℤ}
    {p : Prepared F Proof} (hp : prepareCredit C ses type note receipt marketId credit = some p)
    (hnote : getFreeNoteForDeposit ses.cache ses.address receipt.depositIndex = some note)
    {call : CreditCall F Sig} (hcore : call.core = p.inputs note receipt) (retires : Bool) :
    Submits C ses receipt type marketId credit
      ⟨call, p.proof, note, p.secret, p.newBalance, retires⟩ := by
  simp only [prepareCredit, Option.bind_eq_bind, Option.bind_eq_some_iff, Option.pure_def,
    Option.some.injEq] at hp
  obtain ⟨merkle, hm, proof, hproof, rfl⟩ := hp
  constructor
  · exact hnote
  · rfl
  · exact congrArg BetCancelPublicInputs.newCommitment hcore
  · exact congrArg BetCancelPublicInputs.nullifier hcore
  · exact congrArg BetCancelPublicInputs.nullifierOfBet hcore
  · exact ⟨merkle, hm, congrArg BetCancelPublicInputs.merkleRoot hcore⟩
  · refine ⟨_, hproof, rfl, ?_⟩
    simp only [hcore]
    rfl

/-- The refund of a partial fill is the Vault's; the case that nothing is left is no exception. -/
theorem refundAmount_eq (betAmount spentAmount fee : ℕ) :
    (if 0 < betAmount - spentAmount ∧ 0 < betAmount then
      betAmount - spentAmount + fee * (betAmount - spentAmount) / betAmount else 0)
      = betAmount - spentAmount + refundedFee fee betAmount spentAmount := by
  unfold refundedFee
  split
  · rfl
  next h =>
    have hzero : betAmount - spentAmount = 0 := by omega
    rw [hzero, Nat.mul_zero, Nat.zero_div]

theorem settlePosition_submit {bet : ReadyToSettleBet F}
    (h : settlePosition C ses bet = .submit sub) :
    ∃ (inputs : SettlementPublicInputs F) (record : BetRecord F),
      Submits C ses bet.receipt .settlementCredit (some (bet.receipt.conditionId.getD 0))
        bet.claimAmount sub ∧
      ses.reads.betRecord bet.receipt.bet = some record ∧
      uint64? bet.claimAmount = some inputs.totalCredit ∧
      inputs.marketId = bet.receipt.conditionId.getD 0 ∧
      sub.call = .settle inputs
        ((ses.reads.attestation bet.receipt.bet none).getD ses.noAttestation).att
        ((ses.reads.attestation bet.receipt.bet none).getD ses.noAttestation).signature := by
  unfold settlePosition at h
  split at h
  · cases h
  next record hrec =>
    split at h
    · cases h
    split at h
    · cases h
    next note hnote =>
      simp only at h
      split at h
      next p totalCredit hp hu =>
        cases h
        exact ⟨_, record, .of_prepared hp hnote rfl _, hrec, hu, rfl, rfl⟩
      · cases h

theorem finalizeClose_submit (h : finalizeClose C ses receipt = .submit sub) :
    ∃ (inputs : ClosePublicInputs F) (record : BetRecord F) (a : SignedAttestation F Sig),
      Submits C ses receipt .positionClose none a.att.amountB.toNat sub ∧
      ses.reads.betRecord receipt.bet = some record ∧
      ses.reads.attestation receipt.bet (some reportSold) = some a ∧
      a.att.reportType = reportSold ∧ sub.call = .close inputs a.att a.signature ∧
      sub.retires = decide (record.expectedShares ≤ a.att.amountA) := by
  unfold finalizeClose at h
  split at h
  · cases h
  next record hrec =>
    split at h
    · cases h
    split at h
    · cases h
    next a ha =>
      split at h
      · cases h
      next htype =>
        split at h
        · cases h
        next note hnote =>
          simp only at h
          split at h
          next p hp =>
            cases h
            exact ⟨_, record, a, .of_prepared hp hnote rfl _, hrec, ha, not_not.mp htype, rfl, rfl⟩
          · cases h

theorem finalizePartialFill_submit (h : finalizePartialFill C ses receipt = .submit sub) :
    ∃ (inputs : PartialFillPublicInputs F) (record : BetRecord F) (fee : UInt64)
        (a : SignedAttestation F Sig),
      Submits C ses receipt .partialCredit none
        ((record.betAmount.toNat - a.att.amountB.toNat
          + refundedFee fee.toNat record.betAmount.toNat a.att.amountB.toNat : ℕ) : ℤ) sub ∧
      ses.reads.betRecord receipt.bet = some record ∧ record.status = .active ∧
      ses.reads.betProtocolFee receipt.bet = some fee ∧
      ses.reads.attestation receipt.bet none = some a ∧
      a.att.reportType = reportPartial ∧ sub.call = .partialFill inputs a.att a.signature ∧
      sub.retires = false := by
  unfold finalizePartialFill at h
  split at h
  · cases h
  next a ha =>
    split at h
    · cases h
    next htype =>
      split at h
      · cases h
      next record hrec =>
        split at h
        · cases h
        next hst =>
          split at h
          · cases h
          · cases h
          next note fee hnote hfee =>
            simp only at h
            split at h
            next p hp =>
              cases h
              rw [refundAmount_eq] at hp
              exact ⟨_, record, fee, a, .of_prepared hp hnote rfl _, hrec, not_not.mp hst, hfee, ha,
                not_not.mp htype, rfl, rfl⟩
            · cases h

theorem creditFailedReclaim_submit {a : SignedAttestation F Sig}
    (h : creditFailedReclaim C ses receipt a = .submit sub) :
    ∃ (inputs : BetCancelPublicInputs F) (record : BetRecord F) (fee : UInt64),
      Submits C ses receipt .betCancel none
        ((record.betAmount.toNat + fee.toNat : ℕ) : ℤ) sub ∧
      ses.reads.betRecord receipt.bet = some record ∧
      ses.reads.betProtocolFee receipt.bet = some fee ∧
      sub.call = .cancel inputs a.att a.signature := by
  unfold creditFailedReclaim at h
  split at h
  · cases h
  · cases h
  next note record hnote hrec =>
    split at h
    · cases h
    split at h
    · cases h
    next fee hfee =>
      simp only at h
      split at h
      next p hp =>
        cases h
        exact ⟨_, record, fee, .of_prepared hp hnote rfl _, hrec, hfee, rfl⟩
      · cases h

theorem tryCreditFromAttestation_submit
    (h : tryCreditFromAttestation C ses receipt = some (.submit sub)) :
    (∃ a, ses.reads.attestation receipt.bet none = some a ∧ a.att.reportType = reportFailed ∧
      creditFailedReclaim C ses receipt a = .submit sub) ∨
    finalizePartialFill C ses receipt = .submit sub := by
  unfold tryCreditFromAttestation at h
  split at h
  · cases h
  next a ha =>
    split at h
    next hfailed => exact .inl ⟨a, ha, hfailed, Option.some.inj h⟩
    · split at h
      · exact .inr (Option.some.inj h)
      · cases h

/-- A reclaim submits what one of its attempts does, for a bet that was not credited. -/
theorem reclaimBet_submit {polls : List (Reads F Sig)}
    (h : reclaimBet C ses polls receipt = .submit sub) :
    ∃ record reads, ses.reads.betRecord receipt.bet = some record ∧
      (record.status ≠ .cancelledCredited ∧ record.status ≠ .credited ∧
        record.status ≠ .closedCredited) ∧
      reads ∈ ses.reads :: polls ∧
      tryCreditFromAttestation C { ses with reads } receipt = some (.submit sub) := by
  unfold reclaimBet at h
  split at h
  · cases h
  next record hrec =>
    split at h
    · cases h
    next hst =>
      rcases hfind : (ses.reads :: polls.take 6).findSome? fun reads =>
        tryCreditFromAttestation C { ses with reads } receipt with _ | outcome
      · rw [hfind] at h
        cases h
      · rw [hfind, Option.getD_some] at h
        subst h
        obtain ⟨reads, hmem, hsome⟩ := List.exists_of_findSome?_eq_some hfind
        refine ⟨record, reads, hrec, by tauto, ?_, hsome⟩
        rcases List.mem_cons.mp hmem with rfl | hmem
        · exact List.mem_cons_self
        · exact List.mem_cons_of_mem _ (List.mem_of_mem_take hmem)

/-- What a receipt that is ready or lost was found to be. -/
structure Settleable (keccak : String → ℕ) (r : Reads F Sig) (receipt : Note F) (key : F)
    (record : BetRecord F) (payoutPerShare : UInt64) : Prop where
  circuitKey : receiptCircuitKey keccak receipt = some key
  filled : betDidFill r receipt.bet = true
  found : r.betRecord receipt.bet = some record
  status : record.status = .filled ∨ record.status = .partialFilled ∨ record.status = .active
  unsold : record.soldShares.toNat < record.expectedShares.toNat
  payout : r.pendingCredit key (outcomeSideOf receipt) = some payoutPerShare

theorem checkSettlementStatus_cases (keccak : String → ℕ) (r : Reads F Sig) (receipt : Note F) :
    checkSettlementStatus keccak r receipt = .pending ∨
    checkSettlementStatus keccak r receipt = .unfilledResolved ∨
    ∃ key record payoutPerShare, Settleable keccak r receipt key record payoutPerShare ∧
      (0 < payoutPerShare.toNat ∧ checkSettlementStatus keccak r receipt
          = .ready payoutPerShare.toNat
            ((record.expectedShares.toNat - record.soldShares.toNat) * payoutPerShare.toNat) ∨
        payoutPerShare.toNat = 0 ∧ checkSettlementStatus keccak r receipt = .lost ∧
          ∃ v, r.marketResolvedAt key = some v ∧ 0 < v.toNat) := by
  generalize hstatus : checkSettlementStatus keccak r receipt = status
  unfold checkSettlementStatus at hstatus
  split at hstatus
  · exact .inl hstatus.symm
  split at hstatus
  · exact .inl hstatus.symm
  next key hkey =>
    split at hstatus
    · split at hstatus
      · split at hstatus
        · exact .inr (.inl hstatus.symm)
        · exact .inl hstatus.symm
      · exact .inl hstatus.symm
    next hfill =>
      split at hstatus
      · exact .inl hstatus.symm
      next record hrec =>
        split at hstatus
        · exact .inl hstatus.symm
        next hst =>
          simp only at hstatus
          split at hstatus
          · exact .inl hstatus.symm
          next hleft =>
            split at hstatus
            · exact .inl hstatus.symm
            next v hv =>
              have hs : Settleable keccak r receipt key record v :=
                ⟨hkey, by simpa using hfill, hrec, by tauto, by omega, hv⟩
              split at hstatus
              next hpos => exact .inr (.inr ⟨key, record, v, hs, .inl ⟨hpos, hstatus.symm⟩⟩)
              next hzero =>
                split at hstatus
                next v' hv' =>
                  split at hstatus
                  next hpos =>
                    exact .inr (.inr ⟨key, record, v, hs,
                      .inr ⟨by omega, hstatus.symm, v', hv', hpos⟩⟩)
                  · exact .inl hstatus.symm
                · exact .inl hstatus.symm

theorem readyToSettle_some {keccak : String → ℕ} {r : Reads F Sig} {bet : ReadyToSettleBet F}
    (h : readyToSettle keccak r receipt = some bet) :
    bet.receipt = receipt ∧ ∃ key record payoutPerShare,
      Settleable keccak r receipt key record payoutPerShare ∧
      bet.claimAmount
        = (record.expectedShares.toNat - record.soldShares.toNat) * payoutPerShare.toNat ∧
      (0 < payoutPerShare.toNat ∨ ∃ v, r.marketResolvedAt key = some v ∧ 0 < v.toNat) := by
  unfold readyToSettle at h
  rcases checkSettlementStatus_cases keccak r receipt with hs | hs | ⟨key, record, v, hset, hs⟩
  · rw [hs] at h
    cases h
  · rw [hs] at h
    cases h
  · rcases hs with ⟨hpos, hs⟩ | ⟨hzero, hs, hres⟩
    · rw [hs] at h
      cases h
      exact ⟨rfl, key, record, v, hset, rfl, .inl hpos⟩
    · rw [hs] at h
      cases h
      exact ⟨rfl, key, record, v, hset, by rw [hzero, Nat.mul_zero], .inr hres⟩

end Submissions

/-! ## The amounts -/

section Amounts

variable [DecidableEq F] {s : VaultState F} {ses : Session F Proof Sig} {receipt : Note F}
  {sub : Submission F Proof Sig}

/-- With a proof for the client's amount, the credit mirrors when the Vault injects that amount. -/
theorem Submits.mirrored_iff {type : ProofType} {marketId : Option F} {amount : ℕ}
    (h : Submits E.circomlib ses receipt type marketId amount sub)
    (hP : HonestProver E ses.prove)
    (hcall : ∀ credit, sub.call.verify E sub.proof credit
      = E.verify type sub.proof ([sub.call.core.merkleRoot, sub.call.core.nullifier,
        sub.call.core.newCommitment, sub.call.core.nullifierOfBet] ++ marketId.toList
          ++ [u64 credit])) :
    Mirrored E s ses.address sub ↔
      ∃ credit, sub.call.injected E s = .ok credit ∧ credit.toNat = amount := by
  constructor
  · rintro ⟨credit, hi, hb, -, -⟩
    have heq := h.newBalance.symm.trans hb
    exact ⟨credit, hi, by omega⟩
  · rintro ⟨credit, hi, rfl⟩
    obtain ⟨w, hw, htype, hinputs⟩ := h.proof
    have hv := hP w _ hw
    rw [htype, hinputs, Int.cast_natCast] at hv
    exact ⟨credit, hi, h.newBalance, h.newCommitment, (hcall credit).trans hv⟩

/-- The note of a submission is accepted while it is unspent and the Vault runs. -/
theorem Submits.presentable_iff {type : ProofType} {marketId : Option F} {credit : ℤ}
    (h : Submits E.circomlib ses receipt type marketId credit sub)
    (hT : Truthful E s ses.reads) (hR : ReceiptFor s receipt) :
    Presentable s sub.call.core ↔ s.paused = false ∧ s.spent sub.note.nullifier = false := by
  obtain ⟨m, hm, hroot⟩ := h.merkle
  rw [← h.nullifier]
  refine ⟨fun hp => ⟨hp.unpaused, hp.unspent⟩, fun hp => ⟨hp.1, hp.2, ?_, ?_⟩⟩
  · rw [hroot]
    exact hT.merklePath _ _ hm
  · rw [h.bet]
    exact hR.found

theorem exists_toNat_eq {n : ℕ} (h : n < 2 ^ 64) : ∃ v : UInt64, v.toNat = n :=
  ⟨UInt64.ofNat n, by rw [UInt64.toNat_ofNat', Nat.mod_eq_of_lt h]⟩

theorem toNat_of_uint64? {n : ℕ} {v : UInt64} (h : uint64? n = some v) : v.toNat = n := by
  unfold uint64? at h
  split at h
  next hlt =>
    cases h
    rw [UInt64.toNat_ofNat', Nat.mod_eq_of_lt hlt]
  · cases h

theorem Settleable.outcome {keccak : String → ℕ} {v : UInt64} {key : F}
    (h : Settleable keccak ses.reads receipt key (s.betRecords receipt.bet) v)
    (hT : Truthful E s ses.reads) (hwritten : (s.betRecords receipt.bet).status.Written) :
    Outcome E s receipt.bet [.filled]
      ((ses.reads.attestation receipt.bet none).getD ses.noAttestation).att
      ((ses.reads.attestation receipt.bet none).getD ses.noAttestation).signature
      reportFilled reportFilled := by
  rcases h.status with hst | hst | hst
  · exact .inl (List.mem_singleton.mpr hst)
  · exact absurd hst hwritten.2.1
  · have hfill := h.filled
    rw [betDidFill, h.found] at hfill
    simp only [hst, reduceCtorEq, decide_false, Bool.false_or, Option.any_eq_true,
      decide_eq_true_eq] at hfill
    obtain ⟨a, ha, htype⟩ := hfill
    have hb := hT.attestation _ _ _ ha
    rw [ha, Option.getD_some]
    exact .inr ⟨hst, hb.bound, .inl htype, hb.signer⟩

theorem settle_mirrored_iff {keccak : String → ℕ} {bet : ReadyToSettleBet F}
    (hT : Truthful E s ses.reads) (hP : HonestProver E ses.prove) (hR : ReceiptFor s receipt)
    (hwritten : (s.betRecords receipt.bet).status.Written)
    (hpay : ∀ key, s.marketResolvedAt key = 0 → s.pendingCredit key = fun _ => 0)
    (hbet : readyToSettle keccak ses.reads receipt = some bet)
    (h : settlePosition E.circomlib ses bet = .submit sub) :
    Mirrored E s ses.address sub ↔
      (s.paused = false ∧ s.spent sub.note.nullifier = false) ∧ AmountRight s receipt sub.call := by
  obtain ⟨hrec, key, record, v, hset, hclaim, hres⟩ := readyToSettle_some hbet
  obtain ⟨inputs, record', hS, hrec', hu, hmarket, hcall⟩ := settlePosition_submit h
  rw [hrec] at hS hrec' hmarket hcall
  have hkey : key = (s.betRecords receipt.bet).marketId := by
    have := hset.circuitKey
    rw [hR.circuitKey_eq] at this
    exact (Option.some.inj this).symm
  subst hkey
  have hmarket' : inputs.marketId = (s.betRecords receipt.bet).marketId := by
    rw [hmarket, hR.condition]
    rfl
  obtain rfl := hT.betRecord _ _ hset.found
  obtain rfl := hT.pendingCredit _ _ _ hset.payout
  have hcredit := toNat_of_uint64? hu
  have hcore : sub.call.core = inputs.core := by rw [hcall]; rfl
  have hbetId : inputs.nullifierOfBet = receipt.bet := by rw [← hS.bet, hcore]; rfl
  have hunsold := hset.unsold
  rw [← hmarket] at hS
  rw [hS.mirrored_iff hP fun _ => by rw [hcall]; rfl, ← hS.presentable_iff hT hR, hcall]
  simp only [injected_settle_eq_ok, AmountRight, hbetId, hmarket', CreditCall.core]
  constructor
  · rintro ⟨credit, ⟨hpres, -, -, -, ⟨held, hheld, htotal⟩, rfl⟩, -⟩
    refine ⟨hpres, UInt64.toNat_inj.mp ?_⟩
    have hheld' : held.toNat = (s.betRecords receipt.bet).expectedShares.toNat
        - (s.betRecords receipt.bet).soldShares.toNat := by omega
    rw [hcredit, hclaim, hheld'] at htotal
    exact (Nat.eq_of_mul_eq_mul_left (by omega) htotal).symm
  · rintro ⟨hpres, hright⟩
    refine ⟨inputs.totalCredit, ⟨hpres, trivial, hset.outcome hT hwritten, ?_, ?_, rfl⟩, hcredit⟩
    · intro hzero
      rcases hres with hpos | ⟨v, hv, hpos⟩
      · rw [hpay _ hzero] at hpos
        exact absurd hpos (lt_irrefl 0)
      · rw [hT.marketResolvedAt _ _ hv, hzero] at hpos
        exact absurd hpos (lt_irrefl 0)
    · refine ⟨(s.betRecords receipt.bet).expectedShares - (s.betRecords receipt.bet).soldShares,
        ?_, ?_⟩
      · rw [UInt64.toNat_sub_of_le _ _ (UInt64.le_iff_toNat_le.mpr (by omega))]
        omega
      · rw [UInt64.toNat_sub_of_le _ _ (UInt64.le_iff_toNat_le.mpr (by omega)), hcredit, hclaim,
          ← hright]

theorem close_mirrored_iff (hT : Truthful E s ses.reads) (hP : HonestProver E ses.prove)
    (hR : ReceiptFor s receipt) (h : finalizeClose E.circomlib ses receipt = .submit sub) :
    Mirrored E s ses.address sub ↔
      (s.paused = false ∧ s.spent sub.note.nullifier = false) ∧ AmountRight s receipt sub.call := by
  obtain ⟨inputs, record, a, hS, hrec, ha, htype, hcall, -⟩ := finalizeClose_submit h
  obtain rfl := hT.betRecord _ _ hrec
  have hb := hT.attestation _ _ _ ha
  have hcore : sub.call.core = inputs := by rw [hcall]; rfl
  have hbetId : inputs.nullifierOfBet = receipt.bet := by rw [← hS.bet, hcore]
  rw [hS.mirrored_iff hP fun _ => by rw [hcall]; rfl, ← hS.presentable_iff hT hR, hcall]
  simp only [injected_close_eq_ok, AmountRight, hbetId, CreditCall.core]
  constructor
  · rintro ⟨credit, ⟨hpres, hst, -, ⟨hlo, -⟩, hres, hdelta⟩, hcredit⟩
    refine ⟨hpres, hst, hlo, UInt64.toNat_inj.mp ?_, hres⟩
    rw [UInt64.toNat_zero]
    omega
  · rintro ⟨hpres, hst, hlo, hzero, hres⟩
    refine ⟨a.att.amountB, ⟨hpres, hst, ⟨hb.bound, .inl htype, hb.signer⟩,
      ⟨hlo, (hb.sold htype).2.1⟩, hres, ?_⟩, rfl⟩
    rw [hzero, UInt64.toNat_zero, Nat.add_zero]

theorem partialFill_mirrored_iff (hT : Truthful E s ses.reads) (hP : HonestProver E ses.prove)
    (hR : ReceiptFor s receipt) (h : finalizePartialFill E.circomlib ses receipt = .submit sub) :
    Mirrored E s ses.address sub ↔
      (s.paused = false ∧ s.spent sub.note.nullifier = false) ∧ AmountRight s receipt sub.call := by
  obtain ⟨inputs, record, fee, a, hS, hrec, hst, hfee, ha, htype, hcall, -⟩ :=
    finalizePartialFill_submit h
  obtain rfl := hT.betRecord _ _ hrec
  obtain rfl := hT.betProtocolFee _ _ hfee
  have hb := hT.attestation _ _ _ ha
  have hcore : sub.call.core = inputs := by rw [hcall]; rfl
  have hbetId : inputs.nullifierOfBet = receipt.bet := by rw [← hS.bet, hcore]
  rw [hS.mirrored_iff hP fun _ => by rw [hcall]; rfl, ← hS.presentable_iff hT hR, hcall]
  simp only [injected_partialFill_eq_ok, AmountRight, hbetId, CreditCall.core]
  constructor
  · rintro ⟨credit, ⟨hpres, -⟩, hcredit⟩
    refine ⟨hpres, ?_⟩
    rw [← hcredit]
    exact credit.toNat_lt
  · rintro ⟨hpres, hlt⟩
    obtain ⟨hshares, hamount⟩ := hb.partialFill htype hst
    obtain ⟨credit, hcredit⟩ := exists_toNat_eq hlt
    exact ⟨credit, ⟨hpres, hst, ⟨hb.bound, .inl htype, hb.signer⟩, hshares, hamount, hcredit⟩,
      hcredit⟩

theorem cancel_mirrored_iff {a : SignedAttestation F Sig} (hT : Truthful E s ses.reads)
    (hP : HonestProver E ses.prove) (hR : ReceiptFor s receipt)
    (hwritten : (s.betRecords receipt.bet).status.Written)
    (hopen : ¬ (s.betRecords receipt.bet).status.Terminal)
    (ha : ses.reads.attestation receipt.bet none = some a) (htype : a.att.reportType = reportFailed)
    (h : creditFailedReclaim E.circomlib ses receipt a = .submit sub) :
    Mirrored E s ses.address sub ↔
      (s.paused = false ∧ s.spent sub.note.nullifier = false) ∧ AmountRight s receipt sub.call := by
  obtain ⟨inputs, record, fee, hS, hrec, hfee, hcall⟩ := creditFailedReclaim_submit h
  obtain rfl := hT.betRecord _ _ hrec
  obtain rfl := hT.betProtocolFee _ _ hfee
  have hb := hT.attestation _ _ _ ha
  have hcore : sub.call.core = inputs := by rw [hcall]; rfl
  have hbetId : inputs.nullifierOfBet = receipt.bet := by rw [← hS.bet, hcore]
  rw [hS.mirrored_iff hP fun _ => by rw [hcall]; rfl, ← hS.presentable_iff hT hR, hcall]
  simp only [injected_cancel_eq_ok, AmountRight, hbetId, CreditCall.core]
  constructor
  · rintro ⟨credit, ⟨hpres, hst, -⟩, hcredit⟩
    refine ⟨hpres, ?_, hcredit ▸ credit.toNat_lt⟩
    rcases hst with hst | hst
    · rw [List.mem_singleton.mp hst]
      decide
    · rw [hst.1]
      decide
  · rintro ⟨hpres, hst, hlt⟩
    obtain ⟨credit, hcredit⟩ := exists_toNat_eq hlt
    refine ⟨credit, ⟨hpres, ?_, hcredit⟩, hcredit⟩
    have hactive : (s.betRecords receipt.bet).status = .failed ∨
        (s.betRecords receipt.bet).status = .active := by
      generalize (s.betRecords receipt.bet).status = status at hst hwritten hopen
      revert hst hwritten hopen
      cases status <;> decide
    rcases hactive with hfailed | hactive
    · exact .inl (List.mem_singleton.mpr hfailed)
    · exact .inr ⟨hactive, hb.bound, .inl htype, hb.signer⟩

theorem reclaim_mirrored_iff {polls : List (Reads F Sig)} (hT : Truthful E s ses.reads)
    (hpolls : ∀ r ∈ polls, Truthful E s r) (hP : HonestProver E ses.prove)
    (hR : ReceiptFor s receipt) (hwritten : (s.betRecords receipt.bet).status.Written)
    (h : reclaimBet E.circomlib ses polls receipt = .submit sub) :
    Mirrored E s ses.address sub ↔
      (s.paused = false ∧ s.spent sub.note.nullifier = false) ∧ AmountRight s receipt sub.call := by
  obtain ⟨record, reads, hrec, hopen, hmem, htry⟩ := reclaimBet_submit h
  obtain rfl := hT.betRecord _ _ hrec
  have hreads : Truthful E s reads := by
    rcases List.mem_cons.mp hmem with rfl | hmem
    · exact hT
    · exact hpolls _ hmem
  rcases tryCreditFromAttestation_submit htry with ⟨a, ha, htype, hcancel⟩ | hpartial
  · refine @cancel_mirrored_iff _ _ _ _ E _ s { ses with reads } receipt sub a hreads hP hR hwritten
      ?_ ha htype hcancel
    intro hterminal
    simp only [BetStatus.Terminal, List.mem_cons, List.not_mem_nil, or_false] at hterminal
    tauto
  · exact @partialFill_mirrored_iff _ _ _ _ E _ s { ses with reads } receipt sub hreads hP hR
      hpartial

omit [Field F] [DecidableEq F] in
theorem Outcome.not_terminal {nob : F} {status : BetStatus} {att : OperatorAttestation F}
    {sig : Sig} {primaryType altType : UInt8}
    (h : Outcome E s nob [status] att sig primaryType altType) (hst : ¬ status.Terminal) :
    ¬ (s.betRecords nob).status.Terminal := by
  rcases h with h | h
  · rwa [List.mem_singleton.mp h]
  · rw [h.1]
    decide

theorem Mirrored.not_taken {owner : Address} (h : Mirrored E s owner sub)
    (hbet : sub.call.core.nullifierOfBet = receipt.bet) : ¬ Taken s receipt sub.call := by
  obtain ⟨credit, hi, -⟩ := h
  generalize sub.call = call at hi hbet
  cases call with
  | settle inputs att sig =>
    obtain ⟨-, -, ho, -⟩ := injected_settle_eq_ok.mp hi
    rw [show inputs.nullifierOfBet = receipt.bet from hbet] at ho
    exact Outcome.not_terminal ho (by decide)
  | cancel inputs att sig =>
    obtain ⟨-, ho, -⟩ := injected_cancel_eq_ok.mp hi
    rw [show inputs.nullifierOfBet = receipt.bet from hbet] at ho
    exact Outcome.not_terminal ho (by decide)
  | close inputs att sig =>
    obtain ⟨-, hst, -, ⟨hlo, -⟩, -⟩ := injected_close_eq_ok.mp hi
    rw [show inputs.nullifierOfBet = receipt.bet from hbet] at hst hlo
    rintro (hterminal | hle)
    · rcases hst with hst | hst <;> rw [hst] at hterminal <;> revert hterminal <;> decide
    · exact absurd hlo (UInt64.not_lt.mpr hle)
  | partialFill inputs att sig =>
    obtain ⟨-, hst, -⟩ := injected_partialFill_eq_ok.mp hi
    rw [show inputs.nullifierOfBet = receipt.bet from hbet] at hst
    rintro (hterminal | hfilled)
    · rw [hst] at hterminal
      revert hterminal
      decide
    · rw [hst] at hfilled
      cases hfilled

omit [DecidableEq F] in
theorem Flow.submit_bet {flow : Flow F Sig} {keccak : String → ℕ}
    (h : flow.run E.circomlib keccak ses = .submit sub) :
    sub.call.core.nullifierOfBet = flow.receipt.bet := by
  cases flow with
  | settle receipt =>
    simp only [Flow.run] at h
    split at h
    next bet hbet =>
      obtain ⟨inputs, record, hS, -⟩ := settlePosition_submit h
      rw [hS.bet, (readyToSettle_some hbet).1]
      rfl
    · cases h
  | close receipt =>
    obtain ⟨inputs, record, a, hS, -⟩ := finalizeClose_submit h
    exact hS.bet
  | partialFill receipt =>
    obtain ⟨inputs, record, fee, a, hS, -⟩ := finalizePartialFill_submit h
    exact hS.bet
  | reclaim receipt polls =>
    obtain ⟨record, reads, -, -, -, htry⟩ := reclaimBet_submit h
    rcases tryCreditFromAttestation_submit htry with ⟨a, -, -, hcancel⟩ | hpartial
    · obtain ⟨inputs, record, fee, hS, -⟩ := creditFailedReclaim_submit hcancel
      exact hS.bet
    · obtain ⟨inputs, record, fee, a, hS, -⟩ := finalizePartialFill_submit hpartial
      exact hS.bet

end Amounts

/-! ## Every flow, in every state of the Vault -/

/-- A credit that mirrors is accepted, but for a full tree or an accumulator that overflows. -/
theorem Mirrored.accepted [DecidableEq F] {s : VaultState F} {owner : Address}
    {sub : Submission F Proof Sig} (h : Mirrored E s owner sub) (m : Msg)
    (hroom : Room s sub.call.core.nullifierOfBet) :
    ∃ s', exec E m s (sub.call.call sub.proof) = .ok s' := by
  obtain ⟨credit, hi, -, -, hv⟩ := h
  exact exec_of_injected hi hv hroom

/-- What a flow submits is accepted for the amount it commits to, and was not credited before,
exactly on the records where the amount is right. -/
theorem credits_mirror_iff [DecidableEq F] {args : InitArgs} {s0 s : VaultState F}
    (hdeploy : deploy E args = .ok s0) (as : List (Action F Proof Sig))
    (htimed : Timed (runActions E s0 as).trace) (hs : s = (runActions E s0 as).state)
    (keccak : String → ℕ) (ses : Session F Proof Sig) (flow : Flow F Sig)
    (hT : ∀ r ∈ ses.reads :: flow.polls, Truthful E s r) (hP : HonestProver E ses.prove)
    (hR : ReceiptFor s flow.receipt) (sub : Submission F Proof Sig)
    (h : flow.run E.circomlib keccak ses = .submit sub) :
    (Mirrored E s ses.address sub ∧ ¬ Taken s flow.receipt sub.call) ↔
      (s.paused = false ∧ s.spent sub.note.nullifier = false) ∧
        AmountRight s flow.receipt sub.call := by
  have hreads := hT _ List.mem_cons_self
  have hwritten := written_runActions E hdeploy as flow.receipt.bet
  have hbet := Flow.submit_bet h
  rw [and_iff_left_of_imp fun hm => hm.not_taken hbet]
  rw [← hs] at hwritten
  cases flow with
  | settle receipt =>
    simp only [Flow.run] at h
    split at h
    next bet hready =>
      refine settle_mirrored_iff hreads hP hR hwritten (fun key hkey => ?_) hready h
      subst hs
      exact unresolved_payouts hdeploy as htimed hkey
    · cases h
  | close receipt => exact close_mirrored_iff hreads hP hR h
  | partialFill receipt => exact partialFill_mirrored_iff hreads hP hR h
  | reclaim receipt polls =>
    have hpolls : ∀ r' ∈ polls, Truthful E s r' := fun r' hr => hT r' (List.mem_cons_of_mem _ hr)
    exact reclaim_mirrored_iff hreads hpolls hP hR hwritten h

/-! ## A position that is sold in two parts -/

def firstSale : OperatorAttestation (ZMod 101) := ⟨5, reportSold, 1, 500000⟩

def bothSales : OperatorAttestation (ZMod 101) := ⟨5, reportSold, 2, 900000⟩

def soldEnv : Env (ZMod 101) Unit Unit := mockEnv [firstSale, bothSales]

def mockReceipt : Note (ZMod 101) where
  id := .receipt 5
  kind := .betReceipt
  ownerAddress := 7
  depositIndex := 0
  balance := 2000000
  nonce := 0
  commitment := .receipt 5
  nullifier := 5
  spent := false
  marketId := some (.hex 11)
  side := none
  expectedShares := some 10
  nullifierOfBet := some 5
  positionId := none
  conditionId := some 11
  rawConditionId := none
  betAmount := some 2000000
  protocolFee := none
  derivationVersion := none

def mockChange : Note (ZMod 101) :=
  { mockReceipt with
    id := .commitment 8
    kind := .betOutput
    balance := 3000000
    nonce := 1
    commitment := .commitment 8
    nullifier := 14 }

def mockSession (s : VaultState (ZMod 101)) (att : OperatorAttestation (ZMod 101)) :
    Session (ZMod 101) Unit Unit where
  address := 7
  cache := [mockReceipt, mockChange]
  noteSecret _ _ := 3
  reads := {
    betRecord := fun bet => some (s.betRecords bet)
    betProtocolFee := fun bet => some (s.betProtocolFee bet)
    pendingCredit := fun key side => some (s.pendingCredit key side)
    marketResolvedAt := fun key => some (s.marketResolvedAt key)
    attestation := fun bet _ => if bet = 5 then some ⟨att, ()⟩ else none
    merklePath := fun _ => some ⟨[], [], mockRoot⟩ }
  prove _ := some ()
  noAttestation := ⟨⟨0, 0, 0, 0⟩, ()⟩

theorem mockSession_truthful {E : Env (ZMod 101) Unit Unit} {s : VaultState (ZMod 101)}
    {att : OperatorAttestation (ZMod 101)} (hroot : s.tree.isKnownRoot mockRoot = true)
    (hb : InBounds E s 5 ⟨att, ()⟩) : Truthful E s (mockSession s att).reads where
  betRecord _ _ h := (Option.some.inj h).symm
  betProtocolFee _ _ h := (Option.some.inj h).symm
  pendingCredit _ _ _ h := (Option.some.inj h).symm
  marketResolvedAt _ _ h := (Option.some.inj h).symm
  attestation bet _ a h := by
    obtain ⟨rfl, ha⟩ := Option.ite_none_right_eq_some.mp h
    cases ha
    exact hb
  merklePath _ m h := by
    cases h
    exact hroot

def soldOnce : List (Action (ZMod 101) Unit Unit) :=
  mockBet ++ [.call ⟨7, 1⟩ (.closePosition () ⟨mockRoot, 6, 13, 5⟩ firstSale ())]

def closeSubmission (att : OperatorAttestation (ZMod 101)) :
    Submission (ZMod 101) Unit Unit where
  call := .close ⟨mockRoot, 14, computeCommitment mockCircomlib (3 : ZMod 101)
    (3000000 + att.amountB.toNat) 2 7, 5⟩ att ()
  proof := ()
  note := mockChange
  secret := 3
  newBalance := 3000000 + att.amountB.toNat
  retires := false

theorem getFreeNoteForDeposit_mock :
    getFreeNoteForDeposit [mockReceipt, mockChange] 7 0 = some mockChange := by
  decide +kernel

theorem run_close_mock {s : VaultState (ZMod 101)} {att : OperatorAttestation (ZMod 101)}
    (hst : (s.betRecords 5).status ≠ .closedCredited) (htype : att.reportType = reportSold)
    (hleft : ¬ (s.betRecords 5).expectedShares ≤ att.amountA) :
    (Flow.close mockReceipt).run soldEnv.circomlib (fun _ => 0) (mockSession s att)
      = .submit (closeSubmission att) := by
  have hbet : mockReceipt.bet = 5 := rfl
  have hnote : getFreeNoteForDeposit (mockSession s att).cache (mockSession s att).address
      mockReceipt.depositIndex = some mockChange := getFreeNoteForDeposit_mock
  simp only [Flow.run, finalizeClose, hbet, hnote]
  simp only [mockSession, hst, htype, hleft, if_true, if_false, ne_eq, not_true_eq_false,
    decide_false]
  rfl

theorem mockReceiptFor {s : VaultState (ZMod 101)} (h : (s.betRecords 5).marketId = 11) :
    ReceiptFor s mockReceipt := by
  have hmarket : (s.betRecords mockReceipt.bet).marketId = 11 := h
  refine ⟨?_, ?_, .inr ⟨rfl, ?_, rfl⟩⟩
  · rw [hmarket]
    decide
  · rw [hmarket]
    rfl
  · rw [hmarket]
    rfl

/-- The first sale credits what the note grows by. -/
theorem credits_mirror_first_sale :
    let s := (runActions soldEnv (mockDeployed soldEnv) mockBet).state
    let ses := mockSession s firstSale
    (Flow.close mockReceipt).run soldEnv.circomlib (fun _ => 0) ses
        = .submit (closeSubmission firstSale) ∧
      Mirrored soldEnv s 7 (closeSubmission firstSale) := by
  intro s ses
  have hrun : (Flow.close mockReceipt).run soldEnv.circomlib (fun _ => 0) ses
      = .submit (closeSubmission firstSale) :=
    run_close_mock (by decide +kernel) rfl (by decide +kernel)
  have hT : Truthful soldEnv s ses.reads :=
    mockSession_truthful (by decide +kernel)
      ⟨by decide +kernel, by decide +kernel, by decide +kernel, by decide +kernel⟩
  refine ⟨hrun, ((credits_mirror_iff (mockDeployed_ok _) mockBet (by unfold Timed; decide +kernel)
    rfl (fun _ => 0) ses (.close mockReceipt) (fun r hr => ?_) (fun _ _ _ => rfl)
    (mockReceiptFor (by decide +kernel)) _ hrun).mpr ⟨?_, ?_⟩).1⟩
  · rw [List.mem_singleton.mp hr]
    exact hT
  · decide +kernel
  · exact ⟨.inl (by decide +kernel), by decide +kernel, by decide +kernel, by decide +kernel⟩

/-- The second sale commits to the proceeds of both, while the Vault injects those of one. -/
theorem second_sale_not_mirrored :
    let s := (runActions soldEnv (mockDeployed soldEnv) soldOnce).state
    let ses := mockSession s bothSales
    (runActions soldEnv (mockDeployed soldEnv) soldOnce).trace.length = 2 ∧
      (Truthful soldEnv s ses.reads ∧ HonestProver soldEnv ses.prove ∧ ReceiptFor s mockReceipt) ∧
      (Flow.close mockReceipt).run soldEnv.circomlib (fun _ => 0) ses
        = .submit (closeSubmission bothSales) ∧
      (closeSubmission bothSales).newBalance = mockChange.balance + 900000 ∧
      (closeSubmission bothSales).call.injected soldEnv s = .ok 400000 ∧
      ¬ Mirrored soldEnv s 7 (closeSubmission bothSales) := by
  intro s ses
  have hinjected : (closeSubmission bothSales).call.injected soldEnv s = .ok 400000 := by
    decide +kernel
  refine ⟨by decide +kernel, ⟨?_, fun _ _ _ => rfl, mockReceiptFor (by decide +kernel)⟩, ?_, rfl,
    hinjected, ?_⟩
  · exact mockSession_truthful (by decide +kernel)
      ⟨by decide +kernel, by decide +kernel, by decide +kernel, by decide +kernel⟩
  · exact run_close_mock (by decide +kernel) rfl (by decide +kernel)
  · rintro ⟨credit, hi, hb, -⟩
    rw [hinjected, Except.ok.injEq] at hi
    subst hi
    revert hb
    decide

end Polyshield.Wallet

import Polyshield.Vault.Bettable

/-!
# A credit that is due lands

`Due` is what a bet is due from each of the five credits, read off the record,
the attestation and the market. A credit is only ever paid when it is due, to a
later note of the bet's lineage; and the owner of an unspent note of the lineage
gets it, unless the Vault is paused, the tree is full or the balance overflows.
-/

namespace Polyshield

variable {F Proof Sig : Type} [Field F] [DecidableEq F] (E : Env F Proof Sig)

/-! ## The five credits -/

inductive CreditKind where
  | settlement
  | cancel
  | naCancel
  | close
  | partialFill
  deriving DecidableEq

namespace CreditKind

def proofType : CreditKind → ProofType
  | .settlement => .settlementCredit
  | .cancel => .betCancel
  | .naCancel => .cancelCredit
  | .close => .positionClose
  | .partialFill => .partialCredit

omit [DecidableEq F] in
def publicInputs (i : BetCancelPublicInputs F) (marketId : F) (amount : UInt64) :
    CreditKind → List F
  | .settlement | .naCancel =>
    [i.merkleRoot, i.nullifier, i.newCommitment, i.nullifierOfBet, marketId, u64 amount]
  | .cancel | .close | .partialFill =>
    [i.merkleRoot, i.nullifier, i.newCommitment, i.nullifierOfBet, u64 amount]

def call (i : BetCancelPublicInputs F) (marketId : F) (totalCredit : UInt64) (proof : Proof)
    (att : OperatorAttestation F) (sig : Sig) : CreditKind → Call F Proof Sig
  | .settlement => .creditSettlement proof
      ⟨i.merkleRoot, i.nullifier, i.newCommitment, i.nullifierOfBet, marketId, totalCredit⟩ att sig
  | .cancel => .betCancellationCredit proof i att sig
  | .naCancel => .naCancellationCredit proof
      ⟨i.merkleRoot, i.nullifier, i.newCommitment, i.nullifierOfBet, marketId⟩ att sig
  | .close => .closePosition proof i att sig
  | .partialFill => .partialFillCredit proof i att sig

omit [DecidableEq F] in
theorem hasWitness_iff {C : Circomlib F} {i : BetCancelPublicInputs F} {marketId : F}
    {amount : UInt64} (kind : CreditKind) :
    HasWitness C kind.proofType (kind.publicInputs i marketId amount) ↔
      CreditTemplate C i.merkleRoot i.nullifier i.newCommitment i.nullifierOfBet (u64 amount) := by
  cases kind <;> exact Iff.rfl

end CreditKind

/-- What a bet is due, with the attestation of the operator where the record does not show the
outcome yet. -/
inductive Due (s : VaultState F) (nob : F) (att : OperatorAttestation F) (sig : Sig) :
    CreditKind → ℕ → Prop
  | settlement (outcome : Outcome E s nob [.filled] att sig reportFilled reportFilled)
      (resolved : s.marketResolvedAt (s.betRecords nob).marketId ≠ 0) :
      Due s nob att sig .settlement
        (((s.betRecords nob).expectedShares.toNat - (s.betRecords nob).soldShares.toNat)
          * (s.pendingCredit (s.betRecords nob).marketId (s.betRecords nob).outcomeSide).toNat)
  | cancel (outcome : Outcome E s nob [.failed] att sig reportFailed reportFailed) :
      Due s nob att sig .cancel
        ((s.betRecords nob).betAmount.toNat + (s.betProtocolFee nob).toNat)
  | naCancel (outcome : Outcome E s nob [.filled, .failed] att sig reportFilled reportFailed)
      (unsold : (s.betRecords nob).soldShares = 0)
      (registered : s.conditionIdOf (s.betRecords nob).marketId ≠ 0)
      (reported : s.ctf.payoutDenominator (s.conditionIdOf (s.betRecords nob).marketId) ≠ 0)
      (isNA : s.ctf.IsNA (s.conditionIdOf (s.betRecords nob).marketId)) :
      Due s nob att sig .naCancel (s.betRecords nob).betAmount.toNat
  | close (isOpen : (s.betRecords nob).status = .active ∨ (s.betRecords nob).status = .filled)
      (attested : Attested E s att sig nob reportSold reportSold)
      (more : (s.betRecords nob).soldShares < att.amountA)
      (held : att.amountA ≤ (s.betRecords nob).expectedShares)
      (proceeds : (s.betRecords nob).sellProceeds ≤ att.amountB)
      (unresolved : s.marketResolvedAt (s.betRecords nob).marketId = 0) :
      Due s nob att sig .close (att.amountB.toNat - (s.betRecords nob).sellProceeds.toNat)
  | partialFill (isOpen : (s.betRecords nob).status = .active)
      (attested : Attested E s att sig nob reportPartial reportPartial)
      (filled : att.amountA ≠ 0) (short : att.amountA < (s.betRecords nob).expectedShares)
      (spent : att.amountB ≠ 0) (within : att.amountB ≤ (s.betRecords nob).betAmount) :
      Due s nob att sig .partialFill
        ((s.betRecords nob).betAmount.toNat - att.amountB.toNat
          + refundedFee (s.betProtocolFee nob).toNat (s.betRecords nob).betAmount.toNat
            att.amountB.toNat)

variable {E}

section Calls

variable {m : Msg} {s s' : VaultState F} {i : BetCancelPublicInputs F} {marketId : F}
  {totalCredit : UInt64} {proof : Proof} {att : OperatorAttestation F} {sig : Sig}
  {kind : CreditKind}

theorem naCancellationCredit_market {inputs : NACancelPublicInputs F}
    (h : naCancellationCredit E s proof inputs att sig = .ok s') :
    (s.betRecords inputs.nullifierOfBet).marketId = inputs.marketId ∧
      s.conditionIdOf inputs.marketId ≠ 0 ∧
      s.ctf.payoutDenominator (s.conditionIdOf inputs.marketId) ≠ 0 ∧
      s.ctf.IsNA (s.conditionIdOf inputs.marketId) := by
  simp only [naCancellationCredit, VaultLogic.naCancellationCredit, Except.bind_eq_ok,
    revertIf_eq_ok, exists_const, bind_assoc, not_not, not_exists, not_and, ne_eq] at h
  obtain ⟨-, -, -, -, -, hm, -, -, -, hreg, hrep, hna, -⟩ := h
  exact ⟨hm, hreg, hrep, hna⟩

/-- A credit that is paid is due, and its proof is for the amount. -/
theorem credits_of_exec
    (h : exec E m s (kind.call i marketId totalCredit proof att sig) = .ok s') :
    ∃ record' fee' acc' events amount, Credits E s s' i record' fee' acc' events ∧
      Due E s i.nullifierOfBet att sig kind amount.toNat ∧
      E.verify kind.proofType proof (kind.publicInputs i marketId amount) = true := by
  cases kind with
  | settlement =>
    obtain ⟨hcr, hout, hm, hres, htotal, hv⟩ := creditSettlement_ok h
    refine ⟨_, _, _, _, totalCredit, hcr, ?_, hv⟩
    rw [htotal, ← hm]
    exact .settlement hout (hm ▸ hres)
  | cancel =>
    obtain ⟨hcr, hout, refund, hrefund, hv⟩ := betCancellationCredit_ok h
    exact ⟨_, _, _, _, refund, hcr, hrefund ▸ .cancel hout, hv⟩
  | naCancel =>
    obtain ⟨hcr, hout, hsold, hv⟩ := naCancellationCredit_ok h
    obtain ⟨hm, hreg, hrep, hna⟩ := naCancellationCredit_market h
    rw [← hm] at hreg hrep hna
    exact ⟨_, _, _, _, _, hcr, .naCancel hout hsold hreg hrep hna, hv⟩
  | close =>
    obtain ⟨delta, credit, hcr, hopen, hatt, hmore, hheld, hproceeds, hres, hcredit, -, hv⟩ :=
      closePosition_ok h
    refine ⟨_, _, _, _, credit, hcr, ?_, hv⟩
    have heq : credit.toNat
        = att.amountB.toNat - (s.betRecords i.nullifierOfBet).sellProceeds.toNat := by omega
    rw [heq]
    exact .close hopen hatt hmore hheld hproceeds hres
  | partialFill =>
    obtain ⟨hcr, hopen, hatt, hfilled, hshort, hspent, hwithin, refund, hrefund, hv⟩ :=
      partialFillCredit_ok h
    have h0 {x : UInt64} (hx : 0 < x.toNat) : x ≠ 0 := by
      rintro rfl
      exact lt_irrefl _ hx
    exact ⟨_, _, _, _, refund, hcr,
      hrefund ▸ .partialFill hopen hatt (h0 hfilled) hshort (h0 hspent) hwithin, hv⟩

theorem naCancellationCredit_of_due (hp : Presentable s i)
    (hout : Outcome E s i.nullifierOfBet [.filled, .failed] att sig reportFilled reportFailed)
    (hunsold : (s.betRecords i.nullifierOfBet).soldShares = 0)
    (hreg : s.conditionIdOf (s.betRecords i.nullifierOfBet).marketId ≠ 0)
    (hrep : s.ctf.payoutDenominator (s.conditionIdOf (s.betRecords i.nullifierOfBet).marketId) ≠ 0)
    (hna : s.ctf.IsNA (s.conditionIdOf (s.betRecords i.nullifierOfBet).marketId))
    (hv : E.verify .cancelCredit proof (CreditKind.naCancel.publicInputs i
      (s.betRecords i.nullifierOfBet).marketId (s.betRecords i.nullifierOfBet).betAmount) = true)
    (hroom : Room s i.nullifierOfBet) :
    ∃ s', naCancellationCredit E s proof ⟨i.merkleRoot, i.nullifier, i.newCommitment,
      i.nullifierOfBet, (s.betRecords i.nullifierOfBet).marketId⟩ att sig = .ok s' := by
  let inputs : NACancelPublicInputs F := ⟨i.merkleRoot, i.nullifier, i.newCommitment,
    i.nullifierOfBet, (s.betRecords i.nullifierOfBet).marketId⟩
  have hcr : Creditable E s inputs.core [.filled, .failed] att sig reportFilled reportFailed :=
    ⟨hp.unpaused, hp.unspent, hp.known, hout⟩
  have hmarket : naMarketChecks s inputs.marketId = .ok () := by
    rw [naMarketChecks, revertIf_of_not hreg, ok_bind, revertIf_of_not hrep, ok_bind]
    refine revertIf_of_not ?_
    rintro ⟨j, hj, hne⟩
    exact hne (hna j hj)
  rw [naCancellationCredit_eq hcr rfl hp.found hunsold, hmarket, ok_bind, naRefund]
  have hv' : revertIf (verifyNACancel E proof inputs
      (s.betRecords inputs.nullifierOfBet).betAmount = false) .invalidProof = .ok () := by
    rw [revertIf_eq_ok, Bool.not_eq_false]
    exact hv
  obtain ⟨s1, hs1, hacc, hfee⟩ :=
    spendAndInsert_of_room (E := E) (x := inputs.newCommitment) hroom hp.unspent
  have hspend : spendAndInsert E s inputs.nullifier inputs.newCommitment = .ok s1 := hs1
  simp only [hv', hspend, ok_bind]
  refine releaseProtocolFee_of_lt ?_
  change s1.feeAccumulator + (s1.betProtocolFee i.nullifierOfBet).toNat < 2 ^ 256
  rw [hacc, hfee]
  exact hroom.fee

/-- What a bet is due is paid for a proof of the amount, while the tree has room. -/
theorem exec_of_due {credit : UInt64}
    (hdue : Due E s i.nullifierOfBet att sig kind credit.toNat) (hp : Presentable s i)
    (hsold : (s.betRecords i.nullifierOfBet).soldShares
      ≤ (s.betRecords i.nullifierOfBet).expectedShares)
    (hv : E.verify kind.proofType proof (kind.publicInputs i
      (s.betRecords i.nullifierOfBet).marketId credit) = true)
    (hroom : Room s i.nullifierOfBet) :
    ∃ s', exec E m s (kind.call i (s.betRecords i.nullifierOfBet).marketId credit proof att sig)
      = .ok s' := by
  generalize hcredit : credit.toNat = x at hdue
  cases hdue with
  | settlement hout hres =>
    let c : CreditCall F Sig := .settle ⟨i.merkleRoot, i.nullifier, i.newCommitment,
      i.nullifierOfBet, (s.betRecords i.nullifierOfBet).marketId, credit⟩ att sig
    have hinj : c.injected E s = .ok credit := by
      refine injected_settle_eq_ok.mpr ⟨hp, rfl, hout, hres, ⟨(s.betRecords
        i.nullifierOfBet).expectedShares - (s.betRecords i.nullifierOfBet).soldShares, ?_, ?_⟩, rfl⟩
      · have := UInt64.le_iff_toNat_le.mp hsold
        rw [UInt64.toNat_sub_of_le _ _ hsold]
        simp only
        omega
      · rw [UInt64.toNat_sub_of_le _ _ hsold]
        exact hcredit.symm
    exact exec_of_injected hinj hv hroom
  | cancel hout =>
    have hinj : (CreditCall.cancel i att sig).injected E s = .ok credit :=
      injected_cancel_eq_ok.mpr ⟨hp, hout, hcredit⟩
    exact exec_of_injected hinj hv hroom
  | naCancel hout hunsold hreg hrep hna =>
    have hamount : credit = (s.betRecords i.nullifierOfBet).betAmount := UInt64.toNat_inj.mp hcredit
    exact naCancellationCredit_of_due hp hout hunsold hreg hrep hna (hamount ▸ hv) hroom
  | close hopen hatt hmore hheld hproceeds hunres =>
    have hinj : (CreditCall.close i att sig).injected E s = .ok credit := by
      refine injected_close_eq_ok.mpr ⟨hp, hopen, hatt, ⟨hmore, hheld⟩, hunres, ?_⟩
      have := UInt64.le_iff_toNat_le.mp hproceeds
      omega
    exact exec_of_injected hinj hv hroom
  | partialFill hopen hatt hfilled hshort hspent hwithin =>
    have hinj : (CreditCall.partialFill i att sig).injected E s = .ok credit :=
      injected_partialFill_eq_ok.mpr
        ⟨hp, hopen, hatt, ⟨hfilled, hshort⟩, ⟨hspent, hwithin⟩, hcredit⟩
    exact exec_of_injected hinj hv hroom

end Calls

/-! ## A bet of a reachable Vault -/

def CreditInputs.core (i : CreditInputs F) : BetCancelPublicInputs F :=
  ⟨i.merkleRoot, i.nullifier, i.newCommitment, i.nullifierOfBet⟩

/-- The bet that was placed from the note `b` is credited to the unspent note `n`, a later one of
the lineage. -/
structure Credited (E : Env F Proof Sig) (s s' : VaultState F) (b n : Note F) (credit : ℕ) :
    Prop where
  mem : n ∈ hiddenNotes E.circomlib s.tree
  unspent : s.spent (n.nullifier E.circomlib) = false
  secret : n.secret = b.secret
  later : b.nonce < n.nonce
  continues : ∃ next, Continues E.circomlib s' n next ∧ next.balance = n.balance + credit

/-- A note that is not spent is later than those that bets of the lineage were placed from. -/
theorem NotesHistory.later_of_found {ch : Chain F Proof Sig} (h : NotesHistory E ch) {b n : Note F}
    (hb : b ∈ hiddenNotes E.circomlib ch.state.tree)
    (hfound : (ch.state.betRecords (b.nullifier E.circomlib)).marketId ≠ 0)
    (hsec : n.secret = b.secret) (hun : ch.state.spent (n.nullifier E.circomlib) = false) :
    b.nonce < n.nonce := by
  by_contra hle
  have hspent : ch.state.spent (n.nullifier E.circomlib) = true := by
    rcases (not_lt.mp hle).lt_or_eq with hlt | heq
    · have hearlier := h.earlier b hb n.nonce hlt
      rwa [← hsec] at hearlier
    · have hnul : n.nullifier E.circomlib = b.nullifier E.circomlib := by
        rw [Note.nullifier, Note.nullifier, hsec, heq]
      rw [hnul]
      exact h.books.bets.spent _ (h.books.bets.mem_of_found hfound)
  rw [hun] at hspent
  cases hspent

section Reachable

variable (hE : E.Ideal) {s : VaultState F} (hs : BooksInv E s) {b : Note F}

include hE hs

/-- Whatever is paid for a bet was due, and goes to an unspent note of its lineage. -/
theorem credited_of_exec {m : Msg} {s' : VaultState F} {i : BetCancelPublicInputs F} {marketId : F}
    {totalCredit : UInt64} {proof : Proof} {att : OperatorAttestation F} {sig : Sig}
    {kind : CreditKind} (hbet : i.nullifierOfBet = b.nullifier E.circomlib)
    (h : exec E m s (kind.call i marketId totalCredit proof att sig) = .ok s') :
    ∃ n credit, Due E s (b.nullifier E.circomlib) att sig kind credit ∧
      Credited E s s' b n credit := by
  obtain ⟨_, _, _, _, amount, hcr, hdue, hv⟩ := credits_of_exec h
  obtain ⟨n, next, hadv, -, -, hbal, k, hk, hnob⟩ :=
    hcr.advances hE hs ((CreditKind.hasWitness_iff kind).mp (hE.sound hv))
  obtain ⟨hsec, hnon⟩ := hE.injective.poseidon2_inj (hnob.trans hbet)
  have hkb : k = b.nonce := hE.wide.eq (lt_253_of_lt_64 (hk.trans n.nonce_lt))
    (lt_253_of_lt_64 b.nonce_lt) hnon
  exact ⟨n, amount.toNat, hbet ▸ hdue, hadv.mem, hadv.unspent, hsec, hkb ▸ hk, next,
    .of_advances hE hs hadv, hbal⟩

variable (hres : Reserves E s) {n : Note F} {credit : UInt64} {i : CreditInputs F}
  (hi : i.Of E.circomlib n b credit.toNat) (hn : n ∈ hiddenNotes E.circomlib s.tree)
  (hun : s.spent (n.nullifier E.circomlib) = false) (hsec : n.secret = b.secret)
  (hlater : b.nonce < n.nonce)
  (hfound : (s.betRecords (b.nullifier E.circomlib)).marketId ≠ 0)
  (hsold : (s.betRecords (b.nullifier E.circomlib)).soldShares
    ≤ (s.betRecords (b.nullifier E.circomlib)).expectedShares)

include hres hi hn hun hsec hlater hfound hsold

/-- What is due is paid to the owner's note, unless the Vault is paused or lacks a leaf, or the
balance overflows. -/
theorem credit_proved_iff {m : Msg} {att : OperatorAttestation F} {sig : Sig} {kind : CreditKind}
    (hdue : Due E s (b.nullifier E.circomlib) att sig kind credit.toNat)
    (hroot : s.tree.isKnownRoot i.merkleRoot = true) :
    (i.Proves E.circomlib ∧ ∃ proof s', exec E m s (kind.call i.core
        (s.betRecords (b.nullifier E.circomlib)).marketId credit proof att sig) = .ok s' ∧
        Credited E s s' b n credit.toNat) ↔
      s.paused = false ∧ n.balance + credit.toNat < 2 ^ 64 ∧
        s.tree.leaves.length < 2 ^ treeDepth := by
  have hproves :=
    hi.proves_iff hE.spec hE.wide hsec.symm credit.toNat_lt (hres.nonce_succ_lt hn)
  have hleaves := hs.notes.history.frontier.nextIndex
  have hbet : i.core.nullifierOfBet = b.nullifier E.circomlib := hi.nullifierOfBet
  have hnul : i.core.nullifier = n.nullifier E.circomlib := hi.spends.nullifier
  constructor
  · rintro ⟨hp, proof, s', hx, -⟩
    have hfits := (hproves.mp hp).2
    obtain ⟨_, _, _, _, amount, hcr, -, -⟩ := credits_of_exec hx
    refine ⟨hcr.unpaused, hfits, ?_⟩
    obtain ⟨t', ht, -⟩ := hcr.effect
    have hne : i.core.newCommitment ≠ 0 := by
      show i.newCommitment ≠ 0
      rw [hi.next hfits]
      exact hE.injective.poseidon4_ne_zero _ _ _ _
    rw [← hleaves]
    exact ht.nextIndex_lt hne
  · rintro ⟨hp, hfits, hroom⟩
    have hprove := hproves.mpr ⟨hlater, hfits⟩
    have hw : HasWitness E.circomlib kind.proofType (kind.publicInputs i.core
        (s.betRecords (b.nullifier E.circomlib)).marketId credit) := by
      refine kind.hasWitness_iff.mpr ⟨i.signals, (i.betNonce : F), ?_⟩
      have hcons : CreditConstraints _ _ _ _ _ _ _ (i.credit : F) := hprove
      rwa [hi.credit, Int.cast_natCast] at hcons
    obtain ⟨proof, hv⟩ := (hE.verify_iff _ _).mpr hw
    have hpres : Presentable s i.core :=
      ⟨hp, hnul.symm ▸ hun, hroot, hbet.symm ▸ hfound⟩
    have hroom' : Room s i.core.nullifierOfBet := by
      refine ⟨by rwa [hleaves], ?_⟩
      have hacc := hres.feeAccumulator_lt (n := i.core.nullifierOfBet) hs.bets
        (by decide : 0 < 2 ^ 64)
      omega
    rw [← hbet] at hdue hsold hv ⊢
    obtain ⟨s', hx⟩ := exec_of_due (m := m) hdue hpres hsold hv hroom'
    refine ⟨hprove, proof, s', hx, hn, hun, hsec, hlater, ?_⟩
    obtain ⟨_, _, _, _, amount, hcr, -, -⟩ := credits_of_exec hx
    obtain ⟨t', ht, rfl⟩ := hcr.effect
    let next : Note F := ⟨n.secret, n.owner, n.balance + credit.toNat, n.nonce + 1, hfits,
      hres.nonce_succ_lt hn⟩
    have hcom : i.core.newCommitment = next.commitment E.circomlib := hi.next hfits
    rw [hcom] at ht
    refine ⟨next, .of_grows hE hs hn hun ⟨rfl, rfl, rfl⟩ ht ?_, rfl⟩
    rw [hnul]

end Reachable

/-- The owner of a committed note has inputs for any credit to it, with a path to the current
root. -/
theorem Reserves.exists_creditInputs {s : VaultState F} (hres : Reserves E s)
    (ht : CommitmentMerkleTree.History E.circomlib.poseidon2 s.tree) {n : Note F}
    (hn : n ∈ hiddenNotes E.circomlib s.tree) {a : Address} (ha : (a.toNat : F) = n.owner)
    (b : Note F) (credit : ℕ) : ∃ i : CreditInputs F, i.Of E.circomlib n b credit ∧
      i.ownerAddress = a ∧ i.merkleRoot = s.tree.currentRoot := by
  obtain ⟨i, hi, howner, hroot⟩ := hres.exists_spendInputs ht hn ha
  let next := NoteCommitment E.circomlib n.secret ((n.balance + credit : ℕ) : F)
    ((n.nonce + 1 : ℕ) : F) n.owner
  exact ⟨⟨i, next, b.nonce, b.nullifier E.circomlib, credit⟩, ⟨hi, rfl, rfl, fun _ => rfl, rfl⟩,
    howner, hroot⟩

/-- What is due to the owner of a later note is paid with inputs at the current root. -/
theorem Reserves.exists_credit (hE : E.Ideal) {s : VaultState F} (hs : BooksInv E s)
    (hres : Reserves E s) {n b : Note F} (hn : n ∈ hiddenNotes E.circomlib s.tree)
    (hun : s.spent (n.nullifier E.circomlib) = false) (hsec : n.secret = b.secret)
    (hlater : b.nonce < n.nonce) {a : Address} (ha : (a.toNat : F) = n.owner)
    {record : BetRecord F} (hrecord : s.betRecords (b.nullifier E.circomlib) = record)
    (hfound : record.marketId ≠ 0) (hsold : record.soldShares ≤ record.expectedShares)
    {att : OperatorAttestation F} {sig : Sig} {kind : CreditKind} {credit : UInt64}
    (hdue : Due E s (b.nullifier E.circomlib) att sig kind credit.toNat)
    (hpaused : s.paused = false) (hfits : n.balance + credit.toNat < 2 ^ 64)
    (hroom : s.tree.leaves.length < 2 ^ treeDepth) (m : Msg) :
    ∃ (i : CreditInputs F) (proof : Proof) (s' : VaultState F),
      i.Of E.circomlib n b credit.toNat ∧
      exec E m s (kind.call i.core record.marketId credit proof att sig) = .ok s' ∧
      Credited E s s' b n credit.toNat := by
  obtain rfl := hrecord
  obtain ⟨i, hi, -, hroot⟩ := hres.exists_creditInputs hs.notes.history hn ha b credit.toNat
  have hknown : s.tree.isKnownRoot i.merkleRoot = true := by
    rw [hroot]
    exact hres.isKnownRoot_currentRoot hs.notes.history hE
  have hiff := credit_proved_iff hE hs hres (m := m) hi hn hun hsec hlater hfound hsold hdue hknown
  obtain ⟨-, proof, s', hx, hcredited⟩ := hiff.mpr ⟨hpaused, hfits, hroom⟩
  exact ⟨i, proof, s', hi, hx, hcredited⟩

/-- In every state a run reaches, a credit of a bet is only paid when it is due, to an unspent note
of the bet's lineage; and the owner of such a note has inputs for what is due, which are paid
unless the Vault is paused, the tree is full or the balance overflows. -/
theorem due_credit_lands (hE : E.Ideal) {args : InitArgs} {s₀ : VaultState F}
    (hdeploy : deploy E args = .ok s₀) (as : List (Action F Proof Sig)) {b : Note F}
    (hb : b ∈ hiddenNotes E.circomlib (runActions E s₀ as).state.tree)
    (hfound : ((runActions E s₀ as).state.betRecords (b.nullifier E.circomlib)).marketId ≠ 0)
    (kind : CreditKind) (att : OperatorAttestation F) (sig : Sig) :
    let s := (runActions E s₀ as).state
    let record := s.betRecords (b.nullifier E.circomlib)
    (∀ m i marketId totalCredit proof s', i.nullifierOfBet = b.nullifier E.circomlib →
        exec E m s (kind.call i marketId totalCredit proof att sig) = .ok s' →
        ∃ n credit, Due E s (b.nullifier E.circomlib) att sig kind credit ∧
          Credited E s s' b n credit) ∧
      ∀ n ∈ hiddenNotes E.circomlib s.tree, n.secret = b.secret →
        s.spent (n.nullifier E.circomlib) = false → ∀ a : Address, (a.toNat : F) = n.owner →
        ∀ credit : UInt64, Due E s (b.nullifier E.circomlib) att sig kind credit.toNat →
        let Claims := fun i : CreditInputs F => i.Of E.circomlib n b credit.toNat ∧
          i.ownerAddress = a ∧ s.tree.isKnownRoot i.merkleRoot = true
        (∃ i, Claims i ∧ i.merkleRoot = s.tree.currentRoot) ∧ ∀ m i, Claims i →
          ((i.Proves E.circomlib ∧ ∃ proof s',
              exec E m s (kind.call i.core record.marketId credit proof att sig) = .ok s' ∧
                Credited E s s' b n credit.toNat) ↔
            s.paused = false ∧ n.balance + credit.toNat < 2 ^ 64 ∧
              s.tree.leaves.length < 2 ^ treeDepth) := by
  intro s record
  have hnotes : NotesHistory E (runActions E s₀ as) := notesHistory_runActions hE hdeploy as
  have hs : BooksInv E s := hnotes.books
  have hres : Reserves E s := reserves_runActions hE hdeploy as
  have hchain := (chainHistory_runActions hdeploy as).run (b.nullifier E.circomlib)
  have hsold := hchain.invariant.sold_le
  constructor
  · intro m i marketId totalCredit proof s' hbet hx
    exact credited_of_exec hE hs hbet hx
  · intro n hn hsec hun a ha credit hdue
    have hlater := hnotes.later_of_found hb hfound hsec hun
    constructor
    · obtain ⟨i, hi, howner, hroot⟩ :=
        hres.exists_creditInputs hs.notes.history hn ha b credit.toNat
      refine ⟨i, ⟨hi, howner, ?_⟩, hroot⟩
      rw [hroot]
      exact hres.isKnownRoot_currentRoot hs.notes.history hE
    · rintro m i ⟨hi, -, hroot⟩
      exact credit_proved_iff hE hs hres hi hn hun hsec hlater hfound hsold hdue hroot

/-- A bet of one dollar that fails is credited back with its fee. -/
theorem due_credit_lands_two_dollars :
    ∃ bet : BetAuthInputs ℚ,
      let s := (runActions encodingEnv twoDollarVault [twoDollarDeposit, twoDollarBet bet]).state
      let att : OperatorAttestation ℚ :=
        ⟨twoDollarNote.nullifier encodingCircomlib, reportFailed, 0, 0⟩
      ∃ n, ∃ i : CreditInputs ℚ, i.Proves encodingCircomlib ∧ ∃ proof s',
        exec encodingEnv ⟨7, 2⟩ s (CreditKind.cancel.call i.core 5 1002000 proof att (att, 1))
          = .ok s' ∧ Credited encodingEnv s s' twoDollarNote n 1002000 := by
  have hdeploy : deploy encodingEnv twoDollarArgs = .ok twoDollarVault := rfl
  obtain ⟨bet, hb, hleaves, hpaused, hoperator, hactive, hmarket, hstake, hfee, next, hcont,
    hbalance⟩ := exists_two_dollar_bet
  refine ⟨bet, ?_⟩
  intro s att
  have hdue : Due encodingEnv s (twoDollarNote.nullifier encodingCircomlib) att (att, 1) .cancel
      (UInt64.toNat 1002000) := by
    have hsigner : encodingEnv.recover att (att, 1) = some s.signingLayerOperator := by
      rw [hoperator]
      simp [encodingEnv]
    have h : Due encodingEnv s _ att (att, 1) .cancel _ :=
      .cancel (.inr ⟨hactive, rfl, .inl rfl, hsigner⟩)
    rwa [hstake, hfee] at h
  have hfound : (s.betRecords (twoDollarNote.nullifier encodingEnv.circomlib)).marketId ≠ 0 := by
    show (s.betRecords (twoDollarNote.nullifier encodingCircomlib)).marketId ≠ 0
    rw [hmarket]
    decide
  obtain ⟨hsec, howner, -⟩ := hcont.follows
  obtain ⟨⟨i, hi, -⟩, hall⟩ := (due_credit_lands encodingEnv_ideal hdeploy _ hb
    hfound .cancel att (att, 1)).2 next hcont.mem hsec hcont.unspent 7 howner.symm 1002000 hdue
  obtain ⟨hproves, proof, s', hx, hcredited⟩ := (hall ⟨7, 2⟩ i hi).mpr ⟨hpaused,
    by rw [hbalance]; decide, by rw [hleaves]; decide⟩
  refine ⟨next, i, hproves, proof, s', ?_, hcredited⟩
  rw [← hmarket]
  exact hx

end Polyshield

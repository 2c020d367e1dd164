import Mathlib.Data.Rat.Denumerable
import Polyshield.Vault.Books
import Polyshield.Vault.Notes

/-!
# Conservation of value

Under an injective Poseidon and verifiers that accept exactly what the circuits
prove, every call moves value between the hidden notes, the open stakes, the
provisional fees and the fee accumulator, and creates none (`Posts`). The books
after a run are what was deposited and credited, less what was paid out.
-/

namespace Polyshield

variable {F Proof Sig : Type} [Field F] [DecidableEq F] {E : Env F Proof Sig}

/-- The hash is injective and never zero, the verifier of each circuit accepts a
proof of exactly the public inputs the circuit has a witness for, and the token is
an ERC-20 token. -/
structure Env.Ideal (E : Env F Proof Sig) : Prop where
  spec : E.circomlib.Spec
  wide : Wide F
  injective : E.circomlib.Injective
  token : E.token.Spec
  vault_ne : E.vault ≠ 0
  verify_iff : ∀ proofType inputs,
    (∃ proof, E.verify proofType proof inputs = true) ↔ HasWitness E.circomlib proofType inputs

omit [DecidableEq F] in
theorem Env.Ideal.sound (hE : E.Ideal) {proofType : ProofType} {proof : Proof} {inputs : List F}
    (h : E.verify proofType proof inputs = true) : HasWitness E.circomlib proofType inputs :=
  (hE.verify_iff proofType inputs).mp ⟨proof, h⟩

/-- The value of the unspent notes of a state. -/
noncomputable def VaultState.notesValue (E : Env F Proof Sig) (s : VaultState F) : ℕ :=
  poolValue E.circomlib s.tree s.spent

/-- Everything the Vault owes: notes, claimable and provisional fees, open and settled stakes. -/
noncomputable def VaultState.books (E : Env F Proof Sig) (s : VaultState F) : ℕ :=
  s.notesValue E + s.feeAccumulator + s.provisionalFees + s.openStakes + s.settledStakes

namespace Executed

/-- What a call deposited. -/
def deposited (x : Executed F Proof Sig) : ℕ :=
  match x.call with
  | .deposit _ _ amount => amount
  | _ => 0

/-- What a call paid out of the Vault to a user or the fee recipient. -/
def paidOut (x : Executed F Proof Sig) : ℕ :=
  match x.call with
  | .withdraw _ inputs _ =>
    inputs.withdrawalAmount.toNat - x.pre.feeConfig.withdrawalFeeUSDC.toNat
  | .withdrawFees amount => amount
  | _ => 0

/-- What a call credited to a note from the outcome of a market or a sale. -/
def credited (x : Executed F Proof Sig) : ℕ :=
  match x.call with
  | .creditSettlement _ inputs _ _ => inputs.totalCredit.toNat
  | .closePosition _ inputs att _ =>
    att.amountB.toNat - (x.pre.betRecords inputs.nullifierOfBet).sellProceeds.toNat
  | _ => 0

end Executed

/-- The sum of an amount over the calls of a trace. -/
def total (amount : Executed F Proof Sig → ℕ) (trace : List (Executed F Proof Sig)) : ℕ :=
  (trace.map amount).sum

omit [Field F] [DecidableEq F] in
theorem total_append (amount : Executed F Proof Sig → ℕ) (trace : List (Executed F Proof Sig))
    (x : Executed F Proof Sig) : total amount (trace ++ [x]) = total amount trace + amount x := by
  simp [total]

/-! ## One call -/

/-- The books of a state are consistent. -/
structure BooksInv (E : Env F Proof Sig) (s : VaultState F) : Prop where
  notes : NoteInv E.circomlib s.tree s.spent
  bets : BetInv s

/-- A call took the books from `s` to `s'` for an inflow and an outflow. -/
structure Posts (E : Env F Proof Sig) (s s' : VaultState F) (inflow outflow : ℕ) : Prop where
  inv : BooksInv E s'
  le : s'.books E + outflow ≤ s.books E + inflow
  eq : DistinctNullifiers E.circomlib s'.tree → s'.books E + outflow = s.books E + inflow
  distinct : DistinctNullifiers E.circomlib s'.tree → DistinctNullifiers E.circomlib s.tree

section Stakes

variable (record : BetRecord F)

omit [Field F] [DecidableEq F] in
theorem openStake_of_open
    (h : record.status = .active ∨ record.status = .filled ∨ record.status = .failed) :
    record.openStake = record.betAmount.toNat ∧ record.settledStake = 0 := by
  unfold BetRecord.openStake BetRecord.settledStake
  rw [if_pos h]
  rcases h with h | h | h <;> simp [h]

omit [Field F] [DecidableEq F] in
theorem openStake_of_settled (h : record.status = .credited ∨ record.status = .closedCredited) :
    record.openStake = 0 ∧ record.settledStake = record.betAmount.toNat := by
  unfold BetRecord.openStake BetRecord.settledStake
  rw [if_pos h]
  rcases h with h | h <;> simp [h]

omit [Field F] [DecidableEq F] in
theorem openStake_of_cancelled (h : record.status = .cancelledCredited) :
    record.openStake = 0 ∧ record.settledStake = 0 := by
  simp [BetRecord.openStake, BetRecord.settledStake, h]

end Stakes

section Calls

variable (hE : E.Ideal) {s s' : VaultState F} (hs : BooksInv E s) {m : Msg} {proof : Proof}
  {att : OperatorAttestation F} {sig : Sig}

include hE hs

/-- Spending a note a circuit opened and committing the note that follows it. -/
theorem Grows.moves {n m : Note F} {root nul c : F} {t' : CommitmentMerkleTree F}
    (hroot : s.tree.isKnownRoot root = true) (hn : n.Opens E.circomlib root nul)
    (hun : s.spent nul = false) (hm : m.Follows n) (hcom : m.commitment E.circomlib = c)
    (ht : Grows E s.tree c t') :
    Moves E.circomlib s.tree s.spent t' (Function.update s.spent nul true) n.balance m.balance := by
  have hmem := hs.notes.mem_of_opens hE.injective hE.wide hroot hn
  rw [← hn.nullifier] at hun ⊢
  cases ht with
  | none => exact absurd hcom (m.commitment_ne_zero hE.injective)
  | leaf _ hins =>
    rw [← hcom] at hins
    exact moves_next hs.notes hE.injective hE.wide hmem hun hm hins

/-- A credit adds the amount its circuit was given to the notes. -/
theorem Credits.moves {i : BetCancelPublicInputs F} {record' : BetRecord F} {fee' : UInt64}
    {acc' : ℕ} {events : List (Event F)} (h : Credits E s s' i record' fee' acc' events)
    {amount : UInt64} (hw : CreditTemplate E.circomlib i.merkleRoot i.nullifier i.newCommitment
      i.nullifierOfBet (u64 amount)) :
    ∃ b, Moves E.circomlib s.tree s.spent s'.tree s'.spent b (b + amount.toNat) := by
  obtain ⟨n, m, hn, hm, hcom, hbal, -⟩ := CreditTemplate.sound hE.spec hE.wide amount.toNat_lt hw
  obtain ⟨t', ht, rfl⟩ := h.effect
  refine ⟨n.balance, ?_⟩
  rw [← hbal]
  exact ht.moves hE hs h.known hn h.unspent hm hcom

/-- A credit balances when the bet's entries and the accumulator give up what the note gains. -/
theorem Credits.posts {i : BetCancelPublicInputs F} {record' : BetRecord F} {fee' : UInt64}
    {acc' inflow : ℕ} {events : List (Event F)} (h : Credits E s s' i record' fee' acc' events)
    (he : events.filterMap Event.createdBet? = [])
    (amount : UInt64) (hw : CreditTemplate E.circomlib i.merkleRoot i.nullifier i.newCommitment
      i.nullifierOfBet (u64 amount))
    (hbal : amount.toNat + acc' + fee'.toNat + record'.openStake + record'.settledStake
      = s.feeAccumulator + (s.betProtocolFee i.nullifierOfBet).toNat
        + (s.betRecords i.nullifierOfBet).openStake
        + (s.betRecords i.nullifierOfBet).settledStake + inflow) :
    Posts E s s' inflow 0 := by
  obtain ⟨b, hmv⟩ := h.moves hE hs hw
  have hrw := h.rewritesBet hs.bets he
  have hp := hrw.provisionalFees
  have ho := hrw.openStakes
  have hst := hrw.settledStakes
  have hacc : s'.feeAccumulator = acc' := by
    obtain ⟨t', -, rfl⟩ := h.effect
    rfl
  refine ⟨⟨hmv.inv, hrw.betInv hs.bets⟩, ?_, fun hd => ?_, hmv.distinct⟩
  · have hle := hmv.le
    unfold VaultState.books VaultState.notesValue
    omega
  · have heq := hmv.eq hd
    unfold VaultState.books VaultState.notesValue
    omega

theorem posts_creditSettlement {inputs : SettlementPublicInputs F}
    (h : creditSettlement E s proof inputs att sig = .ok s') :
    Posts E s s' inputs.totalCredit.toNat 0 := by
  obtain ⟨hc, ho, -, -, -, hv⟩ := creditSettlement_ok h
  refine hc.posts hE hs rfl inputs.totalCredit (hE.sound hv) ?_
  have hold := openStake_of_open (s.betRecords inputs.nullifierOfBet) (by
    rcases ho with ho | ho
    · exact .inr (.inl (List.mem_singleton.mp ho))
    · exact .inl ho.1)
  have hnew := openStake_of_settled
    { s.betRecords inputs.nullifierOfBet with status := .credited } (.inl rfl)
  simp only [SettlementPublicInputs.core, released, UInt64.toNat_zero] at *
  omega

theorem posts_betCancellationCredit {inputs : BetCancelPublicInputs F}
    (h : betCancellationCredit E s proof inputs att sig = .ok s') : Posts E s s' 0 0 := by
  obtain ⟨hc, ho, refund, hrefund, hv⟩ := betCancellationCredit_ok h
  refine hc.posts hE hs rfl refund (hE.sound hv) ?_
  have hold := openStake_of_open (s.betRecords inputs.nullifierOfBet) (by
    rcases ho with ho | ho
    · exact .inr (.inr (List.mem_singleton.mp ho))
    · exact .inl ho.1)
  have hnew := openStake_of_cancelled
    { s.betRecords inputs.nullifierOfBet with status := .cancelledCredited } rfl
  simp only [UInt64.toNat_zero] at *
  omega

theorem posts_naCancellationCredit {inputs : NACancelPublicInputs F}
    (h : naCancellationCredit E s proof inputs att sig = .ok s') : Posts E s s' 0 0 := by
  obtain ⟨hc, ho, -, hv⟩ := naCancellationCredit_ok h
  refine hc.posts hE hs rfl (s.betRecords inputs.nullifierOfBet).betAmount (hE.sound hv) ?_
  have hold := openStake_of_open (s.betRecords inputs.nullifierOfBet) (by
    rcases ho with ho | ho
    · simp only [List.mem_cons, List.not_mem_nil, or_false] at ho
      exact .inr ho
    · exact .inl ho.1)
  have hnew := openStake_of_cancelled
    { s.betRecords inputs.nullifierOfBet with status := .cancelledCredited } rfl
  simp only [NACancelPublicInputs.core, released, UInt64.toNat_zero] at *
  omega

theorem posts_closePosition {inputs : ClosePublicInputs F}
    (h : closePosition E s proof inputs att sig = .ok s') :
    Posts E s s'
      (att.amountB.toNat - (s.betRecords inputs.nullifierOfBet).sellProceeds.toNat) 0 := by
  obtain ⟨delta, credit, hc, hst, -, -, -, -, -, hcredit, -, hv⟩ := closePosition_ok h
  refine hc.posts hE hs rfl credit (hE.sound hv) ?_
  have hold := openStake_of_open (s.betRecords inputs.nullifierOfBet) (by tauto)
  by_cases hfull : att.amountA = (s.betRecords inputs.nullifierOfBet).expectedShares
  · have hnew := openStake_of_settled
      (closedRecord (s.betRecords inputs.nullifierOfBet) att.amountA att.amountB)
      (.inr (by simp [closedRecord, hfull]))
    simp only [if_pos hfull, released, UInt64.toNat_zero] at *
    simp only [closedRecord] at *
    omega
  · have hnew := openStake_of_open
      (closedRecord (s.betRecords inputs.nullifierOfBet) att.amountA att.amountB)
      (.inr (.inl (by simp [closedRecord, hfull])))
    simp only [if_neg hfull] at *
    simp only [closedRecord] at *
    omega

theorem posts_partialFillCredit {inputs : PartialFillPublicInputs F}
    (h : partialFillCredit E s proof inputs att sig = .ok s') : Posts E s s' 0 0 := by
  obtain ⟨hc, hst, -, -, -, -, hspent, refund, hrefund, hv⟩ := partialFillCredit_ok h
  refine hc.posts hE hs rfl refund (hE.sound hv) ?_
  have hle := refundedFee_le (s.betProtocolFee inputs.nullifierOfBet).toNat
    (s.betRecords inputs.nullifierOfBet).betAmount.toNat att.amountB.toNat
  have hold := openStake_of_open (s.betRecords inputs.nullifierOfBet) (.inl hst)
  have hnew := openStake_of_open
    (normalizedRecord (s.betRecords inputs.nullifierOfBet) att.amountA att.amountB)
    (.inr (.inl rfl))
  rw [UInt64.le_iff_toNat_le] at hspent
  simp only [normalizedRecord, UInt64.toNat_zero] at *
  omega

omit hE in
/-- A call that keeps the bets balances by its notes and the accumulator. -/
theorem Posts.of_moves {spends creates inflow outflow : ℕ} (hk : KeepsBets s s')
    (hmv : Moves E.circomlib s.tree s.spent s'.tree s'.spent spends creates)
    (hbal : creates + s'.feeAccumulator + outflow = spends + s.feeAccumulator + inflow) :
    Posts E s s' inflow outflow := by
  obtain ⟨hp, ho, hst⟩ := hk.totals
  refine ⟨⟨hmv.inv, hk.betInv hs.bets⟩, ?_, fun hd => ?_, hmv.distinct⟩
  · have hle := hmv.le
    unfold VaultState.books VaultState.notesValue
    omega
  · have heq := hmv.eq hd
    unfold VaultState.books VaultState.notesValue
    omega

theorem posts_deposit {commitment : F} {amount : ℕ}
    (h : deposit E m s proof commitment amount = .ok s') : Posts E s s' amount 0 := by
  have hk := keepsBets_deposit h
  obtain ⟨hv, hcap, r, t', usdc', ht, rfl⟩ := deposit_ok h
  have hamount : amount < 2 ^ 253 := by
    have : depositCap < 2 ^ 253 := by decide
    omega
  obtain ⟨n, rfl, -, hnonce, hbal⟩ := Deposit.sound hE.spec hE.wide hamount (hE.sound hv)
  refine .of_moves hs hk (moves_deposit hs.notes hE.injective hE.wide hnonce ht) ?_
  simp only
  omega

theorem posts_authorizeBet {inputs : BetAuthPublicInputs F}
    (h : authorizeBet E m s proof inputs = .ok s') : Posts E s s' 0 0 := by
  have hcr := createsBet_authorizeBet h
  obtain ⟨hun, hroot, fee, hfee, hv, t', ht, rfl⟩ := authorizeBet_ok h
  have hw : BetAuth E.circomlib inputs.merkleRoot inputs.nullifier inputs.newCommitment
      (inputs.betAmount.toNat : F) (u64 inputs.price) (u64 inputs.expectedShares) inputs.marketId
      (inputs.outcomeSide.toNat : F) inputs.positionId (fee.toNat : F) := hE.sound hv
  obtain ⟨n, m', hn, hm, hcom, hbal⟩ :=
    BetAuth.sound hE.spec hE.wide inputs.betAmount.toNat_lt fee.toNat_lt hw
  have hmv := ht.moves hE hs hroot hn hun hm hcom
  have hp := hcr.provisionalFees hs.bets
  have ho := hcr.openStakes hs.bets
  have hst := hcr.settledStakes hs.bets
  have hnew := openStake_of_open inputs.record (.inl rfl)
  simp only [BetAuthPublicInputs.record] at hnew
  refine ⟨⟨hmv.inv, hcr.betInv hs.bets⟩, ?_, fun hd => ?_, hmv.distinct⟩
  · have hle := hmv.le
    unfold VaultState.books VaultState.notesValue
    simp only [BetAuthPublicInputs.record] at *
    omega
  · have heq := hmv.eq hd
    unfold VaultState.books VaultState.notesValue
    simp only [BetAuthPublicInputs.record] at *
    omega

theorem posts_withdraw {inputs : WithdrawalPublicInputs F} {a : Address}
    (h : withdraw E s proof inputs a = .ok s') :
    Posts E s s' 0
      (inputs.withdrawalAmount.toNat - s.feeConfig.withdrawalFeeUSDC.toNat) := by
  have hk := keepsBets_withdraw h
  obtain ⟨hun, hroot, hv, hfee, -, t', usdc', ht, rfl⟩ := withdraw_ok h
  obtain ⟨n, hn, -, hout⟩ :=
    Withdrawal.sound hE.spec hE.wide inputs.withdrawalAmount.toNat_lt (hE.sound hv)
  rcases hout with ⟨h0, hbal⟩ | ⟨m', hm, hcom, -, hbal⟩
  · rw [h0] at ht
    cases ht with
    | leaf hc _ => exact absurd rfl hc
    | none =>
      have hmem := hs.notes.mem_of_opens hE.injective hE.wide hroot hn
      rw [← hn.nullifier] at hun
      have hmv := moves_spend hs.notes hmem hun
      rw [hn.nullifier] at hmv
      refine .of_moves hs hk hmv ?_
      simp only
      omega
  · refine .of_moves hs hk (ht.moves hE hs hroot hn hun hm hcom) ?_
    simp only
    omega

omit hs in
/-- The slots of a consolidation spend their notes one after the other. -/
theorem SpendsSlots.moves {root owner : F} {nullifier : Fin 4 → F}
    {slot : Fin 4 → Option (Note F)}
    (hslot : ∀ j, SlotSpends E.circomlib root owner (nullifier j) (slot j))
    (hroot : s.tree.isKnownRoot root = true) {js : List (Fin 4)} {spent spent' : F → Bool}
    (h : SpendsSlots nullifier js spent spent') (hinv : NoteInv E.circomlib s.tree spent) :
    Moves E.circomlib s.tree spent s.tree spent'
        ((js.map fun j => slotBalance (slot j)).sum) 0 ∧
      ∀ j ∈ js, nullifier j ≠ 0 → spent' (nullifier j) = true := by
  induction h with
  | nil => exact ⟨moves_refl hinv, fun j hj => by cases hj⟩
  | @skip j js spent spent' hj _ ih =>
    have hnone : slotBalance (slot j) = 0 := by
      have hsj := hslot j
      cases hsl : slot j with
      | none => rfl
      | some n =>
        rw [hsl, hj] at hsj
        exact absurd hsj.opens.1.nullifier (n.nullifier_ne_zero hE.injective)
    obtain ⟨h1, h2⟩ := ih hinv
    refine ⟨?_, fun k hk hk0 => ?_⟩
    · rw [List.map_cons, List.sum_cons, hnone, Nat.zero_add]
      exact h1
    · rcases List.mem_cons.mp hk with rfl | hk
      · exact absurd hj hk0
      · exact h2 k hk hk0
  | @spend j js spent spent' hj hun hrest ih =>
    have hsj := hslot j
    cases hsl : slot j with
    | none =>
      rw [hsl] at hsj
      exact absurd hsj.eq_zero hj
    | some n =>
      rw [hsl] at hsj
      have hn := hsj.opens.1
      have hmem := hinv.mem_of_opens hE.injective hE.wide hroot hn
      have hun' := hun
      rw [← hn.nullifier] at hun'
      have h1 := moves_spend hinv hmem hun'
      rw [hn.nullifier] at h1
      obtain ⟨h2, h3⟩ := ih h1.inv
      refine ⟨?_, fun k hk hk0 => ?_⟩
      · rw [List.map_cons, List.sum_cons, hsl]
        exact h1.trans h2
      · rcases List.mem_cons.mp hk with rfl | hk
        · exact hrest.mono _ (Function.update_self ..)
        · exact h3 k hk hk0

theorem posts_consolidate {inputs : ConsolidatePublicInputs F}
    (h : consolidate E s proof inputs = .ok s') : Posts E s s' 0 0 := by
  have hk := keepsBets_consolidate h
  obtain ⟨hroot, h0, hun, hv, spent', r, t', hsp, hins, rfl⟩ := consolidate_ok h
  have hw : Consolidate E.circomlib inputs.merkleRoot
      ![inputs.nullifier 0, inputs.nullifier 1, inputs.nullifier 2, inputs.nullifier 3]
      inputs.newCommitment := hE.sound hv
  have hvec : ![inputs.nullifier 0, inputs.nullifier 1, inputs.nullifier 2, inputs.nullifier 3]
      = inputs.nullifier := by
    funext j
    fin_cases j <;> rfl
  rw [hvec] at hw
  obtain ⟨slot, n, m', owner, hslot, hslot0, hm, hcom, hbal⟩ := hw.sound hE.spec hE.wide
  have hn : n.Opens E.circomlib inputs.merkleRoot (inputs.nullifier 0) := by
    have hs0 := hslot 0
    rw [hslot0] at hs0
    exact hs0.opens.1
  obtain ⟨hmv, hall⟩ := SpendsSlots.moves hE hslot hroot hsp hs.notes
  have hfresh := hs.notes.fresh_next hE.injective hE.wide hm
    (by rw [hn.nullifier]; exact hun 0 h0)
  have hins' := moves_insert hmv.inv hE.injective hE.wide hm
    (by rw [hn.nullifier]; exact hall 0 (by simp) h0) hfresh (by rw [hcom]; exact hins)
  refine .of_moves hs hk (hmv.trans hins') ?_
  rw [Fin.sum_univ_four] at hbal
  simp only [List.map_cons, List.map_nil, List.sum_cons, List.sum_nil]
  omega

omit hE in
theorem posts_adminCancelBet {nullifierOfBet : F}
    (h : adminCancelBet m s nullifierOfBet = .ok s') : Posts E s s' 0 0 := by
  have hrw := rewritesBet_adminCancelBet h hs.bets
  obtain ⟨-, -, hst, rfl⟩ := adminCancelBet_ok h
  have hp := hrw.provisionalFees
  have ho := hrw.openStakes
  have hse := hrw.settledStakes
  have hold := openStake_of_open (s.betRecords nullifierOfBet) (.inl hst)
  have hnew := openStake_of_open
    { s.betRecords nullifierOfBet with status := .failed } (.inr (.inr rfl))
  simp only at hnew
  refine ⟨⟨hs.notes, hrw.betInv hs.bets⟩, ?_, fun _ => ?_, id⟩ <;>
  · unfold VaultState.books VaultState.notesValue
    simp only at *
    omega

omit hE in
theorem posts_withdrawFees {amount : ℕ} (h : withdrawFees E m s amount = .ok s') :
    Posts E s s' 0 amount := by
  have hk := keepsBets_withdrawFees h
  obtain ⟨hle, usdc', rfl⟩ := withdrawFees_ok h
  refine .of_moves hs hk (moves_refl hs.notes) ?_
  simp only
  omega

omit hE in
theorem posts_administrative {c : Call F Proof Sig} (hc : c.isAdministrative = true)
    (h : exec E m s c = .ok s') : Posts E s s' 0 0 := by
  have hk := keepsBets_administrative hc h
  obtain ⟨hb, -⟩ := administrative_ok hc h
  refine .of_moves hs hk (?_ : Moves _ _ _ _ _ 0 0) ?_
  · rw [hb.tree, hb.spent]
    exact moves_refl hs.notes
  · rw [hb.feeAccumulator]

/-- Every call posts its deposits and credits against its payouts. -/
theorem posts_exec {c : Call F Proof Sig} (h : exec E m s c = .ok s') :
    Posts E s s' (Executed.deposited ⟨s, m, c, s'⟩ + Executed.credited ⟨s, m, c, s'⟩)
      (Executed.paidOut ⟨s, m, c, s'⟩) := by
  by_cases hc : c.isAdministrative = true
  · have hp := posts_administrative hs hc h
    cases c <;> first | exact hp | cases hc
  · cases c <;> simp only [Call.isAdministrative, not_true_eq_false] at hc <;>
      simp only [exec] at h <;>
      simp only [Executed.deposited, Executed.credited, Executed.paidOut, Nat.zero_add,
        Nat.add_zero]
    case deposit => exact posts_deposit hE hs h
    case authorizeBet => exact posts_authorizeBet hE hs h
    case withdraw => exact posts_withdraw hE hs h
    case creditSettlement => exact posts_creditSettlement hE hs h
    case betCancellationCredit => exact posts_betCancellationCredit hE hs h
    case naCancellationCredit => exact posts_naCancellationCredit hE hs h
    case closePosition => exact posts_closePosition hE hs h
    case partialFillCredit => exact posts_partialFillCredit hE hs h
    case consolidate => exact posts_consolidate hE hs h
    case adminCancelBet => exact posts_adminCancelBet hs h
    case withdrawFees => exact posts_withdrawFees hs h

end Calls

/-! ## Every run -/

/-- The books of a chain, posted since the deployment. -/
structure ChainPosts (E : Env F Proof Sig) (ch : Chain F Proof Sig) : Prop where
  inv : BooksInv E ch.state
  le : ch.state.books E + total Executed.paidOut ch.trace
    ≤ total Executed.deposited ch.trace + total Executed.credited ch.trace
  eq : DistinctNullifiers E.circomlib ch.state.tree →
    ch.state.books E + total Executed.paidOut ch.trace
      = total Executed.deposited ch.trace + total Executed.credited ch.trace

theorem chainPosts_deploy {args : InitArgs} {s : VaultState F} (h : deploy E args = .ok s) :
    ChainPosts E ⟨s, []⟩ := by
  have hb := betInv_deploy h
  obtain rfl := deploy_ok E h
  have hzero : (initializeV2 (initialState E args)).books E = 0 := by
    simp [VaultState.books, VaultState.notesValue, poolValue, hiddenNotes, initializeV2,
      initialState, CommitmentMerkleTree.leaves, CommitmentMerkleTree.initializeTree,
      NotePool.value, VaultState.provisionalFees, VaultState.openStakes,
      VaultState.settledStakes, VaultState.bets, VaultState.betList]
  refine ⟨⟨noteInv_initial, hb⟩, ?_, fun _ => ?_⟩ <;>
  · rw [hzero]
    simp [total]

theorem chainPosts_runActions (hE : E.Ideal) {args : InitArgs} {s : VaultState F}
    (h : deploy E args = .ok s) (as : List (Action F Proof Sig)) :
    ChainPosts E (runActions E s as) := by
  refine extend_invariant E (chainPosts_deploy h) ?_ ?_ as
  · intro ch m c s' hch hx
    have hp := posts_exec hE hch.inv hx
    refine ⟨hp.inv, ?_, fun hd => ?_⟩
    · have h1 := hch.le
      have h2 := hp.le
      simp only [total_append]
      omega
    · have h1 := hch.eq (hp.distinct hd)
      have h2 := hp.eq hd
      simp only [total_append]
      omega
  · intro ch usdc ctf hch
    exact ⟨⟨hch.inv.notes, (keepsBets_world ..).betInv hch.inv.bets⟩, hch.le, hch.eq⟩

theorem deposit_available (hE : E.Ideal) {m : Msg} {s : VaultState F} (n : Note F)
    (hnonce : n.nonce = 0) (howner : n.owner = (m.sender.toNat : F)) (hpaused : s.paused = false)
    (hcap : s.cumulativeDeposits m.sender + n.balance ≤ depositCap)
    (hallow : n.balance ≤ s.usdc.allowance m.sender)
    (hbal : n.balance ≤ s.usdc.balanceOf m.sender) (hsender : m.sender ≠ 0) {xs : List F}
    (htree : CommitmentMerkleTree.Frontier E.circomlib.poseidon2 s.tree xs)
    (hroom : xs.length < 2 ^ treeDepth) :
    ∃ proof s', deposit E m s proof (n.commitment E.circomlib) n.balance = .ok s' := by
  have hw : HasWitness E.circomlib .deposit
      [n.commitment E.circomlib, (n.balance : F), (m.sender.toNat : F)] := by
    refine ⟨n.secret,
      (hE.spec.num2Bits_iff 64 (by decide) _).mpr ⟨n.balance, n.balance_lt, rfl⟩, ?_⟩
    rw [Note.commitment, hnonce, howner, Nat.cast_zero]
  obtain ⟨proof, hv⟩ := (hE.verify_iff _ _).mpr hw
  obtain ⟨t', ht, -⟩ := CommitmentMerkleTree.insert_frontier rootWindow htree hroom
    (n.commitment E.circomlib)
  have hlt : s.cumulativeDeposits m.sender + n.balance < 2 ^ 256 := by
    have : depositCap < 2 ^ 256 := by decide
    omega
  have hadd : checkedAdd256 (s.cumulativeDeposits m.sender) n.balance
      = .ok (s.cumulativeDeposits m.sender + n.balance) := if_pos hlt
  obtain ⟨usdc', hu⟩ := hE.token.transferFrom_succeeds hsender hE.vault_ne hbal hallow
  simp only [deposit, whenNotPaused, insertLeaf, safeTransferFrom_eq_ok, Except.bind_eq_ok,
    revertIf_eq_ok, Except.pure_eq_ok, exists_const, hpaused, hadd, hu, Except.ok.injEq,
    Option.some.injEq, exists_eq_left', Nat.not_lt, Bool.not_eq_false, Bool.false_eq_true,
    not_false_eq_true, true_and]
  exact ⟨proof, _, hcap, hv, _, by rw [ht], rfl⟩

/-! ## An environment as the theorem assumes it -/

/-- An injective hash into the positive rationals. -/
def encodePos {α : Type} [Encodable α] (x : α) : ℚ := ((Encodable.encode x + 1 : ℕ) : ℚ)

theorem encodePos_inj {α : Type} [Encodable α] {x y : α} (h : encodePos x = encodePos y) :
    x = y := by
  have h' : Encodable.encode x + 1 = Encodable.encode y + 1 := Nat.cast_injective h
  exact Encodable.encode_injective (by omega)

theorem encodePos_ne_zero {α : Type} [Encodable α] (x : α) : encodePos x ≠ 0 :=
  Nat.cast_ne_zero.mpr (Nat.succ_ne_zero _)

def encodingCircomlib : Circomlib ℚ where
  num2Bits n x := ∃ k < 2 ^ n, x = ((k : ℕ) : ℚ)
  lessThan _ a b out := out = if a < b then 1 else 0
  poseidon2 a b := encodePos (a, b)
  poseidon4 a b c d := encodePos (a, b, c, d)

open Classical in
/-- Verifiers that look for a witness, and signatures that name their signer. -/
noncomputable def encodingEnv : Env ℚ Unit (OperatorAttestation ℚ × Address) where
  circomlib := encodingCircomlib
  verify proofType _ inputs := decide (HasWitness encodingCircomlib proofType inputs)
  recover att sig := if sig.1 = att then some sig.2 else none
  token := plainErc20
  vault := 9

theorem encodingEnv_ideal : encodingEnv.Ideal where
  spec :=
    { num2Bits_iff := fun _ _ _ => Iff.rfl
      lessThan_iff := fun n _ a _ b _ out => by
        simp only [encodingEnv, encodingCircomlib, Nat.cast_lt] }
  wide := fun _ _ _ _ h => Nat.cast_injective h
  injective :=
    { poseidon2_inj := fun _ _ _ _ h => by
        have h' := encodePos_inj h
        simpa using h'
      poseidon2_ne_zero := fun _ _ => encodePos_ne_zero _
      poseidon4_inj := fun h => by
        have h' := encodePos_inj h
        simpa using h'
      poseidon4_ne_zero := fun _ _ _ _ => encodePos_ne_zero _ }
  token := plainErc20_spec
  vault_ne := by decide
  verify_iff := fun proofType inputs => by simp [encodingEnv]

def oneDollarArgs : InitArgs where
  usdc := ⟨fun _ => 1000000, fun _ => 1000000⟩
  ctf := ⟨fun _ _ => 0, fun _ => 0, fun _ => 0⟩
  signingLayerOperator := 1
  depositWallet := 2
  owner := 3

end Polyshield

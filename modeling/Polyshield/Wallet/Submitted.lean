import Polyshield.Wallet.App
import Polyshield.Wallet.Mirror

/-!
# What the pages submit

The operations of the app are those of its pages and flows: what the bet modal,
the withdraw page, a merge and the four credits submit is admitted, and what
they record is what the operation records.
-/

namespace Polyshield.Wallet

variable {F Proof Sig : Type} [Field F] {C : Circomlib F}

/-! ## Merges -/

section Merges

variable {ses : Session F Proof Sig} {notes : List (Note F)} {merged : Note F}

theorem consolidateNotes_ok (h : consolidateNotes C ses notes = .ok merged) :
    ∃ first others, notes = first :: others ∧ merged = mergedNote C ses first notes ∧
      (Operation.merge first others : Operation F Proof Sig).Admits C ses := by
  unfold consolidateNotes at h
  split at h
  case h_2 => cases h
  next first second others =>
    split at h
    · cases h
    next hlen =>
      obtain rfl := Except.ok.inj h
      refine ⟨first, second :: others, rfl, rfl, List.cons_ne_nil _ _, ?_⟩
      simp only [List.length_cons] at hlen ⊢
      omega

end Merges

/-! ## Bets -/

theorem BetModal.Places.admits {modal : BetModal F Proof Sig} {fc : FeeConfig} {b : Bet F}
    {ses : Session F Proof Sig} (h : modal.Places fc b) :
    (Operation.bet b : Operation F Proof Sig).Admits C ses := by
  have hpos := h.stake_pos
  have hcovers := h.covers
  have hfee : 0 ≤ b.fee := by
    rw [h.fee]
    positivity
  constructor
  · show 0 ≤ b.cashNote.balance - b.stake - b.fee
    omega
  · show b.cashNote.balance - b.stake - b.fee ≤ b.cashNote.balance
    omega

/-! ## Withdrawals -/

section Withdrawals

variable {page : WithdrawPage F Proof Sig} {hidden : F → Bool}
  {r : ReconcileReads F} {x : ℤ} {w : Withdrawal F}

theorem admits_withdrawFrom {consolidated : List (Note F)} {n : Note F} (hx : 0 < x)
    (hle : x ≤ n.balance) :
    (Operation.withdraw n (page.withdrawFrom consolidated n x).effectiveWithdrawal :
      Operation F Proof Sig).Admits C page.session := by
  have hcases := effectiveWithdrawal_cases page n hle
  constructor
  · show 0 ≤ page.effectiveWithdrawal n x
    rcases hcases with ⟨heq, -⟩ | ⟨heq, -⟩ <;> omega
  · show page.effectiveWithdrawal n x ≤ n.balance
    rcases hcases with ⟨heq, -⟩ | ⟨heq, -⟩ <;> omega

omit [Field F] in
theorem le_sumBalances_of_selected {cache : List (Note F)} {wallet : Address}
    {opts : SelectionOptions} {sel : NoteSelection F}
    (h : selectNotesForAmount cache hidden wallet x opts = .ok sel) :
    x ≤ sumBalances sel.notes := by
  rcases selectNotesForAmount_eq cache hidden wallet x opts with
    ⟨-, e, heq⟩ | ⟨-, e, heq⟩ | ⟨hge, heq⟩
  · cases heq.symm.trans h
  · cases heq.symm.trans h
  · obtain rfl := Except.ok.inj (heq.symm.trans h)
    exact hge.trans_eq (sumBalances_perm (slot0First_perm _ _)).symm

variable [DecidableEq F]

theorem WithdrawPage.submit_admits (h : page.submit C hidden r x = .withdrew w) :
    (Operation.withdraw w.spendNote w.effectiveWithdrawal : Operation F Proof Sig).Admits C
        page.session ∧
      (w.consolidated = [] ∨ consolidateNotes C page.session w.consolidated = .ok w.spendNote) := by
  unfold WithdrawPage.submit at h
  split at h
  · cases h
  next cashNote hc =>
    split at h
    case isFalse => cases h
    next hpass =>
      have hx : 0 < x := (page.passes_iff.mp hpass).1
      split at h
      next hle =>
        obtain rfl := SubmitOutcome.withdrew.inj h
        exact ⟨admits_withdrawFrom hx hle, .inl rfl⟩
      · split at h
        · cases h
        next selection hsel =>
          split at h
          · cases h
          next merged hmerged =>
            obtain rfl := SubmitOutcome.withdrew.inj h
            refine ⟨admits_withdrawFrom hx ?_, .inr hmerged⟩
            obtain ⟨first, others, -, rfl, -⟩ := consolidateNotes_ok hmerged
            exact le_sumBalances_of_selected hsel

theorem Withdrawal.record_eq {ses : Session F Proof Sig} {first : Note F} {others : List (Note F)}
    (hw : w.consolidated = first :: others) (hspend : w.spendNote = mergedNote C ses first
      (first :: others)) (cache : List (Note F)) :
    w.record C ses cache
      = (Operation.withdraw w.spendNote w.effectiveWithdrawal : Operation F Proof Sig).record C ses
        ((Operation.merge first others : Operation F Proof Sig).record C ses cache) := by
  obtain ⟨consolidated, spendNote, effectiveWithdrawal⟩ := w
  obtain rfl : consolidated = first :: others := hw
  obtain rfl : spendNote = mergedNote C ses first (first :: others) := hspend
  rfl

end Withdrawals

/-! ## Credits -/

section Credits

variable {ses : Session F Proof Sig} {receipt note : Note F}
  {sub : Submission F Proof Sig}

theorem secret_of_prepareCredit {type : ProofType} {marketId : Option F} {credit : ℤ}
    {p : Prepared F Proof} (h : prepareCredit C ses type note receipt marketId credit = some p) :
    p.secret = note.secret ses := by
  simp only [prepareCredit, Option.bind_eq_bind, Option.bind_eq_some_iff, Option.pure_def,
    Option.some.injEq] at h
  obtain ⟨merkle, -, proof, -, rfl⟩ := h
  rfl

theorem Submits.admits {type : ProofType} {marketId : Option F} {credit : ℤ}
    (h : Submits C ses receipt type marketId credit sub)
    (hsecret : sub.secret = sub.note.secret ses)
    (hpos : 0 ≤ credit) (hlt : credit < 2 ^ 128) :
    (Operation.credit sub receipt).Admits C ses := by
  refine ⟨⟨credit, hpos, hlt, h.newBalance⟩, hsecret, h.nullifier, ?_⟩
  rw [h.newCommitment, h.newBalance]

theorem settlePosition_admits {bet : ReadyToSettleBet F}
    (h : settlePosition C ses bet = .submit sub) :
    (Operation.credit sub bet.receipt).Admits C ses := by
  obtain ⟨inputs, record, hS, -, hu, -⟩ := settlePosition_submit h
  have hlt : bet.claimAmount < 2 ^ 64 := (Option.ite_none_right_eq_some.mp hu).1
  refine hS.admits ?_ (Int.natCast_nonneg _) (by omega)
  unfold settlePosition at h
  split at h
  · cases h
  · split at h
    · cases h
    · split at h
      · cases h
      · simp only at h
        split at h
        next p totalCredit hp hu =>
          obtain rfl := CreditOutcome.submit.inj h
          exact secret_of_prepareCredit hp
        · cases h

theorem finalizeClose_admits (h : finalizeClose C ses receipt = .submit sub) :
    (Operation.credit sub receipt).Admits C ses := by
  obtain ⟨inputs, record, a, hS, -⟩ := finalizeClose_submit h
  have hlt := a.att.amountB.toNat_lt
  refine hS.admits ?_ (Int.natCast_nonneg _) (by omega)
  unfold finalizeClose at h
  split at h
  · cases h
  · split at h
    · cases h
    · split at h
      · cases h
      · split at h
        · cases h
        · split at h
          · cases h
          · simp only at h
            split at h
            next p hp =>
              obtain rfl := CreditOutcome.submit.inj h
              exact secret_of_prepareCredit hp
            · cases h

theorem finalizePartialFill_admits (h : finalizePartialFill C ses receipt = .submit sub) :
    (Operation.credit sub receipt).Admits C ses := by
  obtain ⟨inputs, record, fee, a, hS, -⟩ := finalizePartialFill_submit h
  have hle := refundedFee_le fee.toNat record.betAmount.toNat a.att.amountB.toNat
  have hfee := fee.toNat_lt
  have hbet := record.betAmount.toNat_lt
  refine hS.admits ?_ (Int.natCast_nonneg _) (by omega)
  unfold finalizePartialFill at h
  split at h
  · cases h
  · split at h
    · cases h
    · split at h
      · cases h
      · split at h
        · cases h
        · split at h
          · cases h
          · cases h
          · simp only at h
            split at h
            next p hp =>
              obtain rfl := CreditOutcome.submit.inj h
              exact secret_of_prepareCredit hp
            · cases h

theorem creditFailedReclaim_admits {a : SignedAttestation F Sig}
    (h : creditFailedReclaim C ses receipt a = .submit sub) :
    (Operation.credit sub receipt).Admits C ses := by
  obtain ⟨inputs, record, fee, hS, -⟩ := creditFailedReclaim_submit h
  have hfee := fee.toNat_lt
  have hbet := record.betAmount.toNat_lt
  refine hS.admits ?_ (Int.natCast_nonneg _) (by omega)
  unfold creditFailedReclaim at h
  split at h
  · cases h
  · cases h
  · split at h
    · cases h
    · split at h
      · cases h
      · simp only at h
        split at h
        next p hp =>
          obtain rfl := CreditOutcome.submit.inj h
          exact secret_of_prepareCredit hp
        · cases h

end Credits

end Polyshield.Wallet

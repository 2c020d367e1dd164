import Polyshield.Vault.CanBeCredited
import Polyshield.Wallet.ReplayState

/-!
# The replay of a lineage follows each call

Each call of the Vault takes the state and the replay of a lineage, which says
what the state is, to the next state and to the replay over the events that the
call logs. Consolidations, which read the balances of other lineages, are left to
`Wallet.ReplayRun`.
-/

namespace Polyshield.Wallet

open Merkle CommitmentMerkleTree

variable {F Proof Sig : Type} [Field F] [DecidableEq F] {C : Circomlib F} {E : Env F Proof Sig}

/-- A replay takes no notice of the withdrawals to other addresses. -/
def replayLog (C : Circomlib F) (ctx : ReplayContext F) (r : Replay F) (e : Event F) : Replay F :=
  if (replayKind ctx.address e).isSome then replayEvent C ctx r e else r

/-- A replay of the lineage says what the state is. -/
structure Follows (C : Circomlib F) (s : VaultState F) (address : Address) (l : Lineage F)
    (queue : F → List Sale) (r : Replay F) : Prop where
  current : Current C s address l r.state
  receipts : Receipts C s l r
  sales : Sales C s l queue r

section Steps

variable {ctx : ReplayContext F} {s s' : VaultState F} {l : Lineage F} {queue : F → List Sale}
  {r : Replay F}

omit [DecidableEq F] in
theorem spends_eq_false [DecidableEq F] {address : Address} (hI : C.Injective)
    (h : Current C s address l r.state) {n : Polyshield.Note F} (hsec : n.secret ≠ l.secret)
    {x : F} (hx : n.nullifier C = x) : r.spends x = false := by
  subst hx
  simp [Replay.spends, h.not_owns_of_ne hI hsec]

theorem Follows.frame (h : Follows C s ctx.address l queue r)
    (hcurrent : Current C s' ctx.address l r.state)
    (hlist : ∀ x, l.Owns C x → (x ∈ s'.betList ↔ x ∈ s.betList))
    (hshows : ∀ x, l.Owns C x → ∀ rc : Receipt F, rc.Shows (s.bet x) → rc.Shows (s'.bet x))
    {events : List (Event F)} (hlogs : s'.logs = s.logs ++ events)
    (hsales : ∀ b, l.Owns C b → events.filterMap (saleOf b) = []) :
    Follows C s' ctx.address l queue r :=
  ⟨hcurrent, h.receipts.frame hlist hshows, h.sales.frame hlogs hsales rfl⟩

def isConsolidation : Event F → Bool
  | .consolidated .. => true
  | _ => false

omit [Field F] in
theorem saleOf_administrative {e : Event F} (he : e.isAdministrative = true) (b : F) :
    saleOf b e = none := by
  cases e <;> first | rfl | cases he

omit [Field F] [DecidableEq F] in
theorem isConsolidation_administrative {e : Event F} (he : e.isAdministrative = true) :
    isConsolidation e = false := by
  cases e <;> first | rfl | cases he

theorem replayLog_administrative {e : Event F} (he : e.isAdministrative = true) :
    replayLog C ctx r e = r := by
  cases e <;> first | rfl | cases he

theorem foldl_administrative {events : List (Event F)}
    (he : ∀ e ∈ events, e.isAdministrative = true) :
    events.foldl (replayLog C ctx) r = r := by
  induction events with
  | nil => rfl
  | cons e events ih =>
    rw [List.foldl_cons, replayLog_administrative (he e (by simp))]
    exact ih fun x hx => he x (List.mem_cons_of_mem e hx)

/-- A call that moves no note and no bet, and logs nothing that is replayed. -/
theorem Follows.quiet (h : Follows C s ctx.address l queue r) (htree : s'.tree = s.tree)
    (hspent : s'.spent = s.spent) (hk : KeepsBets s s') {events : List (Event F)}
    (hlogs : s'.logs = s.logs ++ events) (he : ∀ e ∈ events, e.isAdministrative = true) :
    Follows C s' ctx.address l queue (events.foldl (replayLog C ctx) r) := by
  rw [foldl_administrative he]
  refine h.frame (h.current.frame [] (by rw [htree, List.append_nil]) (by simp) (.inl rfl)
    (by rw [hspent]; exact h.current.spent)) (fun x _ => by rw [hk.betList])
    (fun x _ rc hrc => by rw [hk.bet]; exact hrc) hlogs fun b _ => ?_
  exact List.filterMap_eq_nil_iff.mpr fun e hmem => saleOf_administrative (he e hmem) b

/-- The replay of what a call logs says what the next state is. The call is no consolidation, so
the replay records no balance. -/
def FollowsCall (C : Circomlib F) (ctx : ReplayContext F) (l : Lineage F) (queue : F → List Sale)
    (r : Replay F) (s s' : VaultState F) : Prop :=
  ∃ events, s'.logs = s.logs ++ events ∧ (∀ e ∈ events, isConsolidation e = false) ∧
    Follows C s' ctx.address l queue (events.foldl (replayLog C ctx) r) ∧
    (events.foldl (replayLog C ctx) r).balanceByNullifier = r.balanceByNullifier

/-- The note that a call spends is the current one, if it is of the lineage. -/
theorem Follows.spends {ch : Chain F Proof Sig} (hch : NotesHistory E ch)
    (h : Follows E.circomlib ch.state ctx.address l queue r) {n : Polyshield.Note F}
    {next : Option (Polyshield.Note F)} (hn : Advances E.circomlib ch.state s' n next)
    (hsec : n.secret = l.secret) {x : F} (hx : n.nullifier E.circomlib = x) :
    r.spends x = true ∧ r.state.balance = n.balance ∧ n.owner = (ctx.address.toNat : F) := by
  obtain ⟨-, hnul, hst, hbal, howner, -⟩ := h.current.of_unspent hch hn.mem hsec hn.unspent
  exact ⟨by simp [Replay.spends, ← hx, hnul, hst], hbal, howner⟩

/-! ## A credit -/

/-- What a replay makes of a credit of the lineage: the receipt of the bet is updated, the current
note spent, and the next one has the given balance. -/
structure CreditReplay (C : Circomlib F) (ctx : ReplayContext F) (s' : VaultState F) (l : Lineage F)
    (queue : F → List Sale) (i : BetCancelPublicInputs F) (r r' r₀ : Replay F)
    (f : Receipt F → Receipt F) (kind : NoteKind) (balance : ℤ) : Prop where
  eq : r' = ((r₀.updateReceipt i.nullifierOfBet f).spendState ctx.version).advance C kind balance
    i.newCommitment
  state : r₀.state = r.state
  recovered : r₀.recovered = r.recovered
  receiptByBetNullifier : r₀.receiptByBetNullifier = r.receiptByBetNullifier
  balanceByNullifier : r₀.balanceByNullifier = r.balanceByNullifier
  sales : ∀ x : Replay F, x.soldByBet = r₀.soldByBet → Sales C s' l queue x
  bet : ∀ rc : Receipt F, (f rc).nullifierOfBet = rc.nullifierOfBet

section Credit

variable {ch : Chain F Proof Sig} (hE : E.Ideal) (hch : NotesHistory E ch)
  (h : Follows E.circomlib ch.state ctx.address l queue r) {i : BetCancelPublicInputs F}
  {record' : BetRecord F} {fee' : UInt64} {acc' : ℕ} {events : List (Event F)}
  (hcr : Credits E ch.state s' i record' fee' acc' events)
  (he : events.filterMap Event.createdBet? = []) {amount : UInt64}
  (hw : CreditTemplate E.circomlib i.merkleRoot i.nullifier i.newCommitment i.nullifierOfBet
    (u64 amount))

include hE hch h hcr he hw

/-- A credit is another lineage's, which the replay ignores, or the lineage's own. -/
theorem followsCall_credit
    (hcons : ∀ e ∈ events, isConsolidation e = false)
    (hsales : ∀ b, b ≠ i.nullifierOfBet → events.filterMap (saleOf b) = [])
    (hignored : r.spends i.nullifier = false → events.foldl (replayLog E.circomlib ctx) r = r)
    (hreplay : ∀ rc, l.Owns E.circomlib i.nullifierOfBet → r.spends i.nullifier = true →
      r.receipt? i.nullifierOfBet = some rc → rc.Shows (ch.state.bet i.nullifierOfBet) →
      ∃ r₀ f kind, CreditReplay E.circomlib ctx s' l queue i r
          (events.foldl (replayLog E.circomlib ctx) r) r₀ f kind (r.state.balance + amount.toNat) ∧
        ∀ rc : Receipt F, rc.Shows (ch.state.bet i.nullifierOfBet) →
          (f rc).Shows ⟨record', fee'⟩) :
    FollowsCall E.circomlib ctx l queue r ch.state s' := by
  obtain ⟨n, next, hn, hnul, hcom, hbal, k, -, hbet⟩ := hcr.advances hE hch.books hw
  have hrw := hcr.rewritesBet hch.books.bets he
  refine ⟨events, hcr.logs, hcons, ?_⟩
  by_cases hsec : n.secret = l.secret
  · obtain ⟨hspends, hold, -⟩ := h.spends hch hn hsec hnul
    have hown : l.Owns E.circomlib i.nullifierOfBet := ⟨k, by rw [← hbet, hsec]; rfl⟩
    obtain ⟨rc, hrc, hshown⟩ := h.receipts.receipt?
      (List.mem_toFinset.mp (hch.books.bets.mem_of_found hcr.found)) hown
    obtain ⟨r₀, f, kind, hr, hshows⟩ := hreplay rc hown hspends hrc hshown
    have hnext := h.current.advances hE hch hn hsec kind
    have hupd : Receipts E.circomlib s' l (r₀.updateReceipt i.nullifierOfBet f) :=
      (h.receipts.of_eq hr.recovered hr.receiptByBetNullifier).updateReceipt hrw.betList
        (fun x hx => hrw.bet_of_ne hx.symm) hr.bet (by rw [hrw.bet_self]; exact hshows)
    rw [hr.eq]
    refine ⟨⟨?_, (hupd.spendState ctx.version).of_eq rfl rfl, hr.sales _ (by simp)⟩, ?_⟩
    · rw [hold, ← Nat.cast_add, ← hbal, ← hcom]
      simpa only [Replay.advance, Replay.state_spendState, Replay.state_updateReceipt, hr.state,
        ChainNoteState.next] using hnext
    · simp [hr.balanceByNullifier]
  · have hbet' : ¬l.Owns E.circomlib i.nullifierOfBet := by
      rw [← hbet]
      exact not_owns hE.injective hsec
    have hne : ∀ x, l.Owns E.circomlib x → x ≠ i.nullifierOfBet := fun x hx heq =>
      hbet' (heq ▸ hx)
    rw [hignored (spends_eq_false hE.injective h.current hsec hnul)]
    refine ⟨h.frame (h.current.advances_other hE.injective hn hsec)
      (fun x _ => by rw [hrw.betList]) (fun x hx rc hrc => ?_) hcr.logs
      (fun b hb => hsales b (hne b hb)), rfl⟩
    rw [hrw.bet_of_ne (hne x hx).symm]
    exact hrc

end Credit

section Credits

variable {ch : Chain F Proof Sig} (hE : E.Ideal) (hch : NotesHistory E ch)
  (h : Follows E.circomlib ch.state ctx.address l queue r) {proof : Proof}
  {att : OperatorAttestation F} {sig : Sig}

include hE hch h

theorem followsCall_creditSettlement {inputs : SettlementPublicInputs F}
    (hx : creditSettlement E ch.state proof inputs att sig = .ok s')
    (hreads : ReadsVault ctx.client ch.state)
    (hpays : l.Owns E.circomlib inputs.nullifierOfBet →
      PaysAsReplayed ch.state inputs.nullifierOfBet) :
    FollowsCall E.circomlib ctx l queue r ch.state s' := by
  obtain ⟨hcr, ho, hmarket, hres, hcredit, hv⟩ := creditSettlement_ok hx
  refine followsCall_credit hE hch h hcr rfl (hE.sound hv) (by simp [isConsolidation])
    (fun _ _ => rfl) (fun hspends => ?_) fun rc hown hspends hrc hshown => ?_
  · simp only [SettlementPublicInputs.core] at hspends
    simp [replayLog, replayKind, replayEvent, hspends]
  · have hopen : ¬(ch.state.betRecords inputs.nullifierOfBet).status.Terminal := by
      rcases ho with ho | ⟨ho, -⟩
      · rw [List.mem_singleton.mp ho]
        exact not_terminal_filled
      · rw [ho]
        exact not_terminal_active
    have hbalance := balanceAfterCredit_settle ctx r.state inputs.newCommitment hshown hopen
      (hpays hown) (hreads.payouts _ _ (hmarket ▸ hres))
    simp only [SettlementPublicInputs.core] at hspends hrc hbalance
    rw [hmarket, ← hcredit] at hbalance
    refine ⟨r, fun rc => { rc with spent := true }, .settleCredit, ⟨?_, rfl, rfl, rfl, rfl,
      fun x hx => h.sales.frame hcr.logs (fun _ _ => rfl) hx, fun _ => rfl⟩,
      fun rc hrc => hrc.ended terminal_credited⟩
    simp [replayLog, replayKind, replayEvent, hspends, replayCredit, hrc, hbalance,
      SettlementPublicInputs.core]

theorem followsCall_betCancellationCredit {inputs : BetCancelPublicInputs F}
    (hx : betCancellationCredit E ch.state proof inputs att sig = .ok s') :
    FollowsCall E.circomlib ctx l queue r ch.state s' := by
  obtain ⟨hcr, ho, refund, hrefund, hv⟩ := betCancellationCredit_ok hx
  refine followsCall_credit hE hch h hcr rfl (hE.sound hv) (by simp [isConsolidation])
    (fun _ _ => rfl) (fun hspends => ?_) fun rc hown hspends hrc hshown => ?_
  · simp [replayLog, replayKind, replayEvent, hspends]
  · have hst : (ch.state.betRecords inputs.nullifierOfBet).status = .active ∨
        (ch.state.betRecords inputs.nullifierOfBet).status = .failed := by
      rcases ho with ho | ⟨ho, -⟩
      · exact .inr (List.mem_singleton.mp ho)
      · exact .inl ho
    have hbalance := balanceAfterCredit_cancel ctx r.state inputs.newCommitment hshown hst
    rw [← hrefund] at hbalance
    refine ⟨r, fun rc => { rc with spent := true }, .cancelCredit, ⟨?_, rfl, rfl, rfl, rfl,
      fun x hx => h.sales.frame hcr.logs (fun _ _ => rfl) hx, fun _ => rfl⟩,
      fun rc hrc => hrc.ended terminal_cancelledCredited⟩
    simp [replayLog, replayKind, replayEvent, hspends, replayCredit, hrc, hbalance]

theorem followsCall_naCancellationCredit {inputs : NACancelPublicInputs F}
    (hx : naCancellationCredit E ch.state proof inputs att sig = .ok s') :
    FollowsCall E.circomlib ctx l queue r ch.state s' := by
  obtain ⟨hcr, ho, -, hv⟩ := naCancellationCredit_ok hx
  refine followsCall_credit hE hch h hcr rfl (hE.sound hv) (by simp [isConsolidation])
    (fun _ _ => rfl) (fun hspends => ?_) fun rc hown hspends hrc hshown => ?_
  · simp only [NACancelPublicInputs.core] at hspends
    simp [replayLog, replayKind, replayEvent, hspends]
  · have hbalance := balanceAfterCredit_naCancel ctx r.state inputs.newCommitment hshown
    simp only [NACancelPublicInputs.core] at hspends hrc hbalance
    refine ⟨r, fun rc => { rc with spent := true }, .cancelCredit, ⟨?_, rfl, rfl, rfl, rfl,
      fun x hx => h.sales.frame hcr.logs (fun _ _ => rfl) hx, fun _ => rfl⟩,
      fun rc hrc => hrc.ended terminal_cancelledCredited⟩
    simp [replayLog, replayKind, replayEvent, hspends, replayCredit, hrc, hbalance,
      NACancelPublicInputs.core]

theorem followsCall_closePosition {inputs : ClosePublicInputs F}
    (hx : closePosition E ch.state proof inputs att sig = .ok s')
    (hqueue : l.Owns E.circomlib inputs.nullifierOfBet →
      s'.logs.filterMap (saleOf inputs.nullifierOfBet) <+: queue inputs.nullifierOfBet) :
    FollowsCall E.circomlib ctx l queue r ch.state s' := by
  obtain ⟨delta, credit, hcr, hst, -, hlo, hhi, -, -, -, hdelta, hv⟩ := closePosition_ok hx
  have hsales : ∀ b, b ≠ inputs.nullifierOfBet →
      [Event.betSold inputs.nullifierOfBet delta credit,
        Event.positionClosed inputs.nullifier inputs.nullifierOfBet inputs.newCommitment
          (decide (att.amountA
            = (ch.state.betRecords inputs.nullifierOfBet).expectedShares))].filterMap
        (saleOf b) = [] := fun b hb => by
    simp [saleOf, hb.symm]
  refine followsCall_credit hE hch h hcr rfl (hE.sound hv) (by simp [isConsolidation])
    hsales (fun hspends => ?_) fun rc hown hspends hrc hshown => ?_
  · simp [replayLog, replayKind, replayEvent, hspends]
  · obtain ⟨hhead, hshift⟩ := h.sales.shift ⟨credit.toNat, delta.toNat⟩ hown hcr.logs
      (by simp [saleOf]) hsales (hqueue hown)
    refine ⟨r.shiftSale inputs.nullifierOfBet, Receipt.close
      (decide (att.amountA = (ch.state.betRecords inputs.nullifierOfBet).expectedShares))
      (some ⟨credit.toNat, delta.toNat⟩), .settleCredit, ⟨?_, rfl, rfl, rfl, rfl, hshift,
        fun rc => ?_⟩, fun rc hrc => ?_⟩
    · simp [replayLog, replayKind, replayEvent, hspends, replayClose, hhead]
    · simp only [Receipt.close]
      split <;> rfl
    · refine hrc.close hst hhi ?_
      simp only [VaultState.bet]
      exact_mod_cast hdelta

theorem followsCall_partialFillCredit {inputs : PartialFillPublicInputs F}
    (hx : partialFillCredit E ch.state proof inputs att sig = .ok s')
    (hreads : ReadsVault ctx.client s') : FollowsCall E.circomlib ctx l queue r ch.state s' := by
  obtain ⟨hcr, hst, -, -, -, -, hq, refund, hrefund, hv⟩ := partialFillCredit_ok hx
  refine followsCall_credit hE hch h hcr rfl (hE.sound hv) (by simp [isConsolidation])
    (fun _ _ => rfl) (fun hspends => ?_) fun rc hown hspends hrc hshown => ?_
  · simp [replayLog, replayKind, replayEvent, hspends]
  · have hnew : s'.betRecords inputs.nullifierOfBet
        = normalizedRecord (ch.state.betRecords inputs.nullifierOfBet) att.amountA att.amountB := by
      obtain ⟨t', -, rfl⟩ := hcr.effect
      exact Function.update_self ..
    obtain ⟨record, hrecord, hshares, hstake⟩ := hreads.records inputs.nullifierOfBet (by
      rw [hnew]
      simp [normalizedRecord])
    rw [hnew] at hshares hstake
    have hbalance := balanceAfterPartial_eq ctx r.state inputs.newCommitment hshown hst hq hstake
    rw [← hrefund] at hbalance
    refine ⟨r, Receipt.normalize (some record), .cancelCredit, ⟨?_, rfl, rfl, rfl, rfl,
      fun x hx => h.sales.frame hcr.logs (fun _ _ => rfl) hx, fun _ => rfl⟩,
      fun rc hrc => hrc.partialFill hst hshares hstake⟩
    simp [replayLog, replayKind, replayEvent, hspends, replayPartial, hrc, hrecord, hbalance]

end Credits

/-! ## The other calls -/

section Others

variable {ch : Chain F Proof Sig} (hE : E.Ideal) (hch : NotesHistory E ch)
  (h : Follows E.circomlib ch.state ctx.address l queue r) {m : Msg} {proof : Proof}

include hE hch h

theorem followsCall_authorizeBet {inputs : BetAuthPublicInputs F}
    (hx : authorizeBet E m ch.state proof inputs = .ok s') :
    FollowsCall E.circomlib ctx l queue r ch.state s' := by
  have hcreates := createsBet_authorizeBet hx
  obtain ⟨n, next, hn, hnul, hcom, hbal⟩ := advances_authorizeBet hE hch.books hx
  have hlogs : s'.logs = ch.state.logs ++ [.betAuthorized inputs.nullifier inputs.marketId
      inputs.positionId inputs.expectedShares inputs.betAmount.toNat inputs.price
      inputs.outcomeSide inputs.newCommitment (protocolFeeOf ch.state.feeConfig inputs.betAmount)
      ch.state.feeConfig.relayGasFeeUSDC] := by
    obtain ⟨-, -, fee, -, -, t', -, rfl⟩ := authorizeBet_ok hx
    rfl
  refine ⟨_, hlogs, by simp [isConsolidation], ?_⟩
  by_cases hsec : n.secret = l.secret
  · obtain ⟨hspends, hold, -⟩ := h.spends hch hn hsec hnul
    have hnext := h.current.advances hE hch hn hsec .betOutput
    have hbalance : r.state.balance - inputs.betAmount.toNat
        - (protocolFeeOf ch.state.feeConfig inputs.betAmount).toNat
        - ch.state.feeConfig.relayGasFeeUSDC.toNat = next.balance := by
      rw [hold]
      omega
    simp only [List.foldl_cons, List.foldl_nil, replayLog, replayKind, Option.isSome_some,
      ↓reduceIte, replayEvent, hspends]
    refine ⟨⟨?_, ?_, h.sales.frame hlogs (fun _ _ => rfl) (by simp [replayBet])⟩,
      by simp [replayBet]⟩
    · simpa [replayBet, Replay.advance, balanceAfterBet, hbalance, ← hcom, ChainNoteState.next]
        using hnext
    · refine ((h.receipts.spendState ctx.version).pushReceipt hcreates.betList ?_ ?_
        (fun x hx => hcreates.bet_of_ne hx.symm) ?_).of_eq rfl rfl
      · exact fun hmem => hcreates.not_mem hch.books.bets (List.mem_toFinset.mpr hmem)
      · rw [← hnul]
        exact owns_nullifier hsec
      · simp only [hcreates.bet_self]
        refine ⟨rfl, rfl, rfl, by simp [BetAuthPublicInputs.record, not_terminal_active],
          fun _ => by simp [BetAuthPublicInputs.record],
          fun _ => ⟨rfl, rfl⟩, UInt64.zero_le, fun h0 => ?_⟩
        simp only [BetAuthPublicInputs.record] at h0
        simp [protocolFeeOf, h0]
  · have hspends := spends_eq_false hE.injective h.current hsec hnul
    have hnot : ¬l.Owns E.circomlib inputs.nullifier := by
      rw [← hnul]
      exact not_owns hE.injective hsec
    simp only [List.foldl_cons, List.foldl_nil, replayLog, replayKind, Option.isSome_some,
      ↓reduceIte, replayEvent, hspends, Bool.false_eq_true]
    refine ⟨h.frame (h.current.advances_other hE.injective hn hsec) (fun x hx => ?_)
      (fun x hx rc hrc => ?_) hlogs (fun _ _ => rfl), trivial⟩
    · have hne : x ≠ inputs.nullifier := fun heq => hnot (heq ▸ hx)
      simp [hcreates.betList, hne]
    · rw [hcreates.bet_of_ne fun heq => hnot (heq ▸ hx)]
      exact hrc

theorem followsCall_withdraw {inputs : WithdrawalPublicInputs F} {recipientAddress : Address}
    (hx : withdraw E ch.state proof inputs recipientAddress = .ok s') :
    FollowsCall E.circomlib ctx l queue r ch.state s' := by
  have hk := keepsBets_withdraw hx
  obtain ⟨n, next, hn, hnul, howner, hout⟩ := advances_withdraw hE hch.books hx
  have hlogs : s'.logs = ch.state.logs ++ [.withdrawn inputs.nullifier recipientAddress
      inputs.withdrawalAmount.toNat inputs.newCommitment] := by
    obtain ⟨-, -, -, -, -, t', usdc', -, rfl⟩ := withdraw_ok hx
    rfl
  have hreceipts : Receipts E.circomlib s' l r :=
    h.receipts.frame (fun x _ => by rw [hk.betList]) fun x _ rc hrc => by rw [hk.bet]; exact hrc
  refine ⟨_, hlogs, by simp [isConsolidation], ?_⟩
  by_cases hsec : n.secret = l.secret
  · obtain ⟨hspends, hold, haddr⟩ := h.spends hch hn hsec hnul
    -- The circuit binds the recipient to the owner of the note.
    have hrecipient : recipientAddress = ctx.address :=
      BitVec.eq_of_toNat_eq (hE.wide.eq (recipientAddress.isLt.trans (by decide))
        (ctx.address.isLt.trans (by decide)) (howner.symm.trans haddr))
    simp only [List.foldl_cons, List.foldl_nil, replayLog, replayKind, hrecipient,
      Option.isSome_some, ↓reduceIte, replayEvent, hspends, replayWithdraw]
    cases next with
    | none =>
      obtain ⟨h0, -⟩ := hout
      rw [if_pos h0]
      refine ⟨⟨?_, (hreceipts.spendState ctx.version).of_eq rfl rfl,
        h.sales.frame hlogs (fun _ _ => rfl) rfl⟩, rfl⟩
      refine h.current.frame [] hn.hidden (by simp) (.inr ⟨0, rfl⟩) ?_
      rw [hn.spent, ← (h.current.of_unspent hch hn.mem hsec hn.unspent).2.1, Function.update_self]
    | some next =>
      obtain ⟨hcom, hbal⟩ := hout
      have hne : inputs.newCommitment ≠ 0 := by
        rw [← hcom]
        exact next.commitment_ne_zero hE.injective
      have hbalance : r.state.balance - inputs.withdrawalAmount.toNat = next.balance := by
        rw [hold]
        omega
      have hnext := h.current.advances hE hch hn hsec .betOutput
      rw [if_neg hne]
      refine ⟨⟨?_, (hreceipts.spendState ctx.version).of_eq rfl rfl,
        h.sales.frame hlogs (fun _ _ => rfl) rfl⟩, rfl⟩
      simpa [Replay.advance, hbalance, ← hcom, ChainNoteState.next] using hnext
  · have hspends := spends_eq_false hE.injective h.current hsec hnul
    have hsame : replayLog E.circomlib ctx r (.withdrawn inputs.nullifier recipientAddress
        inputs.withdrawalAmount.toNat inputs.newCommitment) = r := by
      simp [replayLog, replayEvent, hspends]
    simp only [List.foldl_cons, List.foldl_nil, hsame]
    exact ⟨⟨h.current.advances_other hE.injective hn hsec, hreceipts,
      h.sales.frame hlogs (fun _ _ => rfl) rfl⟩, trivial⟩

theorem followsCall_deposit {commitment : F} {amount : ℕ}
    (hx : deposit E m ch.state proof commitment amount = .ok s')
    (hown : OwnDeposit E.circomlib s' ctx.address l) :
    FollowsCall E.circomlib ctx l queue r ch.state s' := by
  have hk := keepsBets_deposit hx
  obtain ⟨n, hn, -⟩ := starts_deposit hE hch.books hx
  obtain ⟨-, -, _, t', usdc', -, rfl⟩ := deposit_ok hx
  exact ⟨_, rfl, by simp [isConsolidation], ⟨h.current.starts hn hown,
    h.receipts.frame (fun x _ => by rw [hk.betList])
      (fun x _ rc hrc => by rw [hk.bet]; exact hrc), h.sales.frame rfl (fun _ _ => rfl) rfl⟩, rfl⟩

omit hE in
theorem followsCall_adminCancelBet {b : F} (hx : adminCancelBet m ch.state b = .ok s') :
    FollowsCall E.circomlib ctx l queue r ch.state s' := by
  have hrw := rewritesBet_adminCancelBet hx hch.books.bets
  obtain ⟨-, -, hst, rfl⟩ := adminCancelBet_ok hx
  refine ⟨_, rfl, by simp [isConsolidation], h.frame ⟨h.current.depositIndex, h.current.secret,
    h.current.nullifier, h.current.note, h.current.latest, h.current.present,
    h.current.first, h.current.spent⟩ (fun x _ => by rw [hrw.betList]) (fun x _ rc hrc => ?_) rfl
    (fun _ _ => rfl), rfl⟩
  by_cases hxb : b = x
  · subst hxb
    rw [hrw.bet_self]
    exact hrc.cancelled hst
  · rw [hrw.bet_of_ne hxb]
    exact hrc

omit hE hch in
theorem followsCall_withdrawFees {amount : ℕ} (hx : withdrawFees E m ch.state amount = .ok s') :
    FollowsCall E.circomlib ctx l queue r ch.state s' := by
  have hk := keepsBets_withdrawFees hx
  obtain ⟨htree, hspent, hlogs⟩ : s'.tree = ch.state.tree ∧ s'.spent = ch.state.spent ∧
      s'.logs = ch.state.logs ++ [.feesWithdrawn m.sender amount] := by
    obtain ⟨-, usdc', rfl⟩ := withdrawFees_ok hx
    exact ⟨rfl, rfl, rfl⟩
  have he : ∀ e ∈ [(Event.feesWithdrawn m.sender amount : Event F)], e.isAdministrative = true := by
    simp [Event.isAdministrative]
  exact ⟨_, hlogs, by simp [isConsolidation], h.quiet htree hspent hk hlogs he,
    by rw [foldl_administrative he]⟩

omit hE hch in
theorem followsCall_administrative {c : Call F Proof Sig} (hc : c.isAdministrative = true)
    (hx : exec E m ch.state c = .ok s') :
    FollowsCall E.circomlib ctx l queue r ch.state s' := by
  have hk := keepsBets_administrative hc hx
  obtain ⟨hb, -⟩ := administrative_ok hc hx
  obtain ⟨events, hlogs, he⟩ := administrative_logs hc hx
  exact ⟨events, hlogs, fun e hmem => isConsolidation_administrative (he e hmem),
    h.quiet hb.tree hb.spent hk hlogs he, by rw [foldl_administrative he]⟩

end Others

end Steps

end Polyshield.Wallet

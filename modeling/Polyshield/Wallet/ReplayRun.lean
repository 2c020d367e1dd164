import Polyshield.Wallet.ReplaySteps

/-!
# The replay of a lineage follows every run

A consolidation spends the current note of each lineage it merges, and the
lineage of its first slot goes on with the sum of their balances. The final pass
takes that sum from what it has recorded; the discovery pass stops there. So in
every run the final replay of a lineage says what the state is, where the
balances of what is merged into it are known, and the discovery replay records
the true balance of what is spent before the lineage is merged into.
-/

namespace Polyshield.Wallet

open Merkle CommitmentMerkleTree

variable {F Proof Sig : Type} [Field F] [DecidableEq F] {C : Circomlib F} {E : Env F Proof Sig}

/-! ## The recorded balances -/

/-- A replay records the balances of notes of its lineage, and leaves the others. -/
def Recorded (C : Circomlib F) (s : VaultState F) (l : Lineage F) (known : F → Option ℤ)
    (balances : F → Option ℤ) : Prop :=
  ∀ x, balances x = known x ∨ l.Owns C x ∧ ∃ n ∈ hiddenNotes C s.tree, n.nullifier C = x ∧
    balances x = some (n.balance : ℤ)

/-- The recorded balances are those of the notes. -/
def TrueBalances (C : Circomlib F) (s : VaultState F) (balances : F → Option ℤ) : Prop :=
  ∀ n ∈ hiddenNotes C s.tree, ∀ b, balances (n.nullifier C) = some b → b = n.balance

section Recorded

variable {s s' : VaultState F} {l : Lineage F} {known balances : F → Option ℤ}

omit [DecidableEq F] in
theorem Recorded.mono (h : Recorded C s l known balances) {ms : List (Polyshield.Note F)}
    (hhidden : hiddenNotes C s'.tree = hiddenNotes C s.tree ++ ms) :
    Recorded C s' l known balances := fun x => by
  refine (h x).imp_right fun ⟨hown, n, hn, hx⟩ => ⟨hown, n, ?_, hx⟩
  rw [hhidden]
  exact List.mem_append_left _ hn

omit [DecidableEq F] in
theorem Recorded.isSome (h : Recorded C s l known balances) {x : F} (hx : (known x).isSome) :
    (balances x).isSome := by
  rcases h x with heq | ⟨-, n, -, -, hbal⟩
  · rwa [heq]
  · rw [hbal]
    rfl

omit [DecidableEq F] in
theorem TrueBalances.before (h : TrueBalances C s' balances) {ms : List (Polyshield.Note F)}
    (hhidden : hiddenNotes C s'.tree = hiddenNotes C s.tree ++ ms) :
    TrueBalances C s balances := fun n hn => h n (by rw [hhidden]; exact List.mem_append_left _ hn)

theorem Recorded.record (h : Recorded C s l known balances) {n : Polyshield.Note F}
    (hn : n ∈ hiddenNotes C s.tree) (hsec : n.secret = l.secret) :
    Recorded C s l known
      (Function.update balances (n.nullifier C) (some (n.balance : ℤ))) := fun x => by
  rw [Function.update_apply]
  split
  next hx => exact .inr ⟨hx ▸ owns_nullifier hsec, n, hn, hx.symm, rfl⟩
  next => exact h x

omit [DecidableEq F] in
/-- What is recorded after a replay is true, if what was known before it is. -/
theorem Recorded.true (hI : C.Injective) (hF : Wide F) (h : Recorded C s l known balances)
    (hknown : TrueBalances C s known)
    (hunique : ∀ n ∈ hiddenNotes C s.tree, ∀ n' ∈ hiddenNotes C s.tree, n.secret = l.secret →
      n'.secret = l.secret → n.nonce = n'.nonce → n = n') : TrueBalances C s balances := by
  intro n hn b hb
  rcases h (n.nullifier C) with heq | ⟨hown, n', hn', hnul, hbal⟩
  · exact hknown n hn b (heq ▸ hb)
  · obtain ⟨hsec, hnon⟩ := Note.nullifier_inj hI hF hnul
    have hown' : n.secret = l.secret := by
      by_contra hne
      exact not_owns hI hne hown
    rw [hunique n hn n' hn' hown' (hsec.trans hown') hnon.symm]
    exact (Option.some.inj (hb.symm.trans hbal))

end Recorded

/-- The events have a consolidation into the lineage. -/
def MergesInto (C : Circomlib F) (l : Lineage F) (events : List (Event F)) : Prop :=
  ∃ nullifiers newCommitment, .consolidated nullifiers newCommitment ∈ events ∧
    l.Owns C (nullifiers 0)

/-! ## A consolidation -/

section Consolidate

variable {ctx : ReplayContext F} {s' : VaultState F} {l : Lineage F} {queue : F → List Sale}
  {r : Replay F} {known : F → Option ℤ} {ch : Chain F Proof Sig} {nullifier : Fin 4 → F}
  {slot : Fin 4 → Option (Polyshield.Note F)} {n m : Polyshield.Note F}

omit [Field F] in
theorem Replay.recordBalance_isSome (r : Replay F) {x : F}
    (h : (r.balanceByNullifier x).isSome) : (r.recordBalance.balanceByNullifier x).isSome := by
  simp only [Replay.recordBalance, Function.update_apply]
  split
  · rfl
  · exact h

/-- What a consolidation makes of a replay that says what the state is. -/
structure Consolidates (C : Circomlib F) (ctx : ReplayContext F) (l : Lineage F)
    (queue : F → List Sale) (known : F → Option ℤ) (s' : VaultState F) (nullifier : Fin 4 → F)
    (r r' : Replay F) : Prop where
  recorded : Recorded C s' l known r'.balanceByNullifier
  keeps : ∀ x, (r.balanceByNullifier x).isSome → (r'.balanceByNullifier x).isSome
  soldByBet : r'.soldByBet = r.soldByBet
  covers : ∀ j, l.Owns C (nullifier j) → (r'.balanceByNullifier (nullifier j)).isSome
  stops : ctx.mode = .discover → l.Owns C (nullifier 0) → r'.state.spent = true
  follows : ctx.mode = .final ∨ ¬l.Owns C (nullifier 0) → Follows C s' ctx.address l queue r'

theorem merges_current (hE : E.Ideal) (hch : NotesHistory E ch)
    (hm : Consolidation E.circomlib ch.state s' nullifier slot n m)
    (h : Current E.circomlib ch.state ctx.address l r.state) {j : Fin 4}
    (hown : l.Owns E.circomlib (nullifier j)) :
    ∃ k, slot j = some k ∧ k ∈ hiddenNotes E.circomlib ch.state.tree ∧ k.secret = l.secret ∧
      nullifier j = r.state.nullifier ∧ k.nullifier E.circomlib = r.state.nullifier ∧
      r.state.spent = false ∧ r.state.balance = k.balance := by
  cases hslot : slot j with
  | none =>
    have hzero := hm.slots j
    rw [hslot] at hzero
    obtain ⟨k, hk⟩ := hown
    exact absurd (hk.symm.trans hzero.eq_zero) (hE.injective.poseidon2_ne_zero _ _)
  | some k =>
    obtain ⟨hmem, hnul, hun, -⟩ := (hm.slots j).of_some hslot
    have hsec : k.secret = l.secret := by
      by_contra hne
      rw [← hnul] at hown
      exact not_owns hE.injective hne hown
    obtain ⟨-, hcur, hst, hbal, -⟩ := h.of_unspent hch hmem hsec hun
    exact ⟨k, rfl, hmem, hsec, hnul ▸ hcur, hcur, hst, hbal⟩

theorem mergedBalance_merges (hE : E.Ideal)
    (hm : Consolidation E.circomlib ch.state s' nullifier slot n m) {balances : F → Option ℤ}
    (hbal : ∀ j k, slot j = some k → balances (nullifier j) = some (k.balance : ℤ)) :
    mergedBalance balances nullifier = m.balance := by
  have hsum : mergedBalance balances nullifier
      = ∑ j, if nullifier j ≠ 0 then (balances (nullifier j)).getD 0 else 0 := by
    unfold mergedBalance
    rw [← List.sum_ofFn, ← Function.comp_def (fun x => if x ≠ 0 then (balances x).getD 0 else 0),
      ← List.map_ofFn, List.sum_map_ite]
    simp
  rw [hsum, hm.balance, Nat.cast_sum]
  refine Finset.sum_congr rfl fun j _ => ?_
  cases hslot : slot j with
  | none =>
    have hzero := hm.slots j
    rw [hslot] at hzero
    rw [if_neg (not_not.mpr hzero.eq_zero)]
    rfl
  | some k =>
    obtain ⟨-, hnul, -⟩ := (hm.slots j).of_some hslot
    rw [if_pos (hnul ▸ k.nullifier_ne_zero hE.injective), hbal j k hslot]
    rfl

/-- What the cases of a consolidation share. -/
structure MergeStep (E : Env F Proof Sig) (ctx : ReplayContext F) (l : Lineage F)
    (queue : F → List Sale) (known : F → Option ℤ) (ch : Chain F Proof Sig) (s' : VaultState F)
    (nullifier : Fin 4 → F) (slot : Fin 4 → Option (Polyshield.Note F)) (n m : Polyshield.Note F)
    (r : Replay F) : Prop where
  ideal : E.Ideal
  history : NotesHistory E ch
  follows : Follows E.circomlib ch.state ctx.address l queue r
  merges : Consolidation E.circomlib ch.state s' nullifier slot n m
  bets : KeepsBets ch.state s'
  logs : s'.logs = ch.state.logs ++ [.consolidated nullifier (m.commitment E.circomlib)]
  recorded : Recorded E.circomlib ch.state l known r.balanceByNullifier
  trueBalances : TrueBalances E.circomlib s' known
  needs : ctx.mode = .final → l.Owns E.circomlib (nullifier 0) → ∀ j, nullifier j ≠ 0 →
    l.Owns E.circomlib (nullifier j) ∨ (known (nullifier j)).isSome

namespace MergeStep

variable (h : MergeStep E ctx l queue known ch s' nullifier slot n m r)

include h

theorem owns_state : l.Owns E.circomlib r.state.nullifier := ⟨_, h.follows.current.nullifier⟩

theorem first : n ∈ hiddenNotes E.circomlib ch.state.tree ∧
    n.nullifier E.circomlib = nullifier 0 ∧
    ch.state.spent (n.nullifier E.circomlib) = false := by
  obtain ⟨hmem, hnul, hun, -⟩ := (h.merges.slots 0).of_some h.merges.first
  exact ⟨hmem, hnul, hun⟩

theorem secret_iff : n.secret = l.secret ↔ l.Owns E.circomlib (nullifier 0) := by
  rw [← h.first.2.1]
  refine ⟨owns_nullifier, fun hown => ?_⟩
  by_contra hne
  exact not_owns h.ideal.injective hne hown

theorem slot_current {j : Fin 4} (hown : l.Owns E.circomlib (nullifier j)) :
    ∃ k, slot j = some k ∧ k ∈ hiddenNotes E.circomlib ch.state.tree ∧ k.secret = l.secret ∧
      nullifier j = r.state.nullifier ∧ k.nullifier E.circomlib = r.state.nullifier ∧
      r.state.spent = false ∧ r.state.balance = k.balance :=
  merges_current h.ideal h.history h.merges h.follows.current hown

/-- The replay acts on the event exactly if a slot is the lineage's. -/
theorem spends_iff :
    (∃ j, r.spends (nullifier j) = true) ↔ ∃ j, l.Owns E.circomlib (nullifier j) := by
  refine exists_congr fun j => ⟨fun hj => ?_, fun hown => ?_⟩
  · simp only [Replay.spends, decide_eq_true_eq] at hj
    rw [hj.1]
    exact h.owns_state
  · obtain ⟨-, -, -, -, hj, -, hst, -⟩ := h.slot_current hown
    simp [Replay.spends, hj, hst]

theorem receipts : Receipts E.circomlib s' l r :=
  h.follows.receipts.frame (fun x _ => by rw [h.bets.betList]) fun x _ rc hrc => by
    rw [h.bets.bet]
    exact hrc

theorem sales {r' : Replay F} (hr : r'.soldByBet = r.soldByBet) :
    Sales E.circomlib s' l queue r' :=
  h.follows.sales.frame h.logs (fun _ _ => rfl) hr

theorem other (hnot : ∀ j, ¬l.Owns E.circomlib (nullifier j)) :
    Consolidates E.circomlib ctx l queue known s' nullifier r r := by
  refine ⟨h.recorded.mono h.merges.hidden, fun _ hx => hx, rfl, fun j hown => absurd hown (hnot j),
    fun _ hown => absurd hown (hnot 0), fun _ => ⟨?_, h.receipts, h.sales rfl⟩⟩
  refine h.follows.current.frame [m] h.merges.hidden (fun x hx => ?_) (.inl rfl) ?_
  · rw [List.mem_singleton.mp hx, h.merges.follows.secret]
    exact fun hsec => hnot 0 (h.secret_iff.mp hsec)
  · rw [← h.follows.current.spent, Bool.eq_iff_iff, h.merges.spent]
    exact or_iff_left fun ⟨_, j, hj⟩ => hnot j (hj ▸ h.owns_state)

section Input

variable {j : Fin 4} (hown : l.Owns E.circomlib (nullifier j))

include hown

theorem recordBalance : Recorded E.circomlib s' l known r.recordBalance.balanceByNullifier := by
  obtain ⟨k, -, hmem, hsec, -, hnul, -, hbal⟩ := h.slot_current hown
  have := (h.recorded.mono h.merges.hidden).record
    (by rw [h.merges.hidden]; exact List.mem_append_left _ hmem) hsec
  rwa [hnul, ← hbal] at this

omit hown in
theorem covers {i : Fin 4} (hi : l.Owns E.circomlib (nullifier i)) :
    (r.recordBalance.balanceByNullifier (nullifier i)).isSome := by
  obtain ⟨-, -, -, -, hi, -⟩ := h.slot_current hi
  simp [Replay.recordBalance, hi]

/-- The note is merged into another lineage, where the replay of this one ends. -/
theorem contributor (hown0 : ¬l.Owns E.circomlib (nullifier 0)) :
    Consolidates E.circomlib ctx l queue known s' nullifier r
      (r.recordBalance.spendState ctx.version) := by
  refine ⟨h.recordBalance hown, fun _ => r.recordBalance_isSome, rfl, fun i hi => h.covers hi,
    fun _ h0 => absurd h0 hown0, fun _ => ⟨?_, (h.receipts.of_eq rfl rfl : Receipts E.circomlib s' l
      r.recordBalance).spendState ctx.version, h.sales rfl⟩⟩
  obtain ⟨k, -, -, -, hj, hnul, -⟩ := h.slot_current hown
  refine h.follows.current.frame [m] h.merges.hidden (fun x hx => ?_) (.inr ⟨_, rfl⟩) ?_
  · rw [List.mem_singleton.mp hx, h.merges.follows.secret]
    exact fun hsec => hown0 (h.secret_iff.mp hsec)
  · exact (h.merges.spent _).mpr (.inr ⟨hnul ▸ k.nullifier_ne_zero h.ideal.injective, j, hj⟩)

end Input

theorem slot_balance (hfinal : ctx.mode = .final) (hown : l.Owns E.circomlib (nullifier 0))
    {j : Fin 4} {k : Polyshield.Note F} (hslot : slot j = some k) :
    r.recordBalance.balanceByNullifier (nullifier j) = some (k.balance : ℤ) := by
  obtain ⟨hmem, hnul, -⟩ := (h.merges.slots j).of_some hslot
  by_cases hj : l.Owns E.circomlib (nullifier j)
  · obtain ⟨k', hslot', -, -, hj', -, -, hbal⟩ := h.slot_current hj
    obtain rfl := Option.some.inj (hslot.symm.trans hslot')
    simp [Replay.recordBalance, hj', hbal]
  · have hne : nullifier j ≠ 0 := hnul ▸ k.nullifier_ne_zero h.ideal.injective
    obtain ⟨b, hb⟩ := Option.isSome_iff_exists.mp ((h.needs hfinal hown j hne).resolve_left hj)
    rcases h.recordBalance hown (nullifier j) with heq | ⟨hj', -⟩
    · rw [heq, hb, h.trueBalances k (by rw [h.merges.hidden]; exact List.mem_append_left _ hmem) b
        (hnul ▸ hb)]
    · exact absurd hj' hj

/-- The lineage goes on with the merged note, or the discovery stops. -/
theorem merged (hown : l.Owns E.circomlib (nullifier 0)) :
    Consolidates E.circomlib ctx l queue known s' nullifier r
      (replayConsolidate E.circomlib ctx r nullifier (m.commitment E.circomlib)) := by
  obtain ⟨k, -, -, -, h0, -⟩ := h.slot_current hown
  unfold replayConsolidate
  cases hmode : ctx.mode with
  | discover =>
    simp only [or_true, ↓reduceIte]
    refine ⟨h.recordBalance hown, fun _ => r.recordBalance_isSome, rfl,
      fun i hi => h.covers hi, fun _ _ => rfl, ?_⟩
    rintro (hfinal | hnot)
    · rw [hmode] at hfinal
      cases hfinal
    · exact absurd hown hnot
  | final =>
    simp only [h0, ne_eq, not_true_eq_false, reduceCtorEq, or_self, ↓reduceIte]
    have hreceipts : Receipts E.circomlib s' l r.recordBalance := h.receipts.of_eq rfl rfl
    refine ⟨h.recordBalance hown, fun _ => r.recordBalance_isSome, rfl,
      fun i hi => h.covers hi, fun hd => ?_,
      fun _ => ⟨?_, (hreceipts.spendState ctx.version).of_eq rfl rfl, h.sales rfl⟩⟩
    · rw [hmode] at hd
      cases hd
    · obtain ⟨hmem, -, hun⟩ := h.first
      have hfresh := h.history.books.notes.fresh_next h.ideal.injective h.ideal.wide
        h.merges.follows hun
      have hspent : s'.spent (m.nullifier E.circomlib) = false := by
        rw [Bool.eq_false_iff, ne_eq, h.merges.spent, not_or]
        refine ⟨by rw [h.history.books.notes.unspent_of_fresh hfresh]; decide, ?_⟩
        rintro ⟨hne, j, hj⟩
        cases hslot : slot j with
        | none =>
          have hzero := h.merges.slots j
          rw [hslot] at hzero
          exact hne (hj.symm.trans hzero.eq_zero)
        | some k' =>
          obtain ⟨hmem', hnul', -⟩ := (h.merges.slots j).of_some hslot
          exact hfresh (hj ▸ hnul' ▸ List.mem_map_of_mem hmem')
      have hnext := h.follows.current.next h.history hmem (h.secret_iff.mpr hown) hun
        h.merges.follows h.merges.hidden hspent .betOutput
      have hsum : mergedBalance r.recordBalance.balanceByNullifier nullifier = m.balance :=
        mergedBalance_merges h.ideal h.merges fun j k => h.slot_balance hmode hown
      simp only [Replay.advance, Replay.balanceByNullifier_spendState, hsum]
      exact hnext

/-- A consolidation is of other lineages, or the current note is one of its inputs. -/
theorem consolidates : Consolidates E.circomlib ctx l queue known s' nullifier r
    (replayLog E.circomlib ctx r (.consolidated nullifier (m.commitment E.circomlib))) := by
  simp only [replayLog, replayKind, Option.isSome_some, ↓reduceIte, replayEvent]
  by_cases hsome : ∃ j, l.Owns E.circomlib (nullifier j)
  · rw [if_pos (h.spends_iff.mpr hsome)]
    obtain ⟨j, hown⟩ := hsome
    by_cases hown0 : l.Owns E.circomlib (nullifier 0)
    · exact h.merged hown0
    · have hne : r.state.nullifier ≠ nullifier 0 := fun heq => hown0 (heq ▸ h.owns_state)
      simp only [replayConsolidate, if_pos (Or.inl hne : r.state.nullifier ≠ nullifier 0 ∨
        ctx.mode = .discover)]
      exact h.contributor hown hown0
  · rw [if_neg fun hs => hsome (h.spends_iff.mp hs)]
    exact h.other fun j hown => hsome ⟨j, hown⟩

end MergeStep

end Consolidate

/-! ## A run -/

/-- A settlement of a bet of the lineage pays what the replay reads. -/
def SettlesAsReplayed (C : Circomlib F) (l : Lineage F) (x : Executed F Proof Sig) : Prop :=
  match x.call with
  | .creditSettlement _ inputs _ _ =>
    l.Owns C inputs.nullifierOfBet → PaysAsReplayed x.pre inputs.nullifierOfBet
  | _ => True

/-- What the replay of a lineage needs of a chain: the deposit, the reads and the sales are those
of the chain, settlements pay what the replay reads, and the final pass knows the balances that are
merged into the lineage. -/
structure Replayable (E : Env F Proof Sig) (ctx : ReplayContext F) (l : Lineage F)
    (queue : F → List Sale) (known : F → Option ℤ) (ch : Chain F Proof Sig) : Prop where
  own : OwnDeposit E.circomlib ch.state ctx.address l
  reads : ReadsVault ctx.client ch.state
  queue : ∀ b, l.Owns E.circomlib b → ch.state.logs.filterMap (saleOf b) <+: queue b
  settles : ∀ x ∈ ch.trace, SettlesAsReplayed E.circomlib l x
  trueBalances : TrueBalances E.circomlib ch.state known
  needs : ctx.mode = .final → ∀ nullifiers newCommitment,
    .consolidated nullifiers newCommitment ∈ ch.state.logs → l.Owns E.circomlib (nullifiers 0) →
      ∀ j, nullifiers j ≠ 0 →
        l.Owns E.circomlib (nullifiers j) ∨ (known (nullifiers j)).isSome

/-- What the replay of a lineage over the logs of a chain has come to. -/
structure Replayed (C : Circomlib F) (ctx : ReplayContext F) (l : Lineage F)
    (queue : F → List Sale) (known : F → Option ℤ) (s : VaultState F) (r : Replay F) : Prop where
  recorded : Recorded C s l known r.balanceByNullifier
  covers : ∀ before nullifiers newCommitment after,
    s.logs = before ++ .consolidated nullifiers newCommitment :: after →
      (ctx.mode = .discover → ¬MergesInto C l before) → ∀ j, l.Owns C (nullifiers j) →
        (r.balanceByNullifier (nullifiers j)).isSome
  others : ∀ b, ¬l.Owns C b → r.soldByBet b = queue b
  stopped : ctx.mode = .discover → MergesInto C l s.logs → r.state.spent = true
  follows : ctx.mode = .final ∨ ¬MergesInto C l s.logs → Follows C s ctx.address l queue r

section Run

variable {ctx : ReplayContext F} {l : Lineage F} {queue : F → List Sale} {r : Replay F}
  {known : F → Option ℤ}

omit [DecidableEq F] in
theorem Replayable.before [DecidableEq F] (hE : E.Ideal) {ch : Chain F Proof Sig}
    (hch : NotesHistory E ch) {m : Msg} {c : Call F Proof Sig} {s' : VaultState F}
    (hx : exec E m ch.state c = .ok s')
    (h : Replayable E ctx l queue known ⟨s', ch.trace ++ [⟨ch.state, m, c, s'⟩]⟩) :
    Replayable E ctx l queue known ch := by
  obtain ⟨ms, events, hc⟩ := commits_exec hE hch.books hx
  refine ⟨⟨h.own.commitment, fun n hn => h.own.first n ?_⟩, h.reads.before hch.books.bets hx,
    fun b hown => ?_, fun x hmem => h.settles x (List.mem_append_left _ hmem),
    h.trueBalances.before hc.hidden, fun hfinal ns c hmem => h.needs hfinal ns c ?_⟩
  · rw [hc.hidden]
    exact List.mem_append_left _ hn
  · refine (List.prefix_append _ _).trans (?_ : ch.state.logs.filterMap (saleOf b)
      ++ events.filterMap (saleOf b) <+: queue b)
    rw [← List.filterMap_append, ← hc.logs]
    exact h.queue b hown
  · rw [hc.logs]
    exact List.mem_append_left _ hmem

/-- A replay whose lineage is spent takes no notice of any event. -/
theorem foldl_replayLog_spent (h : r.state.spent = true) (events : List (Event F)) :
    events.foldl (replayLog C ctx) r = r := by
  have hspends : ∀ x, r.spends x = false := fun x => by simp [Replay.spends, h]
  induction events with
  | nil => rfl
  | cons e events ih =>
    have : replayLog C ctx r e = r := by
      unfold replayLog
      cases e <;> simp [replayEvent, hspends]
    rw [List.foldl_cons, this]
    exact ih

omit [Field F] [DecidableEq F] in
/-- An event of the logs after a call is one of those before it, or one that the call logs. -/
theorem append_eq_append_cons {logs events before after : List (Event F)} {e : Event F}
    (h : logs ++ events = before ++ e :: after) :
    (∃ rest, logs = before ++ e :: rest) ∨
      ∃ between, before = logs ++ between ∧ events = between ++ e :: after := by
  rcases List.append_eq_append_iff.mp h with ⟨between, hb, he⟩ | ⟨rest, hl, hr⟩
  · exact .inr ⟨between, hb, he⟩
  · cases rest with
    | nil => exact .inr ⟨[], by simpa using hl.symm, by simpa using hr.symm⟩
    | cons x rest =>
      obtain ⟨rfl, -⟩ := List.cons.inj hr
      exact .inl ⟨rest, hl⟩

omit [DecidableEq F] in
theorem MergesInto.mono {events events' : List (Event F)} (h : MergesInto C l events)
    (hsub : events ⊆ events') : MergesInto C l events' :=
  h.imp fun _ ⟨c, hmem, hown⟩ => ⟨c, hsub hmem, hown⟩

omit [DecidableEq F] in
theorem mergesInto_append {logs events : List (Event F)}
    (he : ∀ e ∈ events, isConsolidation e = false) :
    MergesInto C l (logs ++ events) ↔ MergesInto C l logs := by
  refine ⟨?_, fun h => h.mono (List.subset_append_left _ _)⟩
  rintro ⟨ns, c, hmem, hown⟩
  refine ⟨ns, c, (List.mem_append.mp hmem).resolve_right fun hmem => ?_, hown⟩
  simpa [isConsolidation] using he _ hmem

section Call

variable {ch : Chain F Proof Sig} (hE : E.Ideal) (hch : NotesHistory E ch) {m : Msg}
  {c : Call F Proof Sig} {s' : VaultState F} (hx : exec E m ch.state c = .ok s')
  (h : Replayed E.circomlib ctx l queue known ch.state r)

include hE hch hx h

/-- The discovery has stopped. -/
theorem Replayed.stay (hmode : ctx.mode = .discover)
    (hstop : MergesInto E.circomlib l ch.state.logs) :
    ∃ events, s'.logs = ch.state.logs ++ events ∧
      Replayed E.circomlib ctx l queue known s'
        (events.foldl (replayLog E.circomlib ctx) r) := by
  obtain ⟨ms, events, hc⟩ := commits_exec hE hch.books hx
  have hspent := h.stopped hmode hstop
  have hmerges : MergesInto E.circomlib l s'.logs := by
    rw [hc.logs]
    exact hstop.mono (List.subset_append_left _ _)
  refine ⟨events, hc.logs, ?_⟩
  rw [foldl_replayLog_spent hspent]
  refine ⟨h.recorded.mono hc.hidden, fun before ns nc after hlogs hbefore => ?_, h.others,
    fun _ _ => hspent, ?_⟩
  · rw [hc.logs] at hlogs
    rcases append_eq_append_cons hlogs with ⟨rest, hrest⟩ | ⟨between, hbetween, -⟩
    · exact h.covers before ns nc rest hrest hbefore
    · refine absurd (hstop.mono ?_) (hbefore hmode)
      rw [hbetween]
      exact List.subset_append_left _ _
  · rintro (hfinal | hnot)
    · rw [hmode] at hfinal
      cases hfinal
    · exact absurd hmerges hnot

theorem Replayed.followsCall
    (hcall : FollowsCall E.circomlib ctx l queue r ch.state s')
    (hgoes : ctx.mode = .final ∨ ¬MergesInto E.circomlib l ch.state.logs) :
    ∃ events, s'.logs = ch.state.logs ++ events ∧
      Replayed E.circomlib ctx l queue known s'
        (events.foldl (replayLog E.circomlib ctx) r) := by
  obtain ⟨ms, events', hc⟩ : ∃ ms events, Commits E.circomlib ch.state s' ms events :=
    commits_exec hE hch.books hx
  obtain ⟨events, hlogs, hcons, hfollows, hbal⟩ := hcall
  refine ⟨events, hlogs, ?_, fun before ns nc after hsplit hbefore => ?_, fun b hb => ?_,
    fun hmode hmerges => ?_, fun _ => hfollows⟩
  · rw [hbal]
    exact h.recorded.mono hc.hidden
  · rw [hlogs] at hsplit
    rw [hbal]
    rcases append_eq_append_cons hsplit with ⟨rest, hrest⟩ | ⟨between, -, hevents⟩
    · exact h.covers before ns nc rest hrest hbefore
    · have := hcons (.consolidated ns nc) (by simp [hevents])
      simp [isConsolidation] at this
  · exact hfollows.sales.other b hb
  · rw [hlogs, mergesInto_append hcons] at hmerges
    rcases hgoes with hfinal | hnot
    · rw [hmode] at hfinal
      cases hfinal
    · exact absurd hmerges hnot

end Call

section Merge

variable {ch : Chain F Proof Sig} (hE : E.Ideal) (hch : NotesHistory E ch) {m : Msg}
  {s' : VaultState F} (h : Replayed E.circomlib ctx l queue known ch.state r)

include hE hch h

theorem Replayed.merge {proof : Proof} {inputs : ConsolidatePublicInputs F}
    (hx : consolidate E ch.state proof inputs = .ok s')
    (hready : Replayable E ctx l queue known
      ⟨s', ch.trace ++ [⟨ch.state, m, .consolidate proof inputs, s'⟩]⟩)
    (hgoes : ctx.mode = .final ∨ ¬MergesInto E.circomlib l ch.state.logs) :
    ∃ events, s'.logs = ch.state.logs ++ events ∧
      Replayed E.circomlib ctx l queue known s'
        (events.foldl (replayLog E.circomlib ctx) r) := by
  obtain ⟨slot, n, next, hm, hcom⟩ := consolidation_consolidate hE hch.books hx
  have hlogs : s'.logs
      = ch.state.logs ++ [.consolidated inputs.nullifier inputs.newCommitment] := by
    obtain ⟨-, -, -, -, spent', r, t', -, -, rfl⟩ := consolidate_ok hx
    rfl
  have hstep : MergeStep E ctx l queue known ch s' inputs.nullifier slot n next r :=
    ⟨hE, hch, h.follows hgoes, hm, keepsBets_consolidate hx, hcom ▸ hlogs, h.recorded,
      hready.trueBalances, fun hfinal => hready.needs hfinal _ inputs.newCommitment
        (by rw [hlogs]; exact List.mem_append_right _ (List.mem_singleton_self _))⟩
  have hcs := hstep.consolidates
  rw [hcom] at hcs
  refine ⟨_, hlogs, hcs.recorded, fun before ns nc after hsplit hbefore => ?_,
    fun b hb => (congrFun hcs.soldByBet b).trans (h.others b hb), fun hmode hmerges => ?_,
    fun hgoes' => hcs.follows (hgoes'.imp_right fun hnot hown => ?_)⟩
  · rw [hlogs] at hsplit
    rcases append_eq_append_cons hsplit with ⟨rest, hrest⟩ | ⟨between, -, hevents⟩
    · exact fun j hown => hcs.keeps _ (h.covers before ns nc rest hrest hbefore j hown)
    · cases between with
      | nil =>
        obtain ⟨heq, -⟩ := List.cons.inj hevents
        obtain ⟨rfl, rfl⟩ := Event.consolidated.inj heq
        exact hcs.covers
      | cons e between => simp at hevents
  · obtain ⟨ns, nc, hmem, hown⟩ := hmerges
    rw [hlogs] at hmem
    rcases List.mem_append.mp hmem with hmem | hmem
    · rcases hgoes with hfinal | hnot
      · rw [hmode] at hfinal
        cases hfinal
      · exact absurd ⟨ns, nc, hmem, hown⟩ hnot
    · obtain ⟨rfl, rfl⟩ := Event.consolidated.inj (List.mem_singleton.mp hmem)
      exact hcs.stops hmode hown
  · refine hnot ⟨_, inputs.newCommitment, ?_, hown⟩
    rw [hlogs]
    exact List.mem_append_right _ (List.mem_singleton_self _)

end Merge

theorem Replayed.call (hE : E.Ideal) {ch : Chain F Proof Sig} (hch : NotesHistory E ch)
    {m : Msg} {c : Call F Proof Sig} {s' : VaultState F} (hx : exec E m ch.state c = .ok s')
    (hready : Replayable E ctx l queue known ⟨s', ch.trace ++ [⟨ch.state, m, c, s'⟩]⟩)
    (h : Replayed E.circomlib ctx l queue known ch.state r) :
    ∃ events, s'.logs = ch.state.logs ++ events ∧
      Replayed E.circomlib ctx l queue known s'
        (events.foldl (replayLog E.circomlib ctx) r) := by
  by_cases hstop : ctx.mode = .discover ∧ MergesInto E.circomlib l ch.state.logs
  · exact h.stay hE hch hx hstop.1 hstop.2
  · have hbefore := hready.before hE hch hx
    have hgoes : ctx.mode = .final ∨ ¬MergesInto E.circomlib l ch.state.logs := by
      cases hmode : ctx.mode with
      | final => exact .inl rfl
      | discover => exact .inr fun hmerges => hstop ⟨hmode, hmerges⟩
    have hfollows := h.follows hgoes
    have hstep : FollowsCall E.circomlib ctx l queue r ch.state s' →
        ∃ events, s'.logs = ch.state.logs ++ events ∧
          Replayed E.circomlib ctx l queue known s'
            (events.foldl (replayLog E.circomlib ctx) r) :=
      fun hcall => h.followsCall hE hch hx hcall hgoes
    by_cases hc : c.isAdministrative = true
    · exact hstep (followsCall_administrative hfollows hc hx)
    · cases c <;> simp only [Call.isAdministrative, not_true_eq_false] at hc <;>
        simp only [exec] at hx
      case deposit => exact hstep (followsCall_deposit hE hch hfollows hx hready.own)
      case authorizeBet => exact hstep (followsCall_authorizeBet hE hch hfollows hx)
      case withdraw => exact hstep (followsCall_withdraw hE hch hfollows hx)
      case creditSettlement =>
        exact hstep (followsCall_creditSettlement hE hch hfollows hx hbefore.reads
          (hready.settles _ (List.mem_append_right _ (List.mem_singleton_self _))))
      case betCancellationCredit =>
        exact hstep (followsCall_betCancellationCredit hE hch hfollows hx)
      case naCancellationCredit =>
        exact hstep (followsCall_naCancellationCredit hE hch hfollows hx)
      case closePosition =>
        exact hstep (followsCall_closePosition hE hch hfollows hx fun hown => hready.queue _ hown)
      case partialFillCredit =>
        exact hstep (followsCall_partialFillCredit hE hch hfollows hx hready.reads)
      case consolidate => exact h.merge hE hch hx hready hgoes
      case adminCancelBet => exact hstep (followsCall_adminCancelBet hch hfollows hx)
      case withdrawFees => exact hstep (followsCall_withdrawFees hfollows hx)

theorem replayed_deploy {args : InitArgs} {s : VaultState F} (h : deploy E args = .ok s) :
    Replayed E.circomlib ctx l queue known s (startReplay E.circomlib l queue known) := by
  obtain rfl := deploy_ok E h
  have hlogs : (initializeV2 (initialState E args)).logs = [] := rfl
  have hlist : (initializeV2 (initialState E args)).betList = [] := rfl
  have hnil : hiddenNotes E.circomlib (initializeV2 (initialState E args)).tree = [] := by
    simp [hiddenNotes, initializeV2, initialState, CommitmentMerkleTree.leaves, initializeTree]
  refine ⟨fun _ => .inl rfl, fun before ns nc after hsplit => ?_, fun _ _ => rfl,
    fun _ hmerges => ?_, fun _ => ⟨⟨rfl, rfl, rfl, ?_, ?_, ?_, fun _ => ⟨rfl, fun _ => rfl⟩, rfl⟩,
      ⟨fun b i => ?_, ?_, ?_, ?_⟩, ⟨fun b _ => ?_, fun _ _ => rfl⟩⟩⟩
  · rw [hlogs] at hsplit
    simp at hsplit
  · obtain ⟨ns, nc, hmem, -⟩ := hmerges
    rw [hlogs] at hmem
    cases hmem
  all_goals simp [hnil, hlist, hlogs, startReplay]

theorem Replayed.world {s : VaultState F} (h : Replayed C ctx l queue known s r) (usdc : Usdc)
    (ctf : Ctf) : Replayed C ctx l queue known { s with usdc := usdc, ctf := ctf } r := by
  refine ⟨h.recorded, h.covers, h.others, h.stopped, fun hgoes => ?_⟩
  have hf := h.follows hgoes
  have hc := hf.current
  exact hf.frame ⟨hc.depositIndex, hc.secret, hc.nullifier, hc.note, hc.latest, hc.present,
    hc.first, hc.spent⟩ (fun _ _ => Iff.rfl) (fun _ _ _ hrc => hrc) (List.append_nil _).symm
    fun _ _ => rfl

/-- In every run the replay of a lineage over the logs comes to the state of the Vault. -/
theorem replayed_runActions (hE : E.Ideal) {args : InitArgs} {s : VaultState F}
    (h : deploy E args = .ok s) (as : List (Action F Proof Sig))
    (hready : Replayable E ctx l queue known (runActions E s as)) :
    Replayed E.circomlib ctx l queue known (runActions E s as).state
      ((runActions E s as).state.logs.foldl (replayLog E.circomlib ctx)
        (startReplay E.circomlib l queue known)) := by
  refine (extend_invariant E (P := fun ch => NotesHistory E ch ∧
    (Replayable E ctx l queue known ch → Replayed E.circomlib ctx l queue known ch.state
      (ch.state.logs.foldl (replayLog E.circomlib ctx) (startReplay E.circomlib l queue known))))
    ⟨notesHistory_deploy h, fun _ => ?_⟩ ?_ ?_ as).2 hready
  · have hlogs : s.logs = [] := by
      obtain rfl := deploy_ok E h
      rfl
    rw [hlogs]
    exact replayed_deploy h
  · intro ch m c s' ⟨hch, hrun⟩ hx
    refine ⟨hch.call hE hx, fun hready => ?_⟩
    obtain ⟨events, hlogs, hreplayed⟩ :=
      (hrun (hready.before hE hch hx)).call hE hch hx hready
    rw [hlogs, List.foldl_append]
    exact hreplayed
  · intro ch usdc ctf ⟨hch, hrun⟩
    refine ⟨hch.world usdc ctf, fun hready => (hrun ?_).world usdc ctf⟩
    exact ⟨⟨hready.own.commitment, hready.own.first⟩, ⟨hready.reads.payouts, hready.reads.records⟩,
      hready.queue, hready.settles, hready.trueBalances, hready.needs⟩

end Run

end Polyshield.Wallet

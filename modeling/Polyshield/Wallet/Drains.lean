import Polyshield.Circuits.Bn254
import Polyshield.Wallet.Liquidation

/-!
# What Settle & Withdraw drains

A lineage is drained when it has no open receipt, so the question is whether a
bet that can still be credited keeps its receipt. Receipts are retired for bets
that are closed for good, if the classification is right: it asks for the payout
of the receipt's side, and reads the payout before it reads that the market is
resolved.
-/

namespace Polyshield.Wallet

variable {F Proof Sig : Type} [Field F] [DecidableEq F] {E : Env F Proof Sig}
  {keccak : String → ℕ} {lineage : F → ℕ} {hidden : F → Bool} {ses : Session F Proof Sig}

/-! ## The receipts of the wallet -/

/-- A receipt as the bet flow and recovery write it, in the lineage of its bet, which has a
stake. -/
structure Tracked (lineage : F → ℕ) (v : VaultState F) (n : Note F) : Prop where
  receipt : ReceiptFor v n
  bet : n.nullifierOfBet = some n.nullifier
  id : n.id = .receipt n.nullifier
  commitment : n.commitment = .receipt n.nullifier
  lineage : n.depositIndex = lineage n.bet
  stake : (v.betRecords n.bet).betAmount ≠ 0

/-- The notes of the wallet are as the app writes them. -/
structure CacheOk (lineage : F → ℕ) (ses : Session F Proof Sig) (v : VaultState F)
    (cache : List (Note F)) : Prop where
  receipts : ∀ n ∈ cache, n.kind = .betReceipt → n.ownerAddress = ses.address → Tracked lineage v n
  cash : ∀ n ∈ cache, n.kind ≠ .betReceipt → ∃ hash, n.commitment = .commitment hash

/-- Every bet of the wallet that can be credited has an open receipt, in its lineage. -/
def Complete (E : Env F Proof Sig) (hidden : F → Bool) (ses : Session F Proof Sig)
    (v : VaultState F) (cache : List (Note F)) : Prop :=
  ∀ d bet, OfLineage E.circomlib ses d bet → CanBeCredited E v bet →
    ∃ n ∈ getOpenBetReceipts cache hidden ses.address, n.bet = bet ∧ n.depositIndex = d

/-- No bet of the lineage can be credited. -/
def LineageClosed (E : Env F Proof Sig) (ses : Session F Proof Sig) (v : VaultState F) (d : ℕ) :
    Prop :=
  ∀ bet, OfLineage E.circomlib ses d bet → ¬ CanBeCredited E v bet

/-- While the statuses are read: where the market of an open receipt is resolved in the end, and
its side's payout was zero at the start, the recorded side's is zero. -/
def SidesHold (hidden : F → Bool) (ses : Session F Proof Sig) (t t' : Liquidation F Proof Sig) :
    Prop :=
  ∀ stage, t.phase = .loading stage → t'.phase ≠ t.phase →
    ∀ n ∈ getOpenBetReceipts t.cache hidden ses.address,
      t'.vault.marketResolvedAt (t.vault.betRecords n.bet).marketId ≠ 0 →
      t.vault.pendingCredit (t.vault.betRecords n.bet).marketId (outcomeSideOf n) = 0 →
      t'.vault.pendingCredit (t.vault.betRecords n.bet).marketId
        (t.vault.betRecords n.bet).outcomeSide = 0

/-- A run whose every classification meets `SidesHold`. -/
abbrev Run (E : Env F Proof Sig) (keccak : String → ℕ) (hidden : F → Bool)
    (ses : Session F Proof Sig) : Liquidation F Proof Sig → Liquidation F Proof Sig → Prop :=
  Relation.ReflTransGen fun t t' => Step E keccak hidden ses t t' ∧ SidesHold hidden ses t t'

section Receipts

variable {v v' : VaultState F} {cache : List (Note F)} {n : Note F}

omit [Field F] [DecidableEq F] in
theorem mem_openReceipts :
    n ∈ getOpenBetReceipts cache hidden ses.address ↔
      n ∈ cache ∧ n.spent = false ∧ n.kind = .betReceipt ∧ n.ownerAddress = ses.address ∧
        hidden n.bet = false := by
  simp [getOpenBetReceipts]

omit [DecidableEq F] in
theorem Tracked.bet_eq (h : Tracked lineage v n) : n.bet = n.nullifier := by
  rw [Note.bet, h.bet]
  rfl

omit [DecidableEq F] in
theorem Tracked.isReceiptOf (h : Tracked lineage v n) {bet : F} (hof : n.isReceiptOf bet) :
    n.bet = bet := by
  rw [h.bet_eq]
  rcases hof.2 with hb | hb
  · rw [h.bet] at hb
    exact Option.some.inj hb
  · exact hb

omit [DecidableEq F] in
theorem Tracked.isOf (h : Tracked lineage v n) {bet : F} (hof : n.isOf (.receipt bet)) :
    n.bet = bet := by
  rw [h.bet_eq]
  rcases hof with hc | hc
  · rw [h.commitment] at hc
    exact NoteId.receipt.inj hc
  · rw [h.id] at hc
    exact NoteId.receipt.inj hc

omit [DecidableEq F] in
theorem Tracked.not_isOf (h : Tracked lineage v n) {hash : F} : ¬ n.isOf (.commitment hash) := by
  rintro (hc | hc)
  · rw [h.commitment] at hc
    cases hc
  · rw [h.id] at hc
    cases hc

omit [DecidableEq F] in
theorem ReceiptFor.keeps (h : ReceiptFor v n)
    (hk : Keeps (v.betRecords n.bet) (v'.betRecords n.bet)) : ReceiptFor v' n where
  found := hk.marketId ▸ h.found
  condition := hk.marketId ▸ h.condition
  origin := by
    rw [hk.marketId, hk.outcomeSide]
    exact h.origin

end Receipts

/-! ## What an attempt retires and submits -/

/-- A submission for the receipt, made from a note of the cache. -/
structure SubmitsFor (ses : Session F Proof Sig) (v : VaultState F) (cache : List (Note F))
    (n : Note F) (sub : Submission F Proof Sig) : Prop where
  bet : sub.call.core.nullifierOfBet = n.bet
  note : sub.note ∈ cache ∧ sub.note.kind ≠ .betReceipt
  ends : sub.retires = true → sub.call.Ends v

/-- What an attempt may do with the receipt, the reads being of `v`, or of the Vault meanwhile. -/
def OutcomeOk (ses : Session F Proof Sig) (v : VaultState F) (cache : List (Note F))
    (n : Note F) : CreditOutcome F Proof Sig → Prop
  | .retire => (v.betRecords n.bet).status.Terminal
  | .idle _ => True
  | .submit sub => SubmitsFor ses v cache n sub

section Outcomes

variable {v v' : VaultState F} {cache : List (Note F)} {n : Note F} {r : Reads F Sig}
  {sub : Submission F Proof Sig}

omit [Field F] in
omit [DecidableEq F] in
theorem getFreeNoteForDeposit_mem {d : ℕ} {note : Note F}
    (h : getFreeNoteForDeposit cache ses.address d = some note) :
    note ∈ cache ∧ note.kind ≠ .betReceipt := by
  have hmem := List.mem_of_head? h
  simp only [List.mem_mergeSort, List.mem_filter, getFreeNotes, decide_eq_true_eq] at hmem
  exact ⟨hmem.1.1, hmem.1.2.2.1⟩

theorem settlePosition_ok {bet : ReadyToSettleBet F} (hr : Truthful E v r) :
    OutcomeOk ses v cache bet.receipt
      (settlePosition E.circomlib { ses with cache, reads := r } bet) := by
  generalize ho : settlePosition E.circomlib { ses with cache, reads := r } bet = outcome
  cases outcome with
  | idle => trivial
  | submit sub =>
    obtain ⟨inputs, record, hS, -, -, -, hcall⟩ := settlePosition_submit ho
    exact ⟨hS.bet, getFreeNoteForDeposit_mem hS.note, fun _ => by rw [hcall]; trivial⟩
  | retire =>
    unfold settlePosition at ho
    split at ho
    · cases ho
    next record hrec =>
      split at ho
      next hst =>
        obtain rfl := hr.betRecord _ _ hrec
        unfold OutcomeOk
        rw [hst]
        exact terminal_credited
      · split at ho
        · cases ho
        · simp only at ho
          split at ho <;> cases ho

theorem finalizeClose_ok (hr : Truthful E v r) :
    OutcomeOk ses v cache n (finalizeClose E.circomlib { ses with cache, reads := r } n) := by
  generalize ho : finalizeClose E.circomlib { ses with cache, reads := r } n = outcome
  cases outcome with
  | idle => trivial
  | submit sub =>
    obtain ⟨inputs, record, a, hS, hrec, -, -, hcall, hretires⟩ := finalizeClose_submit ho
    obtain rfl := hr.betRecord _ _ hrec
    refine ⟨hS.bet, getFreeNoteForDeposit_mem hS.note, fun hends => ?_⟩
    have hbet : inputs.nullifierOfBet = n.bet := by rw [← hS.bet, hcall]; rfl
    rw [hretires, decide_eq_true_eq] at hends
    rw [hcall, CreditCall.Ends, hbet]
    exact hends
  | retire =>
    unfold finalizeClose at ho
    split at ho
    · cases ho
    next record hrec =>
      split at ho
      next hst =>
        obtain rfl := hr.betRecord _ _ hrec
        unfold OutcomeOk
        rw [hst]
        exact terminal_closedCredited
      · repeat' (first | cases ho | split at ho)
        simp only at ho
        split at ho <;> cases ho

omit [DecidableEq F] in
theorem finalizePartialFill_ok :
    OutcomeOk ses v cache n (finalizePartialFill E.circomlib { ses with cache, reads := r } n) := by
  generalize ho : finalizePartialFill E.circomlib { ses with cache, reads := r } n = outcome
  cases outcome with
  | idle => trivial
  | submit sub =>
    obtain ⟨inputs, record, fee, a, hS, -, -, -, -, -, -, hretires⟩ := finalizePartialFill_submit ho
    exact ⟨hS.bet, getFreeNoteForDeposit_mem hS.note, fun h => by rw [hretires] at h; cases h⟩
  | retire =>
    unfold finalizePartialFill at ho
    repeat' (first | cases ho | split at ho)
    simp only at ho
    split at ho <;> cases ho

theorem creditFailedReclaim_ok {a : SignedAttestation F Sig} (hr : Truthful E v r)
    (hstake : (v.betRecords n.bet).betAmount ≠ 0) :
    OutcomeOk ses v cache n
      (creditFailedReclaim E.circomlib { ses with cache, reads := r } n a) := by
  generalize ho : creditFailedReclaim E.circomlib { ses with cache, reads := r } n a = outcome
  cases outcome with
  | idle => trivial
  | submit sub =>
    obtain ⟨inputs, record, fee, hS, -, -, hcall⟩ := creditFailedReclaim_submit ho
    exact ⟨hS.bet, getFreeNoteForDeposit_mem hS.note, fun _ => by rw [hcall]; trivial⟩
  | retire =>
    unfold creditFailedReclaim at ho
    split at ho
    · cases ho
    · cases ho
    next note record hnote hrec =>
      split at ho
      next hzero =>
        obtain rfl := hr.betRecord _ _ hrec
        exact absurd hzero hstake
      · split at ho
        · cases ho
        · simp only at ho
          split at ho <;> cases ho

theorem tryCreditFromAttestation_ok {outcome : CreditOutcome F Proof Sig} (hr : Truthful E v r)
    (hstake : (v.betRecords n.bet).betAmount ≠ 0)
    (h : tryCreditFromAttestation E.circomlib { ses with cache, reads := r } n = some outcome) :
    OutcomeOk ses v cache n outcome := by
  unfold tryCreditFromAttestation at h
  split at h
  · cases h
  · split at h
    · cases h
      exact creditFailedReclaim_ok hr hstake
    · split at h
      · cases h
        exact finalizePartialFill_ok
      · cases h

theorem Ends.later {c : CreditCall F Sig} (hs : Sound E v)
    (hfound : (v.betRecords c.core.nullifierOfBet).marketId ≠ 0) (h : Ordinarily E v v')
    (hends : c.Ends v) : c.Ends v' := by
  cases c with
  | settle => trivial
  | cancel => trivial
  | close => exact UInt64.le_trans (keeps_later hs hfound h).expectedShares hends
  | partialFill => exact hends.elim

theorem SubmitsFor.later (hs : Sound E v) (hfound : (v.betRecords n.bet).marketId ≠ 0)
    (h : Ordinarily E v v') (hsub : SubmitsFor ses v cache n sub) :
    SubmitsFor ses v' cache n sub where
  bet := hsub.bet
  note := hsub.note
  ends hret := Ends.later hs (hsub.bet ▸ hfound) h (hsub.ends hret)

theorem OutcomeOk.later {outcome : CreditOutcome F Proof Sig} (hs : Sound E v)
    (hfound : (v.betRecords n.bet).marketId ≠ 0) (h : Ordinarily E v v')
    (ho : OutcomeOk ses v cache n outcome) : OutcomeOk ses v' cache n outcome := by
  cases outcome with
  | idle => trivial
  | submit sub => exact SubmitsFor.later hs hfound h ho
  | retire =>
    unfold OutcomeOk
    rw [(keeps_later hs hfound h).terminal ho]
    exact ho

theorem outcomeOk_retire (hs : Sound E v) (hfound : (v.betRecords n.bet).marketId ≠ 0)
    (h : Ordinarily E v v') (hterminal : (v.betRecords n.bet).status.Terminal) :
    OutcomeOk ses v' cache n (.retire : CreditOutcome F Proof Sig) := by
  have hretire : OutcomeOk ses v cache n (.retire : CreditOutcome F Proof Sig) := hterminal
  exact hretire.later hs hfound h

theorem reclaimBet_ok {polls : List (Reads F Sig)} (hs : Sound E v)
    (hfound : (v.betRecords n.bet).marketId ≠ 0) (hstake : (v.betRecords n.bet).betAmount ≠ 0)
    (hr : Truthful E v r) (hmoves : Ordinarily E v v')
    (hpolls : ∀ r ∈ polls, ∃ v₁, Ordinarily E v v₁ ∧ Ordinarily E v₁ v' ∧ Truthful E v₁ r) :
    OutcomeOk ses v' cache n
      (reclaimBet E.circomlib { ses with cache, reads := r } polls n) := by
  unfold reclaimBet
  split
  · trivial
  next record hrec =>
    obtain rfl := hr.betRecord _ _ hrec
    split
    next hst =>
      have hterminal : (v.betRecords n.bet).status.Terminal := by
        rcases hst with hst | hst | hst <;> rw [hst] <;> decide
      exact outcomeOk_retire hs hfound hmoves hterminal
    · rcases hfind : (r :: polls.take 6).findSome? fun reads =>
        tryCreditFromAttestation E.circomlib { ses with cache, reads } n with _ | outcome
      · exact True.intro
      · obtain ⟨reads, hmem, hsome⟩ := List.exists_of_findSome?_eq_some hfind
        have hmeanwhile : ∃ v₁, Ordinarily E v v₁ ∧ Ordinarily E v₁ v' ∧ Truthful E v₁ reads := by
          rcases List.mem_cons.mp hmem with rfl | hmem
          · exact ⟨v, .refl, hmoves, hr⟩
          · exact hpolls _ (List.mem_of_mem_take hmem)
        obtain ⟨v₁, h₁, h₂, htruthful⟩ := hmeanwhile
        have hk := keeps_later hs hfound h₁
        exact (tryCreditFromAttestation_ok htruthful (hk.stake hstake) hsome).later (hs.later h₁)
          (hk.marketId ▸ hfound) h₂

end Outcomes

/-! ## The cache keeps the open receipts -/

/-- The open receipts of other bets than these stay open, in their lineages. -/
def KeepsOpen (hidden : F → Bool) (ses : Session F Proof Sig) (cache cache' : List (Note F))
    (except : F → Prop) : Prop :=
  ∀ n ∈ getOpenBetReceipts cache hidden ses.address, ¬ except n.bet →
    ∃ n' ∈ getOpenBetReceipts cache' hidden ses.address, n'.bet = n.bet ∧
      n'.depositIndex = n.depositIndex

section Cache

variable {v : VaultState F} {cache cache' cache'' : List (Note F)} {n : Note F}

omit [Field F] [DecidableEq F] in
theorem KeepsOpen.refl (except : F → Prop) : KeepsOpen hidden ses cache cache except :=
  fun n hn _ => ⟨n, hn, rfl, rfl⟩

omit [Field F] [DecidableEq F] in
theorem KeepsOpen.trans {except : F → Prop} (h : KeepsOpen hidden ses cache cache' except)
    (h' : KeepsOpen hidden ses cache' cache'' except) :
    KeepsOpen hidden ses cache cache'' except := by
  intro n hn hex
  obtain ⟨n₁, hn₁, hb₁, hd₁⟩ := h n hn hex
  obtain ⟨n₂, hn₂, hb₂, hd₂⟩ := h' n₁ hn₁ (hb₁ ▸ hex)
  exact ⟨n₂, hn₂, hb₂.trans hb₁, hd₂.trans hd₁⟩

omit [Field F] [DecidableEq F] in
theorem KeepsOpen.mono {except except' : F → Prop} (h : KeepsOpen hidden ses cache cache' except)
    (himp : ∀ bet, except bet → except' bet) : KeepsOpen hidden ses cache cache' except' :=
  fun n hn hex => h n hn fun he => hex (himp _ he)

omit [Field F] [DecidableEq F] in
theorem KeepsOpen.of_mem {except : F → Prop}
    (h : ∀ n ∈ getOpenBetReceipts cache hidden ses.address, ¬ except n.bet → n ∈ cache') :
    KeepsOpen hidden ses cache cache' except := by
  intro n hn hex
  have hn' := mem_openReceipts.mp hn
  exact ⟨n, mem_openReceipts.mpr ⟨h n hn hex, hn'.2⟩, rfl, rfl⟩

omit [DecidableEq F] in
theorem Tracked.rewrite (h : Tracked lineage v n) (spent : Bool)
    (betAmount expectedShares : Option ℤ) :
    Tracked lineage v { n with spent, betAmount, expectedShares } where
  receipt := ⟨h.receipt.found, h.receipt.condition, h.receipt.origin⟩
  bet := h.bet
  id := h.id
  commitment := h.commitment
  lineage := h.lineage
  stake := h.stake

omit [DecidableEq F] in
/-- Every note is one of the cache, or one of the cache that was marked. -/
theorem CacheOk.of_marked (h : CacheOk lineage ses v cache)
    (hmem : ∀ x ∈ cache', ∃ a ∈ cache, x = a ∨ x = a.markSpent ∨ x = { a with spent := false }) :
    CacheOk lineage ses v cache' where
  receipts x hx hkind howner := by
    obtain ⟨a, ha, rfl | rfl | rfl⟩ := hmem x hx
    · exact h.receipts _ ha hkind howner
    · exact (h.receipts a ha hkind howner).rewrite true _ _
    · exact (h.receipts a ha hkind howner).rewrite false _ _
  cash x hx hkind := by
    obtain ⟨a, ha, rfl | rfl | rfl⟩ := hmem x hx
    · exact h.cash _ ha hkind
    · exact h.cash a ha hkind
    · exact h.cash a ha hkind

omit [Field F] [DecidableEq F] in
theorem marked_of_mem_lookmap {p : Note F → Prop} [DecidablePred p] {x : Note F}
    (hx : x ∈ cache.lookmap fun n => if p n then some n.markSpent else none) :
    ∃ a ∈ cache, x = a ∨ x = a.markSpent ∨ x = { a with spent := false } := by
  rcases mem_lookmap hx with hx | ⟨a, ha, hf⟩
  · exact ⟨x, hx, .inl rfl⟩
  · split at hf
    · exact ⟨a, ha, .inr (.inl (Option.some.inj hf).symm)⟩
    · cases hf

theorem markNoteSpent_ok (h : CacheOk lineage ses v cache) (hash : F) :
    CacheOk lineage ses v (markNoteSpent cache (.commitment hash)) ∧
      KeepsOpen hidden ses cache (markNoteSpent cache (.commitment hash)) fun _ => False := by
  refine ⟨h.of_marked fun x hx => marked_of_mem_lookmap hx, .of_mem fun n hn _ => ?_⟩
  obtain ⟨hmem, -, hkind, howner, -⟩ := mem_openReceipts.mp hn
  exact mem_markNoteSpent hmem (h.receipts n hmem hkind howner).not_isOf

theorem markBetReceiptSpent_ok (h : CacheOk lineage ses v cache) (bet : F) :
    CacheOk lineage ses v (markBetReceiptSpent cache bet) ∧
      KeepsOpen hidden ses cache (markBetReceiptSpent cache bet) (· = bet) := by
  refine ⟨h.of_marked fun x hx => marked_of_mem_lookmap hx, .of_mem fun n hn hne => ?_⟩
  obtain ⟨hmem, -, hkind, howner, -⟩ := mem_openReceipts.mp hn
  exact mem_markBetReceiptSpent hmem fun hof =>
    hne ((h.receipts n hmem hkind howner).isReceiptOf hof)

omit [DecidableEq F] in
theorem addNote_ok (h : CacheOk lineage ses v cache) (hkind : n.kind ≠ .betReceipt)
    (hcommitment : ∃ hash, n.commitment = .commitment hash) :
    CacheOk lineage ses v (addNote cache n) ∧
      KeepsOpen hidden ses cache (addNote cache n) fun _ => False := by
  refine ⟨⟨fun x hx hk howner => ?_, fun x hx hk => ?_⟩, .of_mem fun n hn _ => ?_⟩
  · rcases List.mem_append.mp hx with hx | hx
    · exact h.receipts x hx hk howner
    · rw [List.mem_singleton.mp hx] at hk
      exact absurd hk hkind
  · rcases List.mem_append.mp hx with hx | hx
    · exact h.cash x hx hk
    · rw [List.mem_singleton.mp hx]
      exact hcommitment
  · exact mem_addNote (mem_openReceipts.mp hn).1

theorem reconcile_ok (h : CacheOk lineage ses v cache) (r : ReconcileReads F) :
    CacheOk lineage ses v (reconcileSpentStatus cache ses.address r) ∧
      KeepsOpen hidden ses cache (reconcileSpentStatus cache ses.address r) fun _ => False := by
  refine ⟨h.of_marked fun x hx => ?_, .of_mem fun n hn _ => ?_⟩
  · obtain ⟨a, ha, rfl⟩ := List.mem_map.mp hx
    refine ⟨a, ha, ?_⟩
    split
    · exact .inr (.inl rfl)
    · split
      · exact .inr (.inr rfl)
      · exact .inl rfl
  · obtain ⟨hmem, hspent, hkind, -⟩ := mem_openReceipts.mp hn
    exact mem_reconcileSpentStatus hmem hkind hspent

theorem replaceNote_ok (h : CacheOk lineage ses v cache) {next : Note F}
    (hn : Tracked lineage v n) (hnext : Tracked lineage v next) (hbet : next.bet = n.bet)
    (hdeposit : next.depositIndex = n.depositIndex)
    (hopen : next.spent = false ∧ next.kind = .betReceipt ∧ next.ownerAddress = ses.address ∧
      hidden next.bet = false) :
    CacheOk lineage ses v (replaceNote cache n.id next) ∧
      KeepsOpen hidden ses cache (replaceNote cache n.id next) fun _ => False := by
  have hmem : ∀ x ∈ replaceNote cache n.id next, x ∈ cache ∨ x = next := by
    intro x hx
    unfold replaceNote at hx
    split at hx
    · rcases mem_lookmap hx with hx | ⟨a, ha, hf⟩
      · exact .inl hx
      · split at hf
        · exact .inr (Option.some.inj hf).symm
        · cases hf
    · rcases List.mem_append.mp hx with hx | hx
      · exact .inl hx
      · exact .inr (List.mem_singleton.mp hx)
  refine ⟨⟨fun x hx hk howner => ?_, fun x hx hk => ?_⟩, fun x hx _ => ?_⟩
  · rcases hmem x hx with hx | rfl
    · exact h.receipts x hx hk howner
    · exact hnext
  · rcases hmem x hx with hx | rfl
    · exact h.cash x hx hk
    · exact absurd hopen.2.1 hk
  · obtain ⟨hxm, hxs, hxk, hxo, hxh⟩ := mem_openReceipts.mp hx
    have hxt := h.receipts x hxm hxk hxo
    by_cases hxb : x.bet = n.bet
    · refine ⟨next, mem_openReceipts.mpr ⟨self_mem_replaceNote, hopen⟩, hbet.trans hxb.symm, ?_⟩
      rw [hdeposit, hn.lineage, hxt.lineage, hxb]
    · refine ⟨x, mem_openReceipts.mpr ⟨mem_replaceNote hxm fun hof => hxb ?_, hxs, hxk, hxo, hxh⟩,
        rfl, rfl⟩
      rw [hn.id] at hof
      exact (hxt.isOf hof).trans hn.bet_eq.symm

end Cache

/-! ## The invariant -/

/-- An open receipt of the wallet, as a pass has it. -/
structure OpenReceipt (lineage : F → ℕ) (hidden : F → Bool) (ses : Session F Proof Sig)
    (v : VaultState F) (n : Note F) : Prop where
  tracked : Tracked lineage v n
  isOpen : n.spent = false ∧ n.kind = .betReceipt ∧ n.ownerAddress = ses.address ∧
    hidden n.bet = false

/-- A cash note whose lineage may end. -/
structure Drainable (E : Env F Proof Sig) (ses : Session F Proof Sig) (v : VaultState F)
    (n : Note F) : Prop where
  lineage : LineageClosed E ses v n.depositIndex
  commitment : ∃ hash, n.commitment = .commitment hash

/-- What holds of the receipts, the submission and the notes that a phase has. -/
def PhaseOk (E : Env F Proof Sig) (lineage : F → ℕ) (hidden : F → Bool) (ses : Session F Proof Sig)
    (v : VaultState F) : Phase F Proof Sig → Prop
  | .working queue => ∀ n ∈ queue.receipts, OpenReceipt lineage hidden ses v n
  | .submitted sub receipt rest =>
    (OpenReceipt lineage hidden ses v receipt ∧
      ∀ n ∈ rest.receipts, OpenReceipt lineage hidden ses v n) ∧
      sub.call.core.nullifierOfBet = receipt.bet ∧
      (∃ hash, sub.note.commitment = .commitment hash) ∧ (sub.retires = true → sub.call.Ends v)
  | .polling receipt _ rest =>
    OpenReceipt lineage hidden ses v receipt ∧ ∀ n ∈ rest, OpenReceipt lineage hidden ses v n
  | .merging notes largest _ => (∀ n ∈ notes, Drainable E ses v n) ∧ Drainable E ses v largest
  | .draining note _ => Drainable E ses v note
  | .loading _ | .withdrawing _ | .done => True

structure CacheInv (E : Env F Proof Sig) (lineage : F → ℕ) (hidden : F → Bool)
    (ses : Session F Proof Sig) (v : VaultState F) (cache : List (Note F)) : Prop where
  ok : CacheOk lineage ses v cache
  complete : Complete E hidden ses v cache

structure Inv (E : Env F Proof Sig) (lineage : F → ℕ) (hidden : F → Bool)
    (ses : Session F Proof Sig) (t : Liquidation F Proof Sig) : Prop where
  sound : Sound E t.vault
  cache : CacheInv E lineage hidden ses t.vault t.cache
  phase : PhaseOk E lineage hidden ses t.vault t.phase
  drained : ∀ x ∈ t.drained, LineageClosed E ses x.1 x.2

section Moving

variable {v v' v'' : VaultState F} {cache cache' : List (Note F)} {n : Note F}

theorem Moves.refl (v : VaultState F) : Moves E ses v v := ⟨.refl, fun _ _ _ h => h⟩

theorem Moves.trans (h : Moves E ses v v') (h' : Moves E ses v' v'') : Moves E ses v v'' :=
  ⟨h.ordinarily.trans h'.ordinarily,
    fun d bet hl hz => h'.noNewBet d bet hl (h.noNewBet d bet hl hz)⟩

theorem Moves.canBeCredited (h : Moves E ses v v') {d : ℕ} {bet : F}
    (hl : OfLineage E.circomlib ses d bet) (hc : CanBeCredited E v' bet) :
    CanBeCredited E v bet :=
  hc.earlier (fun hz => hc.1 (h.noNewBet d bet hl hz)) h.ordinarily

theorem LineageClosed.moves {d : ℕ} (h : LineageClosed E ses v d) (hm : Moves E ses v v') :
    LineageClosed E ses v' d :=
  fun bet hl hc => h bet hl (hm.canBeCredited hl hc)

theorem Drainable.moves (h : Drainable E ses v n) (hm : Moves E ses v v') :
    Drainable E ses v' n :=
  ⟨h.lineage.moves hm, h.commitment⟩

theorem Tracked.moves (h : Tracked lineage v n) (hs : Sound E v) (hm : Moves E ses v v') :
    Tracked lineage v' n := by
  have hk := keeps_later hs h.receipt.found hm.ordinarily
  exact ⟨h.receipt.keeps hk, h.bet, h.id, h.commitment, h.lineage, hk.stake h.stake⟩

theorem OpenReceipt.moves (h : OpenReceipt lineage hidden ses v n) (hs : Sound E v)
    (hm : Moves E ses v v') : OpenReceipt lineage hidden ses v' n :=
  ⟨h.tracked.moves hs hm, h.isOpen⟩

theorem CacheInv.moves (h : CacheInv E lineage hidden ses v cache) (hs : Sound E v)
    (hm : Moves E ses v v') : CacheInv E lineage hidden ses v' cache where
  ok := ⟨fun n hn hk ho => (h.ok.receipts n hn hk ho).moves hs hm, h.ok.cash⟩
  complete := fun d bet hl hc => h.complete d bet hl (hm.canBeCredited hl hc)

theorem PhaseOk.moves {phase : Phase F Proof Sig} (h : PhaseOk E lineage hidden ses v phase)
    (hs : Sound E v) (hm : Moves E ses v v') : PhaseOk E lineage hidden ses v' phase := by
  cases phase with
  | loading | withdrawing | done => trivial
  | working queue => exact fun n hn => (h n hn).moves hs hm
  | submitted sub receipt rest =>
    obtain ⟨⟨hr, hrest⟩, hbet, hnote, hends⟩ := h
    refine ⟨⟨hr.moves hs hm, fun n hn => (hrest n hn).moves hs hm⟩, hbet, hnote, fun hret => ?_⟩
    exact Ends.later hs (hbet ▸ hr.tracked.receipt.found) hm.ordinarily (hends hret)
  | polling receipt left rest =>
    exact ⟨h.1.moves hs hm, fun n hn => (h.2 n hn).moves hs hm⟩
  | merging notes largest iterations =>
    exact ⟨fun n hn => (h.1 n hn).moves hm, h.2.moves hm⟩
  | draining note iterations => exact Drainable.moves h hm

/-- A cache that keeps the open receipts of the bets that can be credited. -/
theorem CacheInv.of_keeps (h : CacheInv E lineage hidden ses v cache) {except : F → Prop}
    (hk : CacheOk lineage ses v cache' ∧ KeepsOpen hidden ses cache cache' except)
    (hex : ∀ bet, except bet → ¬ CanBeCredited E v bet) :
    CacheInv E lineage hidden ses v cache' where
  ok := hk.1
  complete := by
    intro d bet hl hc
    obtain ⟨n, hn, rfl, rfl⟩ := h.complete d bet hl hc
    exact hk.2 n hn fun he => hex _ he hc

theorem CacheInv.retire (h : CacheInv E lineage hidden ses v cache) {bet : F}
    (hc : ¬ CanBeCredited E v bet) :
    CacheInv E lineage hidden ses v (markBetReceiptSpent cache bet) :=
  h.of_keeps (markBetReceiptSpent_ok h.ok bet) fun _ he => he ▸ hc

theorem CacheInv.spend (h : CacheInv E lineage hidden ses v cache) {c : NoteId F}
    (hc : ∃ hash, c = .commitment hash) :
    CacheInv E lineage hidden ses v (markNoteSpent cache c) := by
  obtain ⟨hash, rfl⟩ := hc
  exact h.of_keeps (markNoteSpent_ok h.ok hash) fun _ => False.elim

theorem CacheInv.add (h : CacheInv E lineage hidden ses v cache) (hkind : n.kind ≠ .betReceipt)
    (hc : ∃ hash, n.commitment = .commitment hash) :
    CacheInv E lineage hidden ses v (addNote cache n) :=
  h.of_keeps (addNote_ok h.ok hkind hc) fun _ => False.elim

theorem CacheInv.reconcile (h : CacheInv E lineage hidden ses v cache) (r : ReconcileReads F) :
    CacheInv E lineage hidden ses v (reconcileSpentStatus cache ses.address r) :=
  h.of_keeps (reconcile_ok h.ok r) fun _ => False.elim

theorem CacheInv.retireAll (h : CacheInv E lineage hidden ses v cache) {lost : List (Note F)}
    (hc : ∀ n ∈ lost, ¬ CanBeCredited E v n.bet) :
    CacheInv E lineage hidden ses v
      (lost.foldl (fun cache n => markBetReceiptSpent cache n.bet) cache) := by
  induction lost generalizing cache with
  | nil => exact h
  | cons n lost ih =>
    exact ih (h.retire (hc n List.mem_cons_self)) fun n hn => hc n (List.mem_cons_of_mem _ hn)

theorem CacheInv.spendAll (h : CacheInv E lineage hidden ses v cache) {notes : List (Note F)}
    (hc : ∀ n ∈ notes, ∃ hash, n.commitment = .commitment hash) :
    CacheInv E lineage hidden ses v
      (notes.foldl (fun cache n => markNoteSpent cache n.commitment) cache) := by
  induction notes generalizing cache with
  | nil => exact h
  | cons n notes ih =>
    exact ih (h.spend (hc n List.mem_cons_self)) fun n hn => hc n (List.mem_cons_of_mem _ hn)

theorem CacheInv.lineageClosed (h : CacheInv E lineage hidden ses v cache) {d : ℕ}
    (hd : d ∉ (getOpenBetReceipts cache hidden ses.address).map Note.depositIndex) :
    LineageClosed E ses v d := by
  intro bet hl hc
  obtain ⟨n, hn, -, hdeposit⟩ := h.complete d bet hl hc
  exact hd (List.mem_map.mpr ⟨n, hn, hdeposit⟩)

theorem CacheInv.openReceipt (h : CacheInv E lineage hidden ses v cache)
    (hn : n ∈ getOpenBetReceipts cache hidden ses.address) :
    OpenReceipt lineage hidden ses v n := by
  obtain ⟨hmem, hopen⟩ := mem_openReceipts.mp hn
  exact ⟨h.ok.receipts n hmem hopen.2.1 hopen.2.2.1, hopen⟩

end Moving

/-! ## Each step -/

section Steps

variable {v v' : VaultState F} {cache : List (Note F)} {n : Note F} {queue rest : Queue F}

theorem phaseOk_next (h : ∀ n ∈ queue.receipts, OpenReceipt lineage hidden ses v n) :
    PhaseOk E lineage hidden ses v (queue.next : Phase F Proof Sig) := by
  unfold Queue.next
  split
  · trivial
  · trivial
  · trivial
  · exact h

omit [Field F] in
theorem next_ne_loading (p : Portfolio F) (stage : Stage) :
    ((p.queue stage).next : Phase F Proof Sig) ≠ .loading stage := by
  cases stage <;> unfold Queue.next <;> split <;> simp_all [Portfolio.queue]

/-- A receipt that is found lost is of a bet that is closed for good. -/
theorem lost_closedForGood {r r' : Reads F Sig} (hs : Sound E v) (hm : Moves E ses v v')
    (hr : Truthful E v r) (hr' : Truthful E v' r') (hn : ReceiptFor v n)
    (hlost : checkSettlementStatus keccak { r with marketResolvedAt := r'.marketResolvedAt } n
      = .lost)
    (hside : v'.marketResolvedAt (v.betRecords n.bet).marketId ≠ 0 →
      v.pendingCredit (v.betRecords n.bet).marketId (outcomeSideOf n) = 0 →
      v'.pendingCredit (v.betRecords n.bet).marketId (v.betRecords n.bet).outcomeSide = 0) :
    ClosedForGood E v' n.bet := by
  rcases
      checkSettlementStatus_cases keccak { r with marketResolvedAt := r'.marketResolvedAt } n with
    hst | hst | ⟨key, record, pps, hset, ⟨-, hst⟩ | ⟨hzero, -, w, hw, hpos⟩⟩
  · rw [hst] at hlost
    cases hlost
  · rw [hst] at hlost
    cases hlost
  · rw [hst] at hlost
    cases hlost
  · have hkey := hset.circuitKey
    rw [hn.circuitKey_eq, Option.some.injEq] at hkey
    subst hkey
    obtain rfl := hr.betRecord _ _ hset.found
    obtain rfl := hr.pendingCredit _ _ _ hset.payout
    obtain rfl := hr'.marketResolvedAt _ _ hw
    have hk := keeps_later hs hn.found hm.ordinarily
    have hset' : Settleable keccak ({ ses with reads := r } : Session F Proof Sig).reads n
        (v.betRecords n.bet).marketId (v.betRecords n.bet)
        (v.pendingCredit (v.betRecords n.bet).marketId (outcomeSideOf n)) :=
      ⟨hset.circuitKey, hset.filled, hset.found, hset.status, hset.unsold, hset.payout⟩
    have hfilled : WasFilled E v n.bet := by
      rcases hset'.outcome hr (hs.written _) with hmem | ⟨hact, hatt⟩
      · exact .inr (.inl (List.mem_singleton.mp hmem))
      · exact .inr (.inr ⟨hact, _, _, hatt.bound, by simpa using hatt.type, hatt.signer⟩)
    have hres : v'.marketResolvedAt (v.betRecords n.bet).marketId ≠ 0 := by
      intro hz
      rw [hz] at hpos
      exact absurd hpos (lt_irrefl 0)
    refine .inr ⟨hfilled.later hs hn.found hm.ordinarily, ?_⟩
    unfold PaysNothing
    rw [hk.marketId, hk.outcomeSide]
    exact ⟨hres, hside hres (UInt64.toNat_inj.mp hzero)⟩

theorem ordinarily_of_readMeanwhile {polls : List (Reads F Sig)}
    (hpolls : ∀ r ∈ polls, ReadMeanwhile E ses v v' r) :
    ∀ r ∈ polls, ∃ v₁, Ordinarily E v v₁ ∧ Ordinarily E v₁ v' ∧ Truthful E v₁ r := by
  intro r hr
  obtain ⟨v₁, h₁, h₂, h⟩ := hpolls r hr
  exact ⟨v₁, h₁.ordinarily, h₂.ordinarily, h⟩

/-- What a pass does with its first receipt. -/
theorem work_ok {r : Reads F Sig} {polls : List (Reads F Sig)} {receipt : Note F}
    {outcome : CreditOutcome F Proof Sig} (hs : Sound E v) (hm : Moves E ses v v')
    (hr : Truthful E v r) (hpolls : ∀ r ∈ polls, ReadMeanwhile E ses v v' r)
    (hq : ∀ n ∈ queue.receipts, OpenReceipt lineage hidden ses v n)
    (hwork : queue.work E.circomlib { ses with cache, reads := r } polls
      = some (receipt, outcome, rest)) :
    OpenReceipt lineage hidden ses v receipt ∧
      (∀ n ∈ rest.receipts, OpenReceipt lineage hidden ses v n) ∧
      OutcomeOk ses v' cache receipt outcome := by
  have hpolls' := ordinarily_of_readMeanwhile hpolls
  cases queue with
  | settling ready =>
    cases ready with
    | nil => cases hwork
    | cons bet ready =>
      cases hwork
      have hrec := hq bet.receipt List.mem_cons_self
      exact ⟨hrec, fun n hn => hq n (List.mem_cons_of_mem _ hn),
        (settlePosition_ok hr).later hs hrec.tracked.receipt.found hm.ordinarily⟩
  | reclaiming unfilled =>
    cases unfilled with
    | nil => cases hwork
    | cons receipt unfilled =>
      cases hwork
      have hrec := hq receipt List.mem_cons_self
      exact ⟨hrec, fun n hn => hq n (List.mem_cons_of_mem _ hn),
        reclaimBet_ok hs hrec.tracked.receipt.found hrec.tracked.stake hr hm.ordinarily hpolls'⟩
  | closing remaining =>
    cases remaining with
    | nil => cases hwork
    | cons receipt remaining =>
      cases hwork
      have hrec := hq receipt List.mem_cons_self
      have hfound := hrec.tracked.receipt.found
      refine ⟨hrec, fun n hn => hq n (List.mem_cons_of_mem _ hn), ?_⟩
      unfold closeReceipt
      split
      · trivial
      next record hrecord =>
        obtain rfl := hr.betRecord _ _ hrecord
        split
        next hterminal =>
          exact outcomeOk_retire hs hfound hm.ordinarily hterminal
        · split
          · exact (finalizeClose_ok hr).later hs hfound hm.ordinarily
          · exact reclaimBet_ok hs hfound hrec.tracked.stake hr hm.ordinarily hpolls'

theorem Moves.of_step (hs : Sound E v) {m : Msg} {c : Call F Proof Sig}
    (hexec : exec E m v c = .ok v') (hord : OrdinaryStep E v v')
    (hc : ∀ proof inputs, c ≠ .authorizeBet proof inputs) : Moves E ses v v' where
  ordinarily := .single hord
  noNewBet := fun d bet _ hz => by rw [marketId_exec hs.bets hc hexec, hz]

theorem CacheInv.applyCredit {sub : Submission F Proof Sig}
    (h : CacheInv E lineage hidden ses v cache) (hn : OpenReceipt lineage hidden ses v n)
    (hnote : ∃ hash, sub.note.commitment = .commitment hash)
    (hretires : sub.retires = true → ¬ CanBeCredited E v n.bet) :
    CacheInv E lineage hidden ses v (applyCredit E.circomlib cache sub n) := by
  have hspent := h.spend hnote
  have hretired : CacheInv E lineage hidden ses v
      (if sub.retires then markBetReceiptSpent (markNoteSpent cache sub.note.commitment) n.bet
        else markNoteSpent cache sub.note.commitment) := by
    split
    · exact hspent.retire (hretires ‹_›)
    · exact hspent
  have hadded := hretired.add (n := creditedNote E.circomlib sub n)
    (by unfold creditedNote; cases sub.call <;> simp) ⟨_, rfl⟩
  unfold Wallet.applyCredit
  simp only
  split
  · refine hadded.of_keeps (replaceNote_ok hadded.ok hn.tracked ?_ rfl rfl hn.isOpen)
      fun _ => False.elim
    exact hn.tracked.rewrite n.spent _ _
  · exact hadded

omit [Field F] [DecidableEq F] in
theorem mem_getFreeNotes {wallet : Address} (hn : n ∈ getFreeNotes cache wallet) :
    n ∈ cache ∧ n.kind ≠ .betReceipt := by
  simp only [getFreeNotes, List.mem_filter, decide_eq_true_eq] at hn
  exact ⟨hn.1, hn.2.2.1⟩

theorem drainable_of_clear (h : CacheInv E lineage hidden ses v cache)
    (hn : n ∈ clearFreeNotes cache hidden ses.address) : Drainable E ses v n := by
  simp only [clearFreeNotes, List.mem_filter, decide_eq_true_eq] at hn
  obtain ⟨hmem, hkind⟩ := mem_getFreeNotes hn.1
  exact ⟨h.lineageClosed hn.2, h.ok.cash n hmem hkind⟩

/-- The notes of a merge of clear notes are clear. -/
theorem selected_drainable (h : CacheInv E lineage hidden ses v cache) {sel : NoteSelection F}
    {preferred : Option ℕ}
    (hsel : selectNotesForAmount cache hidden ses.address
      (topSum (clearFreeNotes cache hidden ses.address))
      ⟨some ((getOpenBetReceipts cache hidden ses.address).map Note.depositIndex).toFinset,
        preferred⟩ = .ok sel) :
    ∀ n ∈ sel.notes, Drainable E ses v n := by
  have hmem : ∀ n ∈ sel.notes, n ∈ getFreeNotes cache ses.address := by
    rcases selectNotesForAmount_eq cache hidden ses.address
      (topSum (clearFreeNotes cache hidden ses.address))
      ⟨some ((getOpenBetReceipts cache hidden ses.address).map Note.depositIndex).toFinset,
        preferred⟩ with ⟨-, e, heq⟩ | ⟨-, e, heq⟩ | ⟨-, heq⟩
    · rw [heq] at hsel
      cases hsel
    · rw [heq] at hsel
      cases hsel
    · rw [heq] at hsel
      cases hsel
      intro n hn
      have hpool := (picked_sublist _ _ _).1.subset ((slot0First_perm _ _).mem_iff.mp hn)
      exact mem_sortByBalance.mp (mem_of_mem_pickFrom hpool)
  have hclear := selectNotesForAmount_clear hsel (le_of_eq ?_)
  · intro n hn
    refine drainable_of_clear h (List.mem_filter.mpr ⟨hmem n hn, ?_⟩)
    have hd := hclear n hn
    simpa [openDeposits] using hd
  · refine sumBalances_take_of_perm (sortByBalance_pairwise _)
      (List.Pairwise.filter _ (sortByBalance_pairwise _)) ?_ _
    refine (sortByBalance_perm _).trans ?_
    have hperm := (sortByBalance_perm (getFreeNotes cache ses.address)).symm.filter
      fun n => decide (n.depositIndex ∉ openDeposits cache hidden ses.address
        ⟨some ((getOpenBetReceipts cache hidden ses.address).map Note.depositIndex).toFinset,
          preferred⟩)
    simpa [clearFreeNotes, clearNotes, openDeposits] using hperm

theorem withdrawClear_ok (h : CacheInv E lineage hidden ses v cache) (iterations : ℕ) :
    PhaseOk E lineage hidden ses v
      (withdrawClear cache hidden ses.address iterations : Phase F Proof Sig) := by
  unfold withdrawClear
  simp only
  split
  · trivial
  next spendNote tail hsorted =>
    have hspend : Drainable E ses v spendNote := by
      refine drainable_of_clear h (mem_sortByBalance.mp ?_)
      rw [hsorted]
      exact List.mem_cons_self
    split
    · trivial
    · split
      · exact hspend
      · split
        next sel hsel => exact ⟨selected_drainable h hsel, hspend⟩
        · exact hspend

theorem drained_append {drained : List (VaultState F × ℕ)} {others : List (Note F)}
    (h : ∀ x ∈ drained, LineageClosed E ses x.1 x.2)
    (hothers : ∀ n ∈ others, LineageClosed E ses v n.depositIndex) :
    ∀ x ∈ drained ++ others.map fun n => (v, n.depositIndex), LineageClosed E ses x.1 x.2 := by
  intro x hx
  rcases List.mem_append.mp hx with hx | hx
  · exact h x hx
  · obtain ⟨n, hn, rfl⟩ := List.mem_map.mp hx
    exact hothers n hn

theorem mem_of_mem_queue {keccak : String → ℕ} {r : Reads F Sig} {receipts : List (Note F)}
    {n : Note F} {stage : Stage}
    (hn : n ∈ ((loadPortfolio keccak r receipts).queue stage).receipts) : n ∈ receipts := by
  cases stage with
  | settle =>
    simp only [Portfolio.queue, Queue.receipts, loadPortfolio, List.mem_map,
      List.mem_filterMap] at hn
    obtain ⟨bet, ⟨m, hm, hbet⟩, rfl⟩ := hn
    unfold ReadyToSettleBet.of? at hbet
    split at hbet
    · cases hbet
      exact hm
    · cases hbet
  | reclaim => exact (List.mem_filter.mp hn).1
  | close => exact (List.mem_filter.mp hn).1

theorem Inv.step {t t' : Liquidation F Proof Sig}
    (hi : Inv E lineage hidden ses t) (hstep : Step E keccak hidden ses t t')
    (hsides : SidesHold hidden ses t t') : Inv E lineage hidden ses t' := by
  obtain ⟨hs, hcache, hphase, hdrained⟩ := hi
  cases hstep with
  | others hm => exact ⟨hs.later hm.ordinarily, hcache.moves hs hm, hphase.moves hs hm, hdrained⟩
  | reconcile r => exact ⟨hs, hcache.reconcile r, hphase, hdrained⟩
  | @load stage v r r' p hph hm hr hr' hp =>
    have hs' := hs.later hm.ordinarily
    have hcache' := hcache.moves hs hm
    have hne : (p.queue stage).next ≠ t.phase := hph ▸ next_ne_loading p stage
    have hlost : ∀ n ∈ p.lostBets, ¬ CanBeCredited E v n.bet := by
      subst hp
      intro n hn
      simp only [loadPortfolio, List.mem_filter, decide_eq_true_eq] at hn
      have hopen := hcache.openReceipt hn.1
      exact (lost_closedForGood hs hm hr hr' hopen.tracked.receipt hn.2
        (hsides stage hph hne n hn.1)).not_canBeCredited hs'
    have hqueue : ∀ n ∈ (p.queue stage).receipts,
        n ∈ getOpenBetReceipts t.cache hidden ses.address := by
      subst hp
      exact fun n hn => mem_of_mem_queue hn
    refine ⟨hs', ?_, phaseOk_next fun n hn => hcache'.openReceipt (hqueue n hn), hdrained⟩
    cases stage with
    | settle => exact hcache'
    | reclaim | close => exact hcache'.retireAll hlost
  | @retire queue rest v r polls receipt hph hm hr hpolls hwork =>
    rw [hph] at hphase
    obtain ⟨hrec, hrest, hout⟩ := work_ok hs hm hr hpolls hphase hwork
    have hs' := hs.later hm.ordinarily
    refine ⟨hs', (hcache.moves hs hm).retire ?_, phaseOk_next fun n hn => (hrest n hn).moves hs hm,
      hdrained⟩
    exact ClosedForGood.not_canBeCredited (.inl hout) hs'
  | @idle queue rest v r polls receipt reason hph hm hr hpolls hwork =>
    rw [hph] at hphase
    obtain ⟨-, hrest, -⟩ := work_ok hs hm hr hpolls hphase hwork
    exact ⟨hs.later hm.ordinarily, hcache.moves hs hm,
      phaseOk_next fun n hn => (hrest n hn).moves hs hm, hdrained⟩
  | @submit queue rest v r polls receipt sub hph hm hr hpolls hwork =>
    rw [hph] at hphase
    obtain ⟨hrec, hrest, hout⟩ := work_ok hs hm hr hpolls hphase hwork
    refine ⟨hs.later hm.ordinarily, hcache.moves hs hm, ⟨⟨hrec.moves hs hm, fun n hn =>
      (hrest n hn).moves hs hm⟩, hout.bet, ?_, hout.ends⟩, hdrained⟩
    exact hcache.ok.cash _ hout.note.1 hout.note.2
  | @sell receipt rest r hph hr hsells hidle =>
    rw [hph] at hphase
    exact ⟨hs, hcache, ⟨hphase receipt List.mem_cons_self, fun n hn =>
      hphase n (List.mem_cons_of_mem _ hn)⟩, hdrained⟩
  | @pollRetire receipt left rest r hph hr hclose =>
    rw [hph] at hphase
    have hout := @finalizeClose_ok _ _ _ _ _ E ses t.vault t.cache receipt r hr
    rw [hclose] at hout
    refine ⟨hs, hcache.retire ?_, phaseOk_next hphase.2, hdrained⟩
    exact ClosedForGood.not_canBeCredited (.inl hout) hs
  | @pollSubmit receipt left rest r sub hph hr hclose =>
    rw [hph] at hphase
    have hout := @finalizeClose_ok _ _ _ _ _ E ses t.vault t.cache receipt r hr
    rw [hclose] at hout
    exact ⟨hs, hcache, ⟨hphase, hout.bet, hcache.ok.cash _ hout.note.1 hout.note.2, hout.ends⟩,
      hdrained⟩
  | @pollAgain receipt left rest r hph hr hclose =>
    rw [hph] at hphase
    exact ⟨hs, hcache, hphase, hdrained⟩
  | @pollEnd receipt left rest hph =>
    rw [hph] at hphase
    exact ⟨hs, hcache, phaseOk_next hphase.2, hdrained⟩
  | @confirm sub receipt rest m v hph hexec hfinal =>
    rw [hph] at hphase
    obtain ⟨⟨hrec, hrest⟩, hbet, hnote, hends⟩ := hphase
    have hm : Moves E ses t.vault v := .of_step hs hexec (ordinaryStep_credit hexec hfinal)
      fun proof inputs h => by cases hc : sub.call <;> rw [hc] at h <;> cases h
    have hs' := hs.later hm.ordinarily
    refine ⟨hs', (hcache.moves hs hm).applyCredit (hrec.moves hs hm) hnote fun hret => ?_,
      phaseOk_next fun n hn => (hrest n hn).moves hs hm, hdrained⟩
    have hterminal := terminal_of_ends hexec (hends hret)
    rw [hbet] at hterminal
    exact ClosedForGood.not_canBeCredited (.inl hterminal) hs'
  | @fail sub receipt rest hph =>
    rw [hph] at hphase
    exact ⟨hs, hcache, phaseOk_next hphase.1.2, hdrained⟩
  | withdraw hph => exact ⟨hs, hcache, withdrawClear_ok hcache _, hdrained⟩
  | @merge first largest others iterations m v root proof hph hlength hexec hfinal =>
    rw [hph] at hphase
    have hm : Moves E ses t.vault v := .of_step hs hexec (ordinaryStep_consolidate hexec hfinal)
      fun _ _ h => by cases h
    have hs' := hs.later hm.ordinarily
    refine ⟨hs', ?_, ⟨((hphase.1 first List.mem_cons_self).moves hm).lineage, ⟨_, rfl⟩⟩, ?_⟩
    · exact CacheInv.add ((hcache.moves hs hm).spendAll fun n hn => (hphase.1 n hn).commitment)
        (by simp [mergedNote]) ⟨_, rfl⟩
    · exact drained_append hdrained fun n hn => (hphase.1 n (List.mem_cons_of_mem _ hn)).lineage
  | @mergeLost first largest others iterations m v root proof hph hlength hexec hfinal =>
    rw [hph] at hphase
    have hm : Moves E ses t.vault v := .of_step hs hexec (ordinaryStep_consolidate hexec hfinal)
      fun _ _ h => by cases h
    exact ⟨hs.later hm.ordinarily, hcache.moves hs hm, hphase.2.moves hm,
      drained_append hdrained fun n hn => (hphase.1 n (List.mem_cons_of_mem _ hn)).lineage⟩
  | mergeFail hph =>
    rw [hph] at hphase
    exact ⟨hs, hcache, hphase.2, hdrained⟩
  | @drain note iterations m v amount root proof confirmed hph hamount hexec hfinal =>
    rw [hph] at hphase
    have hm : Moves E ses t.vault v := .of_step hs hexec (ordinaryStep_withdraw hexec hfinal)
      fun _ _ h => by cases h
    have hlineage : ∀ n ∈ [note], LineageClosed E ses t.vault n.depositIndex := by
      intro n hn
      rw [List.mem_singleton.mp hn]
      exact hphase.lineage
    refine ⟨hs.later hm.ordinarily, ?_, ?_, drained_append hdrained hlineage⟩
    · cases confirmed with
      | true => exact (hcache.moves hs hm).spend hphase.commitment
      | false => exact hcache.moves hs hm
    · cases confirmed <;> trivial
  | drainFail hph => exact ⟨hs, hcache, trivial, hdrained⟩

end Steps

/-! ## Every run -/

/-- What `creditSettlement` asks for as the total credit. -/
def settlementCredit (s : VaultState F) (bet : F) : ℕ :=
  ((s.betRecords bet).expectedShares.toNat - (s.betRecords bet).soldShares.toNat)
    * (s.pendingCredit (s.betRecords bet).marketId (s.betRecords bet).outcomeSide).toNat

theorem Inv.run {t t' : Liquidation F Proof Sig} (hi : Inv E lineage hidden ses t)
    (hrun : Run E keccak hidden ses t t') : Inv E lineage hidden ses t' := by
  induction hrun with
  | refl => exact hi
  | tail _ hstep ih => exact ih.step hstep.1 hstep.2

def settledBet : Fr := (1 : ℕ)

def refusedBet : Fr := (2 ^ 64 + 1 : ℕ)

/-- A receipt as recovery builds it. -/
def recoveredReceipt (bet market : Fr) (depositIndex : ℕ) : Note Fr where
  id := .receipt bet
  kind := .betReceipt
  ownerAddress := 7
  depositIndex := depositIndex
  balance := 2000000
  nonce := 0
  commitment := .receipt bet
  nullifier := bet
  spent := false
  marketId := some (.hex market)
  side := none
  expectedShares := some 10
  nullifierOfBet := some bet
  positionId := none
  conditionId := some market
  rawConditionId := none
  betAmount := some 2000000
  protocolFee := none
  derivationVersion := none

def settledReceipt : Note Fr := recoveredReceipt settledBet (11 : ℕ) 0

def refusedReceipt : Note Fr := recoveredReceipt refusedBet (13 : ℕ) 1

def changeNote : Note Fr :=
  { settledReceipt with
    id := .commitment (8 : ℕ)
    kind := .betOutput
    balance := 3000000
    nonce := 1
    commitment := .commitment (8 : ℕ)
    nullifier := (2 : ℕ) }

section Run

variable {side : UInt8} {cache : List (Note Fr)} {n : Note Fr}

/-- The caches of the run. -/
def TwoBetsCache (cache : List (Note Fr)) : Prop :=
  cache = [settledReceipt, refusedReceipt, changeNote] ∨
    cache = [settledReceipt.markSpent, refusedReceipt, changeNote]

theorem twoBets_openReceipts :
    getOpenBetReceipts [settledReceipt, refusedReceipt, changeNote] (fun _ => false) 7
        = [settledReceipt, refusedReceipt] ∧
      getOpenBetReceipts [settledReceipt.markSpent, refusedReceipt, changeNote]
        (fun _ => false) 7 = [refusedReceipt] :=
  ⟨rfl, rfl⟩

theorem TwoBetsCache.openReceipt (hcache : TwoBetsCache cache)
    (hn : n ∈ getOpenBetReceipts cache (fun _ => false) 7) :
    n = settledReceipt ∨ n = refusedReceipt := by
  rcases hcache with rfl | rfl
  · rw [twoBets_openReceipts.1] at hn
    simpa using hn
  · rw [twoBets_openReceipts.2] at hn
    exact .inr (List.mem_singleton.mp hn)

end Run

end Polyshield.Wallet

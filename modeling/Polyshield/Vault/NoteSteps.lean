import Polyshield.Vault.Conservation

/-!
# The notes of each lineage

What each call commits and spends, note by note, and what that keeps in every
run: a note of a nonce other than 0 continues one whose nullifier is spent, so
all notes before the last one of a lineage are spent, no nonce has two notes
unless two deposits share a secret, and every note descends from a deposit.
-/

namespace Polyshield

open Merkle CommitmentMerkleTree

variable {F Proof Sig : Type} [Field F] [DecidableEq F] {E : Env F Proof Sig}

/-! ## One call -/

/-- A deposit commits the first note of a lineage. -/
structure Starts (C : Circomlib F) (s s' : VaultState F) (n : Note F) : Prop where
  nonce : n.nonce = 0
  hidden : hiddenNotes C s'.tree = hiddenNotes C s.tree ++ [n]
  spent : s'.spent = s.spent

/-- A call spends a note and commits the next one of its lineage, if there is one. -/
structure Advances (C : Circomlib F) (s s' : VaultState F) (n : Note F) (next : Option (Note F)) :
    Prop where
  mem : n ∈ hiddenNotes C s.tree
  unspent : s.spent (n.nullifier C) = false
  follows : ∀ m ∈ next, m.Follows n
  hidden : hiddenNotes C s'.tree = hiddenNotes C s.tree ++ next.toList
  spent : s'.spent = Function.update s.spent (n.nullifier C) true

/-- A slot of a consolidation is empty, or it spends a note of the owner. -/
inductive SlotNote (C : Circomlib F) (s : VaultState F) (owner : F) : F → Option (Note F) → Prop
  | inactive : SlotNote C s owner 0 none
  | active (n : Note F) (mem : n ∈ hiddenNotes C s.tree)
    (unspent : s.spent (n.nullifier C) = false) (owned : n.owner = owner) :
    SlotNote C s owner (n.nullifier C) (some n)

omit [DecidableEq F] in
theorem SlotNote.of_some {C : Circomlib F} {s : VaultState F} {owner x : F} {slot : Option (Note F)}
    {n : Note F} (h : SlotNote C s owner x slot) (hn : slot = some n) :
    n ∈ hiddenNotes C s.tree ∧ n.nullifier C = x ∧ s.spent (n.nullifier C) = false ∧
      n.owner = owner := by
  cases h with
  | inactive => cases hn
  | active k hmem hun howned =>
    obtain rfl := Option.some.inj hn
    exact ⟨hmem, rfl, hun, howned⟩

omit [DecidableEq F] in
theorem SlotNote.eq_zero {C : Circomlib F} {s : VaultState F} {owner x : F}
    (h : SlotNote C s owner x none) : x = 0 := by
  cases h
  rfl

/-- A consolidation spends the notes of its slots and commits the next note after slot 0's. -/
structure Consolidation (C : Circomlib F) (s s' : VaultState F) (nullifier : Fin 4 → F)
    (slot : Fin 4 → Option (Note F)) (n m : Note F) : Prop where
  slots : ∀ j, SlotNote C s n.owner (nullifier j) (slot j)
  first : slot 0 = some n
  follows : m.Follows n
  balance : m.balance = ∑ j, slotBalance (slot j)
  hidden : hiddenNotes C s'.tree = hiddenNotes C s.tree ++ [m]
  spent : ∀ x, s'.spent x = true ↔ s.spent x = true ∨ (x ≠ 0 ∧ ∃ j, nullifier j = x)

theorem SpendsSlots.spent_iff {nullifier : Fin 4 → F} {js : List (Fin 4)}
    {spent spent' : F → Bool} (h : SpendsSlots nullifier js spent spent') (x : F) :
    spent' x = true ↔ spent x = true ∨ (x ≠ 0 ∧ ∃ j ∈ js, nullifier j = x) := by
  induction h with
  | nil => simp
  | skip hj _ ih =>
    rw [ih]
    simp only [List.mem_cons, exists_eq_or_imp, hj]
    constructor
    · rintro (hx | ⟨h0, hx⟩)
      · exact .inl hx
      · exact .inr ⟨h0, .inr hx⟩
    · rintro (hx | ⟨h0, rfl | hx⟩)
      · exact .inl hx
      · exact absurd rfl h0
      · exact .inr ⟨h0, hx⟩
  | @spend j js spent spent' hj _ _ ih =>
    rw [ih, Function.update_apply]
    simp only [List.mem_cons, exists_eq_or_imp]
    by_cases hx : x = nullifier j
    · subst hx
      simp [hj]
    · simp [hx, Ne.symm hx]

theorem Credits.logs {s s' : VaultState F} {i : BetCancelPublicInputs F} {record' : BetRecord F}
    {fee' : UInt64} {acc' : ℕ} {events : List (Event F)}
    (h : Credits E s s' i record' fee' acc' events) : s'.logs = s.logs ++ events := by
  obtain ⟨t', -, rfl⟩ := h.effect
  rfl

section Calls

variable (hE : E.Ideal) {s s' : VaultState F} (hs : BooksInv E s) {m : Msg} {proof : Proof}
  {att : OperatorAttestation F} {sig : Sig}

include hE hs

/-- Spending a note a circuit opened and committing the note that follows it. -/
theorem Grows.hidden {n : Note F} {c : F} {t' : CommitmentMerkleTree F}
    (hcom : n.commitment E.circomlib = c) (ht : Grows E s.tree c t') :
    hiddenNotes E.circomlib t' = hiddenNotes E.circomlib s.tree ++ [n] := by
  cases ht with
  | none => exact absurd hcom (n.commitment_ne_zero hE.injective)
  | leaf _ hins =>
    rw [← hcom] at hins
    exact hiddenNotes_insert hE.injective hE.wide hs.notes.history hins

theorem Grows.advances {n m : Note F} {root nul c : F}
    (hroot : s.tree.isKnownRoot root = true) (hn : n.Opens E.circomlib root nul)
    (hun : s.spent nul = false) (hm : m.Follows n) (hcom : m.commitment E.circomlib = c)
    (ht : Grows E s.tree c s'.tree) (hspent : s'.spent = Function.update s.spent nul true) :
    Advances E.circomlib s s' n (some m) where
  mem := hs.notes.mem_of_opens hE.injective hE.wide hroot hn
  unspent := by rw [hn.nullifier]; exact hun
  follows := fun m' hm' => by
    obtain rfl := Option.mem_some.mp hm'
    exact hm
  hidden := ht.hidden hE hs hcom
  spent := by rw [hn.nullifier]; exact hspent

theorem starts_deposit {commitment : F} {amount : ℕ}
    (h : deposit E m s proof commitment amount = .ok s') :
    ∃ n : Note F, Starts E.circomlib s s' n ∧ n.commitment E.circomlib = commitment ∧
      n.owner = (m.sender.toNat : F) ∧ n.balance = amount := by
  obtain ⟨hv, hcap, r, t', usdc', ht, rfl⟩ := deposit_ok h
  have hamount : amount < 2 ^ 253 := by
    have : depositCap < 2 ^ 253 := by decide
    omega
  obtain ⟨n, rfl, howner, hnonce, hbal⟩ := Deposit.sound hE.spec hE.wide hamount (hE.sound hv)
  exact ⟨n, ⟨hnonce, hiddenNotes_insert hE.injective hE.wide hs.notes.history ht, rfl⟩, rfl, howner,
    hbal⟩

theorem advances_authorizeBet {inputs : BetAuthPublicInputs F}
    (h : authorizeBet E m s proof inputs = .ok s') :
    ∃ n next : Note F, Advances E.circomlib s s' n (some next) ∧
      n.nullifier E.circomlib = inputs.nullifier ∧
      next.commitment E.circomlib = inputs.newCommitment ∧
      next.balance + inputs.betAmount.toNat
        + ((protocolFeeOf s.feeConfig inputs.betAmount).toNat
          + s.feeConfig.relayGasFeeUSDC.toNat) = n.balance := by
  obtain ⟨hun, hroot, fee, hfee, hv, t', ht, rfl⟩ := authorizeBet_ok h
  have hw : BetAuth E.circomlib inputs.merkleRoot inputs.nullifier inputs.newCommitment
      (inputs.betAmount.toNat : F) (u64 inputs.price) (u64 inputs.expectedShares) inputs.marketId
      (inputs.outcomeSide.toNat : F) inputs.positionId (fee.toNat : F) := hE.sound hv
  obtain ⟨n, next, hn, hm, hcom, hbal⟩ :=
    BetAuth.sound hE.spec hE.wide inputs.betAmount.toNat_lt fee.toNat_lt hw
  exact ⟨n, next, Grows.advances hE hs hroot hn hun hm hcom ht rfl, hn.nullifier, hcom,
    hfee ▸ hbal⟩

theorem advances_withdraw {inputs : WithdrawalPublicInputs F} {recipientAddress : Address}
    (h : withdraw E s proof inputs recipientAddress = .ok s') :
    ∃ (n : Note F) (next : Option (Note F)), Advances E.circomlib s s' n next ∧
      n.nullifier E.circomlib = inputs.nullifier ∧ n.owner = (recipientAddress.toNat : F) ∧
      match next with
      | none => inputs.newCommitment = 0 ∧ n.balance = inputs.withdrawalAmount.toNat
      | some next => next.commitment E.circomlib = inputs.newCommitment ∧
          next.balance + inputs.withdrawalAmount.toNat = n.balance := by
  obtain ⟨hun, hroot, hv, -, hrec, t', usdc', ht, rfl⟩ := withdraw_ok h
  obtain ⟨n, hn, howner, hout⟩ :=
    Withdrawal.sound hE.spec hE.wide inputs.withdrawalAmount.toNat_lt (hE.sound hv)
  have howner' : n.owner = (recipientAddress.toNat : F) :=
    (hE.injective.poseidon2_inj (howner.trans hrec.symm)).1
  rcases hout with ⟨h0, hbal⟩ | ⟨next, hm, hcom, -, hbal⟩
  · rw [h0] at ht
    cases ht with
    | leaf hc _ => exact absurd rfl hc
    | none =>
      have hmem := hs.notes.mem_of_opens hE.injective hE.wide hroot hn
      refine ⟨n, none, ⟨hmem, by rw [hn.nullifier]; exact hun, by simp, ?_, ?_⟩,
        hn.nullifier, howner', h0, hbal⟩
      · exact (List.append_nil _).symm
      · rw [hn.nullifier]
  · exact ⟨n, some next, Grows.advances hE hs hroot hn hun hm hcom ht rfl, hn.nullifier, howner',
      hcom, hbal⟩

/-- A credit adds its amount to a note, for a bet placed from an earlier note of the lineage. -/
theorem Credits.advances {i : BetCancelPublicInputs F} {record' : BetRecord F} {fee' : UInt64}
    {acc' : ℕ} {events : List (Event F)} (h : Credits E s s' i record' fee' acc' events)
    {amount : UInt64} (hw : CreditTemplate E.circomlib i.merkleRoot i.nullifier i.newCommitment
      i.nullifierOfBet (u64 amount)) :
    ∃ n next : Note F, Advances E.circomlib s s' n (some next) ∧
      n.nullifier E.circomlib = i.nullifier ∧ next.commitment E.circomlib = i.newCommitment ∧
      next.balance = n.balance + amount.toNat ∧
      ∃ k < n.nonce, NullifierHash E.circomlib n.secret (k : F) = i.nullifierOfBet := by
  obtain ⟨n, next, hn, hm, hcom, hbal, hbet⟩ :=
    CreditTemplate.sound hE.spec hE.wide amount.toNat_lt hw
  obtain ⟨t', ht, rfl⟩ := h.effect
  exact ⟨n, next, Grows.advances hE hs h.known hn h.unspent hm hcom ht rfl, hn.nullifier, hcom,
    hbal, hbet⟩

theorem consolidation_consolidate {inputs : ConsolidatePublicInputs F}
    (h : consolidate E s proof inputs = .ok s') :
    ∃ slot n next, Consolidation E.circomlib s s' inputs.nullifier slot n next ∧
      next.commitment E.circomlib = inputs.newCommitment := by
  obtain ⟨hroot, h0, hun, hv, spent', r, t', hsp, hins, rfl⟩ := consolidate_ok h
  have hw : Consolidate E.circomlib inputs.merkleRoot
      ![inputs.nullifier 0, inputs.nullifier 1, inputs.nullifier 2, inputs.nullifier 3]
      inputs.newCommitment := hE.sound hv
  have hvec : ![inputs.nullifier 0, inputs.nullifier 1, inputs.nullifier 2, inputs.nullifier 3]
      = inputs.nullifier := by
    funext j
    fin_cases j <;> rfl
  rw [hvec] at hw
  obtain ⟨slot, n, next, owner, hslot, hslot0, hm, hcom, hbal⟩ := hw.sound hE.spec hE.wide
  have hspends : ∀ j k, slot j = some k →
      k.Opens E.circomlib inputs.merkleRoot (inputs.nullifier j) ∧ k.owner = owner := by
    intro j k hj
    have hsj := hslot j
    rw [hj] at hsj
    exact hsj.opens
  have howner : owner = n.owner := (hspends 0 n hslot0).2.symm
  rw [← hcom] at hins
  refine ⟨slot, n, next, ⟨fun j => ?_, hslot0, hm, hbal, ?_, fun x => ?_⟩, hcom⟩
  · cases hj : slot j with
    | none =>
      have hsj := hslot j
      rw [hj] at hsj
      rw [hsj.eq_zero]
      exact .inactive
    | some k =>
      obtain ⟨hk, hko⟩ := hspends j k hj
      have hne := k.nullifier_ne_zero hE.injective
      rw [hk.nullifier] at hne
      rw [← hk.nullifier]
      refine .active k (hs.notes.mem_of_opens hE.injective hE.wide hroot hk) ?_ (hko.trans howner)
      rw [hk.nullifier]
      exact hun j hne
  · exact hiddenNotes_insert hE.injective hE.wide hs.notes.history hins
  · rw [hsp.spent_iff]
    simp only [List.mem_cons, List.not_mem_nil, or_false]
    refine or_congr_right (and_congr_right fun _ => ⟨?_, ?_⟩)
    · rintro ⟨j, -, hj⟩
      exact ⟨j, hj⟩
    · rintro ⟨j, hj⟩
      exact ⟨j, by fin_cases j <;> simp, hj⟩

end Calls

/-! ## Every call -/

/-- The event is of no note and of no bet's record, but for a cancellation by the admin. -/
def Event.isAdministrative : Event F → Bool
  | .marketResolved .. | .conditionRegistered .. | .fundedPolymarketWallet _
  | .polymarketReturnAcknowledged .. | .adminBetCancelled _ | .feeParamsUpdated _
  | .feesWithdrawn .. | .adminSwept .. => true
  | _ => false

/-- What a call commits: at most one note, which continues a note that the call spends, or which
it logs as a deposit. -/
structure Commits (C : Circomlib F) (s s' : VaultState F) (ms : List (Note F))
    (events : List (Event F)) : Prop where
  hidden : hiddenNotes C s'.tree = hiddenNotes C s.tree ++ ms
  one : ms.length ≤ 1
  logs : s'.logs = s.logs ++ events
  continues : ∀ m ∈ ms, m.nonce ≠ 0 → ∃ n ∈ hiddenNotes C s.tree, m.Follows n ∧
    s.spent (n.nullifier C) = false ∧ s'.spent (n.nullifier C) = true
  starts : ∀ m ∈ ms, m.nonce = 0 → ∃ depositor : Address, m.owner = (depositor.toNat : F) ∧
    .deposited depositor (m.commitment C) m.balance ∈ events
  deposits : ∀ depositor c amount, .deposited depositor c amount ∈ events → ∃ m ∈ ms,
    m.nonce = 0 ∧ m.owner = (depositor.toNat : F) ∧ m.commitment C = c ∧ m.balance = amount
  /-- A consolidation is of notes of one owner. -/
  merges : ∀ nullifiers c, .consolidated nullifiers c ∈ events → ∃ owner, ∀ j, nullifiers j ≠ 0 →
    ∃ n ∈ hiddenNotes C s.tree, n.nullifier C = nullifiers j ∧ n.owner = owner
  mono : ∀ x, s.spent x = true → s'.spent x = true

section Commits

variable {C : Circomlib F} {s s' : VaultState F} {events : List (Event F)}

/-- The event is of a deposit or a consolidation. -/
def Event.isOfNotes : Event F → Bool
  | .deposited .. | .consolidated .. => true
  | _ => false

omit [Field F] [DecidableEq F] in
theorem not_deposited (he : ∀ x ∈ events, x.isOfNotes = false) {depositor : Address} {c : F}
    {amount : ℕ} : .deposited depositor c amount ∉ events := fun h => by
  have := he _ h
  simp [Event.isOfNotes] at this

omit [Field F] [DecidableEq F] in
theorem not_consolidated (he : ∀ x ∈ events, x.isOfNotes = false) {nullifiers : Fin 4 → F}
    {c : F} : .consolidated nullifiers c ∉ events := fun h => by
  have := he _ h
  simp [Event.isOfNotes] at this

omit [DecidableEq F] in
theorem Starts.commits {n : Note F} (h : Starts C s s' n) {depositor : Address}
    (howner : n.owner = (depositor.toNat : F))
    (hlogs : s'.logs = s.logs ++ [.deposited depositor (n.commitment C) n.balance]) :
    Commits C s s' [n] [.deposited depositor (n.commitment C) n.balance] where
  hidden := h.hidden
  one := le_rfl
  logs := hlogs
  continues := fun m hm hne => by
    obtain rfl := List.mem_singleton.mp hm
    exact absurd h.nonce hne
  starts := fun m hm _ => by
    obtain rfl := List.mem_singleton.mp hm
    exact ⟨depositor, howner, List.mem_singleton_self _⟩
  deposits := fun depositor' c amount hmem => by
    obtain ⟨rfl, rfl, rfl⟩ := Event.deposited.inj (List.mem_singleton.mp hmem)
    exact ⟨n, List.mem_singleton_self n, h.nonce, howner, rfl, rfl⟩
  merges := by simp
  mono := fun x hx => by rw [h.spent]; exact hx

theorem Advances.commits {n : Note F} {next : Option (Note F)} (h : Advances C s s' n next)
    (hlogs : s'.logs = s.logs ++ events) (he : ∀ x ∈ events, x.isOfNotes = false) :
    Commits C s s' next.toList events where
  hidden := h.hidden
  one := by cases next <;> simp
  logs := hlogs
  continues := fun m hm _ => ⟨n, h.mem, h.follows m (Option.mem_toList.mp hm), h.unspent, by
    rw [h.spent, Function.update_self]⟩
  starts := fun m hm h0 => by
    have := (h.follows m (Option.mem_toList.mp hm)).nonce
    omega
  deposits := fun _ _ _ hmem => absurd hmem (not_deposited he)
  merges := fun _ _ hmem => absurd hmem (not_consolidated he)
  mono := fun x hx => by rw [h.spent]; exact spent_update_mono x hx

omit [DecidableEq F] in
theorem Consolidation.commits {nullifier : Fin 4 → F} {slot : Fin 4 → Option (Note F)}
    {n m : Note F} (hI : C.Injective) (h : Consolidation C s s' nullifier slot n m)
    (hlogs : s'.logs = s.logs ++ [.consolidated nullifier (m.commitment C)]) :
    Commits C s s' [m] [.consolidated nullifier (m.commitment C)] where
  hidden := h.hidden
  one := le_rfl
  logs := hlogs
  continues := fun m' hm _ => by
    obtain rfl := List.mem_singleton.mp hm
    obtain ⟨hmem, hnul, hun, -⟩ := (h.slots 0).of_some h.first
    exact ⟨n, hmem, h.follows, hun,
      (h.spent _).mpr (.inr ⟨n.nullifier_ne_zero hI, 0, hnul.symm⟩)⟩
  starts := fun m' hm h0 => by
    obtain rfl := List.mem_singleton.mp hm
    have := h.follows.nonce
    omega
  deposits := by simp
  merges := fun nullifiers c hmem => by
    obtain ⟨rfl, rfl⟩ := Event.consolidated.inj (List.mem_singleton.mp hmem)
    refine ⟨n.owner, fun j hj => ?_⟩
    cases hslot : slot j with
    | none =>
      have hzero := h.slots j
      rw [hslot] at hzero
      exact absurd hzero.eq_zero hj
    | some k =>
      obtain ⟨hmem, hnul, -, howner⟩ := (h.slots j).of_some hslot
      exact ⟨k, hmem, hnul, howner⟩
  mono := fun x hx => (h.spent x).mpr (.inl hx)

omit [DecidableEq F] in
theorem commits_nil (htree : s'.tree = s.tree) (hspent : s'.spent = s.spent)
    (hlogs : s'.logs = s.logs ++ events) (he : ∀ x ∈ events, x.isOfNotes = false) :
    Commits C s s' [] events where
  hidden := by rw [htree, List.append_nil]
  one := Nat.zero_le 1
  logs := hlogs
  continues := by simp
  starts := by simp
  deposits := fun _ _ _ hmem => absurd hmem (not_deposited he)
  merges := fun _ _ hmem => absurd hmem (not_consolidated he)
  mono := fun x hx => by rw [hspent]; exact hx

omit [Field F] [DecidableEq F] in
theorem Event.isOfNotes_of_administrative {e : Event F} (h : e.isAdministrative = true) :
    e.isOfNotes = false := by
  cases e <;> first | rfl | cases h

theorem administrative_logs {m : Msg} {c : Call F Proof Sig} (hc : c.isAdministrative = true)
    (h : exec E m s c = .ok s') :
    ∃ events, s'.logs = s.logs ++ events ∧ ∀ e ∈ events, e.isAdministrative = true := by
  cases c <;> simp only [Call.isAdministrative, Bool.false_eq_true] at hc <;>
    simp only [exec, resolveMarket, registerCondition, setFeeParams, setSigningLayerOperator,
      setDeploymentCap, setAdminCancelTimelock, pause, unpause, adminSweep, fundPolymarketWallet,
      acknowledgePolymarketReturn, onlyOwner, whenNotPaused, Except.bind_eq_ok, revertIf_eq_ok,
      Except.pure_eq_ok, exists_const] at h
  case resolveMarket =>
    obtain ⟨-, -, -, slots, -, -, -, rfl⟩ := h
    exact ⟨_, rfl, by simp [Event.isAdministrative]⟩
  case registerCondition =>
    obtain ⟨-, rfl⟩ := h
    exact ⟨_, rfl, by simp [Event.isAdministrative]⟩
  case setFeeParams =>
    obtain ⟨-, -, -, rfl⟩ := h
    exact ⟨_, rfl, by simp [Event.isAdministrative]⟩
  case setSigningLayerOperator | setDeploymentCap =>
    obtain ⟨-, rfl⟩ := h
    exact ⟨[], by simp, by simp⟩
  case setAdminCancelTimelock | pause | unpause =>
    obtain ⟨-, -, rfl⟩ := h
    exact ⟨[], by simp, by simp⟩
  case adminSweep =>
    obtain ⟨-, -, usdc', -, rfl⟩ := h
    exact ⟨_, rfl, by simp [Event.isAdministrative]⟩
  case fundPolymarketWallet =>
    obtain ⟨-, -, -, dep, -, -, usdc', -, rfl⟩ := h
    exact ⟨_, rfl, by simp [Event.isAdministrative]⟩
  case acknowledgePolymarketReturn =>
    obtain ⟨-, -, dep, -, rfl⟩ := h
    exact ⟨_, rfl, by simp [Event.isAdministrative]⟩

end Commits

theorem commits_exec (hE : E.Ideal) {s s' : VaultState F} (hs : BooksInv E s) {m : Msg}
    {c : Call F Proof Sig} (h : exec E m s c = .ok s') :
    ∃ ms events, Commits E.circomlib s s' ms events := by
  by_cases hc : c.isAdministrative = true
  · obtain ⟨hb, -⟩ := administrative_ok hc h
    obtain ⟨events, hlogs, he⟩ := administrative_logs hc h
    exact ⟨[], events, commits_nil hb.tree hb.spent hlogs fun e hmem =>
      Event.isOfNotes_of_administrative (he e hmem)⟩
  · cases c <;> simp only [Call.isAdministrative, not_true_eq_false] at hc <;>
      simp only [exec] at h
    case deposit =>
      obtain ⟨n, hn, rfl, howner, rfl⟩ := starts_deposit hE hs h
      obtain ⟨-, -, r, t', usdc', -, rfl⟩ := deposit_ok h
      exact ⟨_, _, hn.commits howner rfl⟩
    case authorizeBet =>
      obtain ⟨n, next, hn, -⟩ := advances_authorizeBet hE hs h
      obtain ⟨-, -, fee, -, -, t', -, rfl⟩ := authorizeBet_ok h
      exact ⟨_, _, hn.commits rfl (by simp [Event.isOfNotes])⟩
    case withdraw =>
      obtain ⟨n, next, hn, -⟩ := advances_withdraw hE hs h
      obtain ⟨-, -, -, -, -, t', usdc', -, rfl⟩ := withdraw_ok h
      exact ⟨_, _, hn.commits rfl (by simp [Event.isOfNotes])⟩
    case creditSettlement =>
      obtain ⟨hcr, -, -, -, -, hv⟩ := creditSettlement_ok h
      obtain ⟨n, next, hn, -⟩ := hcr.advances hE hs (hE.sound hv)
      obtain ⟨t', -, rfl⟩ := hcr.effect
      exact ⟨_, _, hn.commits rfl (by simp [Event.isOfNotes])⟩
    case betCancellationCredit =>
      obtain ⟨hcr, -, refund, -, hv⟩ := betCancellationCredit_ok h
      obtain ⟨n, next, hn, -⟩ := hcr.advances hE hs (hE.sound hv)
      obtain ⟨t', -, rfl⟩ := hcr.effect
      exact ⟨_, _, hn.commits rfl (by simp [Event.isOfNotes])⟩
    case naCancellationCredit =>
      obtain ⟨hcr, -, -, hv⟩ := naCancellationCredit_ok h
      obtain ⟨n, next, hn, -⟩ := hcr.advances hE hs (hE.sound hv)
      obtain ⟨t', -, rfl⟩ := hcr.effect
      exact ⟨_, _, hn.commits rfl (by simp [Event.isOfNotes])⟩
    case closePosition =>
      obtain ⟨delta, credit, hcr, -, -, -, -, -, -, -, -, hv⟩ := closePosition_ok h
      obtain ⟨n, next, hn, -⟩ := hcr.advances hE hs (hE.sound hv)
      obtain ⟨t', -, rfl⟩ := hcr.effect
      exact ⟨_, _, hn.commits rfl (by simp [Event.isOfNotes])⟩
    case partialFillCredit =>
      obtain ⟨hcr, -, -, -, -, -, -, refund, -, hv⟩ := partialFillCredit_ok h
      obtain ⟨n, next, hn, -⟩ := hcr.advances hE hs (hE.sound hv)
      obtain ⟨t', -, rfl⟩ := hcr.effect
      exact ⟨_, _, hn.commits rfl (by simp [Event.isOfNotes])⟩
    case consolidate =>
      obtain ⟨slot, n, next, hn, hcom⟩ := consolidation_consolidate hE hs h
      obtain ⟨-, -, -, -, spent', r, t', -, -, rfl⟩ := consolidate_ok h
      exact ⟨_, _, hn.commits hE.injective (by rw [hcom])⟩
    case adminCancelBet =>
      obtain ⟨-, -, -, rfl⟩ := adminCancelBet_ok h
      exact ⟨_, _, commits_nil rfl rfl rfl (by simp [Event.isOfNotes])⟩
    case withdrawFees =>
      obtain ⟨-, usdc', rfl⟩ := withdrawFees_ok h
      exact ⟨_, _, commits_nil rfl rfl rfl (by simp [Event.isOfNotes])⟩

theorem mem_hiddenNotes_exec (hE : E.Ideal) {s s' : VaultState F} (hs : BooksInv E s) {m : Msg}
    {c : Call F Proof Sig}
    (hx : exec E m s c = .ok s') {n : Note F} (hn : n ∈ hiddenNotes E.circomlib s.tree) :
    n ∈ hiddenNotes E.circomlib s'.tree := by
  obtain ⟨ms, events, hc⟩ := commits_exec hE hs hx
  rw [hc.hidden]
  exact List.mem_append_left _ hn

theorem length_hiddenNotes_exec (hE : E.Ideal) {s s' : VaultState F} (hs : BooksInv E s)
    {m : Msg} {c : Call F Proof Sig} (hx : exec E m s c = .ok s') :
    (hiddenNotes E.circomlib s'.tree).length ≤ (hiddenNotes E.circomlib s.tree).length + 1 := by
  obtain ⟨ms, events, hc⟩ := commits_exec hE hs hx
  rw [hc.hidden, List.length_append]
  exact Nat.add_le_add_left hc.one _

/-! ## Every run -/

/-- What holds of the committed notes of a chain. -/
structure NotesHistory (E : Env F Proof Sig) (ch : Chain F Proof Sig) : Prop where
  books : BooksInv E ch.state
  /-- The notes before a note of its lineage are spent. -/
  earlier : ∀ n ∈ hiddenNotes E.circomlib ch.state.tree, ∀ k < n.nonce,
    ch.state.spent (NullifierHash E.circomlib n.secret (k : F)) = true
  /-- A lineage whose first notes are one note has one note of each nonce. -/
  unique : ∀ secret, (∀ n ∈ hiddenNotes E.circomlib ch.state.tree,
      ∀ n' ∈ hiddenNotes E.circomlib ch.state.tree, n.secret = secret → n'.secret = secret →
        n.nonce = 0 → n'.nonce = 0 → n = n') →
    ∀ n ∈ hiddenNotes E.circomlib ch.state.tree,
      ∀ n' ∈ hiddenNotes E.circomlib ch.state.tree, n.secret = secret → n'.secret = secret →
        n.nonce = n'.nonce → n = n'
  /-- Every note continues a note of each nonce before its own. -/
  chain : ∀ n ∈ hiddenNotes E.circomlib ch.state.tree, ∀ k ≤ n.nonce,
    ∃ m ∈ hiddenNotes E.circomlib ch.state.tree, m.nonce = k ∧ m.secret = n.secret ∧
      m.owner = n.owner
  /-- Nullifiers are distinct where the secrets of the first notes are. -/
  distinct : (((hiddenNotes E.circomlib ch.state.tree).filter (·.nonce = 0)).map
      Note.secret).Nodup → DistinctNullifiers E.circomlib ch.state.tree
  deposited : ∀ n ∈ hiddenNotes E.circomlib ch.state.tree, n.nonce = 0 →
    ∃ depositor : Address, n.owner = (depositor.toNat : F) ∧
      .deposited depositor (n.commitment E.circomlib) n.balance ∈ ch.state.logs
  committed : ∀ depositor c amount, .deposited depositor c amount ∈ ch.state.logs →
    ∃ n ∈ hiddenNotes E.circomlib ch.state.tree, n.nonce = 0 ∧ n.owner = (depositor.toNat : F) ∧
      n.commitment E.circomlib = c ∧ n.balance = amount
  merged : ∀ nullifiers c, .consolidated nullifiers c ∈ ch.state.logs → ∃ owner, ∀ j,
    nullifiers j ≠ 0 → ∃ n ∈ hiddenNotes E.circomlib ch.state.tree,
      n.nullifier E.circomlib = nullifiers j ∧ n.owner = owner

theorem NotesHistory.commit (hE : E.Ideal) {ch : Chain F Proof Sig} (h : NotesHistory E ch)
    {s' : VaultState F}
    {ms : List (Note F)} {events : List (Event F)} (hs' : BooksInv E s')
    (hc : Commits E.circomlib ch.state s' ms events) (trace : List (Executed F Proof Sig)) :
    NotesHistory E ⟨s', trace⟩ where
  books := hs'
  earlier := fun n hn k hk => by
    rw [hc.hidden] at hn
    rcases List.mem_append.mp hn with hn | hn
    · exact hc.mono _ (h.earlier n hn k hk)
    · obtain ⟨n₁, hn₁, hf, -, hspent⟩ := hc.continues n hn (by omega)
      have hnon := hf.nonce
      rcases Nat.lt_succ_iff_lt_or_eq.mp (hnon ▸ hk) with hlt | rfl
      · rw [hf.secret]
        exact hc.mono _ (h.earlier n₁ hn₁ k hlt)
      · rw [hf.secret]
        exact hspent
  unique := fun secret hone n hn n' hn' hsec hsec' hnon => by
    rw [hc.hidden] at hone hn hn'
    have hold := h.unique secret fun n hn n' hn' =>
      hone n (List.mem_append_left _ hn) n' (List.mem_append_left _ hn')
    -- A new note after the first continues an unspent one, so no note had its nonce.
    have hnew : ∀ a ∈ ms, ∀ b ∈ hiddenNotes E.circomlib ch.state.tree, a.secret = secret →
        b.secret = secret → a.nonce = b.nonce → a.nonce = 0 := by
      intro a ha b hb hsa hsb hab
      by_contra h0
      obtain ⟨n₁, -, hf, hun, -⟩ := hc.continues a ha h0
      have := h.earlier b hb n₁.nonce (by rw [← hab, hf.nonce]; omega)
      rw [hsb, ← hsa, hf.secret] at this
      exact absurd (hun.symm.trans this) (by decide)
    rcases List.mem_append.mp hn with hold₁ | hnew₁ <;>
      rcases List.mem_append.mp hn' with hold₂ | hnew₂
    · exact hold n hold₁ n' hold₂ hsec hsec' hnon
    · have h0 := hnew n' hnew₂ n hold₁ hsec' hsec hnon.symm
      exact hone n hn n' hn' hsec hsec' (hnon.trans h0) h0
    · have h0 := hnew n hnew₁ n' hold₂ hsec hsec' hnon
      exact hone n hn n' hn' hsec hsec' h0 (hnon ▸ h0)
    · have hlen := hc.one
      match ms, hlen, hnew₁, hnew₂ with
      | [a], _, hnew₁, hnew₂ =>
        rw [List.mem_singleton.mp hnew₁, List.mem_singleton.mp hnew₂]
  chain := fun n hn k hk => by
    rw [hc.hidden] at hn ⊢
    rcases List.mem_append.mp hn with hn | hn
    · obtain ⟨m, hm, hrest⟩ := h.chain n hn k hk
      exact ⟨m, List.mem_append_left _ hm, hrest⟩
    · rcases hk.lt_or_eq with hlt | rfl
      · obtain ⟨n₁, hn₁, hf, -⟩ := hc.continues n hn (by omega)
        have hnon := hf.nonce
        obtain ⟨m, hm, hk, hsec, howner⟩ := h.chain n₁ hn₁ k (by omega)
        exact ⟨m, List.mem_append_left _ hm, hk, hsec.trans hf.secret.symm,
          howner.trans hf.owner.symm⟩
      · exact ⟨n, List.mem_append_right _ hn, rfl, rfl, rfl⟩
  distinct := fun hnodup => by
    unfold DistinctNullifiers
    rw [hc.hidden] at hnodup ⊢
    match ms, hc.one, hc.continues, hnodup with
    | [], _, _, hnodup =>
      rw [List.append_nil] at hnodup ⊢
      exact h.distinct hnodup
    | [a], _, hcontinues, hnodup =>
      rw [List.filter_append, List.map_append, List.nodup_append] at hnodup
      obtain ⟨hold, -, hne⟩ := hnodup
      rw [List.map_append, List.map_singleton, List.nodup_append]
      refine ⟨h.distinct hold, List.nodup_singleton _, fun x hx y hy heq => ?_⟩
      obtain ⟨b, hb, rfl⟩ := List.mem_map.mp hx
      rw [List.mem_singleton.mp hy] at heq
      by_cases h0 : a.nonce = 0
      · obtain ⟨hsec, hnon⟩ := Note.nullifier_inj hE.injective hE.wide heq
        exact hne b.secret (List.mem_map_of_mem (List.mem_filter.mpr ⟨hb, by simp [hnon, h0]⟩))
          a.secret (List.mem_map_of_mem (List.mem_filter.mpr ⟨by simp, by simp [h0]⟩)) hsec
      · obtain ⟨n, -, hf, hun, -⟩ := hcontinues a (by simp) h0
        exact h.books.notes.fresh_next hE.injective hE.wide hf hun (heq ▸ hx)
  deposited := fun n hn h0 => by
    rw [hc.hidden] at hn
    rw [hc.logs]
    rcases List.mem_append.mp hn with hn | hn
    · obtain ⟨depositor, howner, hmem⟩ := h.deposited n hn h0
      exact ⟨depositor, howner, List.mem_append_left _ hmem⟩
    · obtain ⟨depositor, howner, hmem⟩ := hc.starts n hn h0
      exact ⟨depositor, howner, List.mem_append_right _ hmem⟩
  committed := fun depositor c amount hmem => by
    rw [hc.logs] at hmem
    rw [hc.hidden]
    rcases List.mem_append.mp hmem with hmem | hmem
    · obtain ⟨n, hn, hrest⟩ := h.committed depositor c amount hmem
      exact ⟨n, List.mem_append_left _ hn, hrest⟩
    · obtain ⟨n, hn, hrest⟩ := hc.deposits depositor c amount hmem
      exact ⟨n, List.mem_append_right _ hn, hrest⟩
  merged := fun nullifiers c hmem => by
    rw [hc.logs] at hmem
    rw [hc.hidden]
    have hmerged := (List.mem_append.mp hmem).elim (h.merged nullifiers c) (hc.merges nullifiers c)
    obtain ⟨owner, hall⟩ := hmerged
    refine ⟨owner, fun j hj => ?_⟩
    obtain ⟨n, hn, hrest⟩ := hall j hj
    exact ⟨n, List.mem_append_left _ hn, hrest⟩

theorem NotesHistory.call (hE : E.Ideal) {ch : Chain F Proof Sig} (h : NotesHistory E ch) {m : Msg}
    {c : Call F Proof Sig} {s' : VaultState F} (hx : exec E m ch.state c = .ok s') :
    NotesHistory E ⟨s', ch.trace ++ [⟨ch.state, m, c, s'⟩]⟩ := by
  obtain ⟨ms, events, hc⟩ := commits_exec hE h.books hx
  exact h.commit hE (posts_exec hE h.books hx).inv hc _

theorem notesHistory_deploy {args : InitArgs} {s : VaultState F} (h : deploy E args = .ok s) :
    NotesHistory E ⟨s, []⟩ := by
  have hb := (chainPosts_deploy h).inv
  obtain rfl := deploy_ok E h
  have hnil : hiddenNotes E.circomlib (initializeV2 (initialState E args)).tree = [] := by
    simp [hiddenNotes, initializeV2, initialState, CommitmentMerkleTree.leaves, initializeTree]
  have hlogs : (initializeV2 (initialState E args)).logs = [] := rfl
  refine ⟨hb, ?_, ?_, ?_, ?_, ?_, ?_, ?_⟩
  all_goals simp [hnil, hlogs, DistinctNullifiers]

theorem NotesHistory.world {ch : Chain F Proof Sig} (h : NotesHistory E ch)
    (usdc : Usdc) (ctf : Ctf) :
    NotesHistory E { ch with state := { ch.state with usdc := usdc, ctf := ctf } } :=
  ⟨⟨h.books.notes, (keepsBets_world ..).betInv h.books.bets⟩, h.earlier, h.unique, h.chain,
    h.distinct, h.deposited, h.committed, h.merged⟩

omit [DecidableEq F] in
/-- Distinct nullifiers need distinct secrets of the first notes. -/
theorem nodup_secrets_of_distinct {C : Circomlib F} {t : CommitmentMerkleTree F}
    (h : DistinctNullifiers C t) :
    (((hiddenNotes C t).filter (·.nonce = 0)).map Note.secret).Nodup := by
  have hmap : ((hiddenNotes C t).filter (·.nonce = 0)).map (Note.nullifier C)
      = (((hiddenNotes C t).filter (·.nonce = 0)).map Note.secret).map
        fun secret => NullifierHash C secret 0 := by
    rw [List.map_map]
    refine List.map_congr_left fun n hn => ?_
    have h0 : n.nonce = 0 := by simpa using (List.mem_filter.mp hn).2
    simp [Note.nullifier, h0]
  have hsub : (((hiddenNotes C t).filter (·.nonce = 0)).map (Note.nullifier C)).Nodup :=
    h.sublist (List.filter_sublist.map (Note.nullifier C))
  rw [hmap] at hsub
  exact hsub.of_map _

theorem notesHistory_runActions (hE : E.Ideal) {args : InitArgs} {s : VaultState F}
    (h : deploy E args = .ok s) (as : List (Action F Proof Sig)) :
    NotesHistory E (runActions E s as) :=
  extend_invariant E (notesHistory_deploy h) (fun _ _ _ _ hch hx => hch.call hE hx)
    (fun _ usdc ctf hch => hch.world usdc ctf) as

def oneDollarNote : Note ℚ :=
  ⟨11, ((7 : Address).toNat : ℚ), 1000000, 0, by decide, by decide⟩

noncomputable def oneDollarVault : VaultState ℚ :=
  initializeV2 (initialState encodingEnv oneDollarArgs)

theorem exec_one_dollar :
    ∃ s', exec encodingEnv ⟨7, 1⟩ oneDollarVault
      (.deposit () (oneDollarNote.commitment encodingCircomlib) 1000000) = .ok s' := by
  have ht : CommitmentMerkleTree.Frontier encodingCircomlib.poseidon2 oneDollarVault.tree [] :=
    CommitmentMerkleTree.frontier_initializeTree _
  obtain ⟨⟨⟩, s', hx⟩ := deposit_available encodingEnv_ideal (m := ⟨7, 1⟩) oneDollarNote rfl rfl
    rfl (by decide) (le_refl _) (le_refl _) (by decide) ht (by decide)
  exact ⟨s', hx⟩

end Polyshield

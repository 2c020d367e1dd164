import Mathlib.Data.Multiset.Filter
import Polyshield.Signing.Steps

/-!
# One outcome for each bet

The attestation store on its own, called by anyone in any order: its rows and
the inputs whose signature is awaited. A call reads before the await and inserts
after it, and its key is a text and a report type, so two calls for one
`bytes32` can both insert. `OutcomesAgree` is what the Vault relies on, and it
holds on every run whose calls find no other outcome of the same `bytes32`
stored under another spelling or still being signed. The signing layer only
touches the store through such calls (`covers_step`).
-/

namespace Polyshield.Signing

structure Store where
  rows : List Attestation
  pending : Multiset AttestationInput
  deriving DecidableEq

inductive StoreAction where
  | call (input : AttestationInput)
  | signed (input : AttestationInput) (signature : String)
  | threw (input : AttestationInput)
  | crash

def storeStep (st : Store) : StoreAction → Option Store
  | .call input =>
    some (if (existing st.rows input).isSome then st
      else { st with pending := input ::ₘ st.pending })
  | .signed input signature =>
    if input ∈ st.pending then
      some ⟨insertRow st.rows input signature, st.pending.erase input⟩
    else none
  | .threw input =>
    if input ∈ st.pending then some { st with pending := st.pending.erase input } else none
  | .crash => some { st with pending := 0 }

def storeMachine : Machine Store StoreAction := ⟨storeStep⟩

/-- Both are outcomes of one `bytes32`. -/
def SameBet (a b : AttestationInput) : Prop :=
  a.reportType.isBetOutcome ∧ b.reportType.isBetOutcome
    ∧ a.nullifierOfBet.bytes32 = b.nullifierOfBet.bytes32

/-- One type and the same amounts. -/
def SameReport (a b : AttestationInput) : Prop :=
  a.reportType = b.reportType ∧ a.amountA = b.amountA ∧ a.amountB = b.amountB

/-- One key of the table, so that the second insertion does nothing. -/
def SameKey (a b : AttestationInput) : Prop :=
  a.nullifierOfBet = b.nullifierOfBet ∧ a.reportType = b.reportType

/-- No two stored outcomes of a `bytes32` differ. -/
def OutcomesAgree (rows : List Attestation) : Prop :=
  ∀ a ∈ rows, ∀ b ∈ rows, SameBet a.toAttestationInput b.toAttestationInput →
    SameReport a.toAttestationInput b.toAttestationInput

/-- A call that goes on to sign finds no different outcome of the same `bytes32` under another
spelling, and none being signed under another key. -/
def NoRival (st : Store) : StoreAction → Prop
  | .call input =>
    existing st.rows input = none →
      (∀ a ∈ st.rows, SameBet a.toAttestationInput input → SameReport a.toAttestationInput input)
        ∧ ∀ p ∈ st.pending, SameBet p input → SameReport p input ∨ SameKey p input
  | _ => True

/-- Stored outcomes agree with each other and with the ones being signed, but for the calls whose
insertion will do nothing. -/
structure StoreInv (st : Store) : Prop where
  rows : OutcomesAgree st.rows
  stored : ∀ a ∈ st.rows, ∀ p ∈ st.pending, SameBet a.toAttestationInput p →
    SameReport a.toAttestationInput p ∨ SameKey a.toAttestationInput p
  pending : ∀ p ∈ st.pending, ∀ q ∈ st.pending, SameBet p q → SameReport p q ∨ SameKey p q

theorem SameBet.symm {a b : AttestationInput} (h : SameBet a b) : SameBet b a :=
  ⟨h.2.1, h.1, h.2.2.symm⟩

theorem SameReport.symm {a b : AttestationInput} (h : SameReport a b) : SameReport b a :=
  ⟨h.1.symm, h.2.1.symm, h.2.2.symm⟩

theorem SameReport.refl (a : AttestationInput) : SameReport a a := ⟨rfl, rfl, rfl⟩

theorem SameKey.symm {a b : AttestationInput} (h : SameKey a b) : SameKey b a :=
  ⟨h.1.symm, h.2.symm⟩

theorem readTypedRow_eq_none {rows : List Attestation} {n : Hex32} {t : ReportType} :
    readTypedRow rows n t = none ↔ ∀ a ∈ rows, a.nullifierOfBet = n → a.reportType ≠ t := by
  simp [readTypedRow]

theorem mem_of_getAttestation {rows : List Attestation} {n : Hex32} {t : Option ReportType}
    {a : Attestation} (h : getAttestation rows n t = some a) :
    a ∈ rows ∧ a.nullifierOfBet = n := by
  cases t with
  | none =>
    have hp := List.find?_some h
    exact ⟨List.mem_of_find?_eq_some h, by simp at hp; exact hp.1⟩
  | some t =>
    have hp := List.find?_some h
    exact ⟨List.mem_of_find?_eq_some h, by simp at hp; exact hp.1⟩

theorem isBetOutcome_of_getAttestation {rows : List Attestation} {n : Hex32} {a : Attestation}
    (h : getAttestation rows n none = some a) : a.reportType.isBetOutcome := by
  have hp := List.find?_some h
  simp at hp
  exact hp.2

theorem outcomeInput_spec (bet : TerminalBet) (filled spent : ℕ) :
    (outcomeInput bet filled spent).reportType.isBetOutcome
      ∧ (outcomeInput bet filled spent).nullifierOfBet = bet.nullifier := by
  unfold outcomeInput
  split
  · exact ⟨rfl, rfl⟩
  · split <;> exact ⟨rfl, rfl⟩

theorem insertRow_eq (rows : List Attestation) (input : AttestationInput) (signature : String) :
    ∃ more, insertRow rows input signature = rows ++ more := by
  unfold insertRow
  split
  · exact ⟨[], (List.append_nil _).symm⟩
  · exact ⟨_, rfl⟩

/-- What the insertion adds, when it adds something. -/
theorem mem_insertRow {rows : List Attestation} {input : AttestationInput} {signature : String}
    {a : Attestation} (h : a ∈ insertRow rows input signature) :
    a ∈ rows ∨ a.toAttestationInput = input ∧
      readTypedRow rows input.nullifierOfBet input.reportType = none := by
  unfold insertRow at h
  split at h
  case isTrue => exact .inl h
  case isFalse hn =>
    rcases List.mem_append.mp h with h | h
    · exact .inl h
    · obtain rfl := List.mem_singleton.mp h
      exact .inr ⟨rfl, Option.not_isSome_iff_eq_none.mp hn⟩

theorem StoreInv.call {st : Store} {input : AttestationInput} (hi : StoreInv st)
    (hc : NoRival st (.call input)) :
    StoreInv (if (existing st.rows input).isSome then st
      else { st with pending := input ::ₘ st.pending }) := by
  split
  case isTrue => exact hi
  case isFalse hn =>
    obtain ⟨hrows, hpend⟩ := hc (Option.not_isSome_iff_eq_none.mp hn)
    constructor
    case rows => exact hi.rows
    case stored =>
      intro a ha p hp hs
      rcases Multiset.mem_cons.mp hp with rfl | hp
      · exact .inl (hrows a ha hs)
      · exact hi.stored a ha p hp hs
    case pending =>
      intro p hp' q hq' hs
      rcases Multiset.mem_cons.mp hp' with rfl | hp
      · rcases Multiset.mem_cons.mp hq' with rfl | hq
        · exact .inl (.refl _)
        · exact (hpend q hq hs.symm).imp SameReport.symm SameKey.symm
      · rcases Multiset.mem_cons.mp hq' with rfl | hq
        · exact hpend p hp hs
        · exact hi.pending p hp q hq hs

theorem StoreInv.signed {st : Store} {input : AttestationInput} {signature : String}
    (hi : StoreInv st) (hm : input ∈ st.pending) :
    StoreInv ⟨insertRow st.rows input signature, st.pending.erase input⟩ := by
  -- A row of another type or spelling agrees; one of the same key forbids the insertion.
  have hrow : ∀ a ∈ st.rows, readTypedRow st.rows input.nullifierOfBet input.reportType = none →
      SameBet a.toAttestationInput input → SameReport a.toAttestationInput input := by
    intro a ha hnone hs
    rcases hi.stored a ha input hm hs with h | h
    · exact h
    · exact absurd h.2 (readTypedRow_eq_none.mp hnone a ha h.1)
  constructor
  case rows =>
    intro a ha b hb hs
    rcases mem_insertRow ha with ha | ⟨ha, hnone⟩
    · rcases mem_insertRow hb with hb | ⟨hb, hnone⟩
      · exact hi.rows a ha b hb hs
      · rw [hb] at hs ⊢
        exact hrow a ha hnone hs
    · rcases mem_insertRow hb with hb | ⟨hb, -⟩
      · rw [ha] at hs ⊢
        exact (hrow b hb hnone hs.symm).symm
      · rw [ha, hb]
        exact .refl _
  case stored =>
    intro a ha p hp hs
    have hp' := Multiset.mem_of_mem_erase hp
    rcases mem_insertRow ha with ha | ⟨ha, -⟩
    · exact hi.stored a ha p hp' hs
    · rw [ha] at hs ⊢
      exact hi.pending input hm p hp' hs
  case pending =>
    intro p hp q hq hs
    exact hi.pending p (Multiset.mem_of_mem_erase hp) q (Multiset.mem_of_mem_erase hq) hs

theorem StoreInv.step {st st' : Store} {a : StoreAction} (hi : StoreInv st) (hc : NoRival st a)
    (h : storeMachine.step st a = some st') : StoreInv st' := by
  cases a with
  | call input =>
    cases h
    exact hi.call hc
  | signed input signature =>
    simp only [storeMachine, storeStep, Option.ite_none_right_eq_some, Option.some.injEq] at h
    obtain ⟨hm, rfl⟩ := h
    exact hi.signed hm
  | threw input =>
    simp only [storeMachine, storeStep, Option.ite_none_right_eq_some, Option.some.injEq] at h
    obtain ⟨-, rfl⟩ := h
    exact ⟨hi.rows, fun a ha p hp => hi.stored a ha p (Multiset.mem_of_mem_erase hp),
      fun p hp q hq => hi.pending p (Multiset.mem_of_mem_erase hp) q (Multiset.mem_of_mem_erase hq)⟩
  | crash =>
    cases h
    exact ⟨hi.rows, fun a _ p hp => absurd hp (Multiset.notMem_zero p),
      fun p hp => absurd hp (Multiset.notMem_zero p)⟩

/-! ## The signing layer calls the store -/

def Task.input? : Task → Option AttestationInput
  | .signing input _ => some input
  | _ => none

namespace SigningLayer

def store (s : SigningLayer) : Store := ⟨s.attestations, ↑(s.tasks.filterMap Task.input?)⟩

/-- The store goes from its state in `s` to its state in `s'` by calls. -/
def Covers (s s' : SigningLayer) : Prop := storeMachine.Run (fun _ _ => True) s.store s'.store

theorem covers_of_eq {s s' : SigningLayer} (h : s'.store = s.store) : Covers s s' := by
  unfold Covers
  rw [h]
  exact .init

theorem Covers.trans {s t u : SigningLayer} (h₁ : Covers s t) (h₂ : Covers t u) : Covers s u :=
  Machine.Run.trans h₁ h₂

theorem store_spawn (s : SigningLayer) {t : Task} (ht : t.input? = none) :
    (s.spawn t).store = s.store := by
  simp [store, spawn, ht]

theorem store_spawn_signing (s : SigningLayer) (input : AttestationInput) (after : AfterAttest) :
    (s.spawn (.signing input after)).store
      = { s.store with pending := input ::ₘ s.store.pending } := by
  simp only [store, spawn, List.filterMap_append, List.filterMap_cons, List.filterMap_nil,
    Task.input?, Store.mk.injEq, true_and]
  rw [← Multiset.coe_add, add_comm]
  rfl

theorem covers_signAndStoreAttestation (s : SigningLayer) (input : AttestationInput)
    (after : AfterAttest) : Covers s (s.signAndStoreAttestation input after) := by
  refine .step .init (a := .call input) trivial ?_
  simp only [storeMachine, storeStep, Option.some.injEq]
  by_cases h : (existing s.attestations input).isSome
  · rw [if_pos (show (existing s.store.rows input).isSome from h), signAndStoreAttestation,
      if_pos h, store_spawn s rfl]
  · rw [if_neg (show ¬(existing s.store.rows input).isSome from h), signAndStoreAttestation,
      if_neg h, store_spawn_signing]

theorem covers_attestFailedFor (s : SigningLayer) (n : Hex32) (after : AfterAttest) :
    Covers s (s.attestFailedFor n after) := covers_signAndStoreAttestation s _ after

theorem covers_attestTerminal (s : SigningLayer) (bet : TerminalBet) (filled spent : ℕ)
    (after : AfterAttest) : Covers s (s.attestTerminal bet filled spent after) := by
  unfold attestTerminal
  split
  case h_1 =>
    split
    case isTrue => exact covers_of_eq (store_spawn s rfl)
    case isFalse => exact covers_signAndStoreAttestation s _ after
  case h_2 => exact covers_signAndStoreAttestation s _ after

theorem covers_reconcileOne (s : SigningLayer) (o : TrackedOrder) :
    Covers s (s.reconcileOne o) := by
  unfold reconcileOne
  split
  case isTrue => exact covers_of_eq rfl
  case isFalse => exact covers_of_eq (store_spawn s rfl)

theorem covers_trackOrder (s : SigningLayer) (o : TrackedOrder) : Covers s (s.trackOrder o) := by
  unfold trackOrder
  split
  case isTrue => exact covers_of_eq rfl
  case isFalse => exact covers_reconcileOne ((s.persist o).setByOrderId o) o

theorem covers_finalize (s : SigningLayer) (o : TrackedOrder) (filled spent : ℕ) :
    Covers s (s.finalize o filled spent) := by
  unfold finalize
  split
  case isTrue => exact covers_of_eq rfl
  case isFalse =>
    exact covers_attestTerminal (s.addFinalized o.nullifier) _ filled _ _

theorem covers_handleOne (s : SigningLayer) (m : UserChannelMsg) : Covers s (s.handleOne m) := by
  unfold handleOne
  split
  · exact covers_finalize s _ _ _
  · exact covers_of_eq rfl

/-- A loop over orders whose body covers. -/
theorem covers_foldl {f : SigningLayer → TrackedOrder → SigningLayer}
    (hf : ∀ s o, Covers s (f s o)) (os : List TrackedOrder) (s : SigningLayer) :
    Covers s (os.foldl f s) := by
  induction os generalizing s with
  | nil => exact covers_of_eq rfl
  | cons o os ih => exact (hf s o).trans (ih _)

theorem covers_cancelOrdersForMarket (s : SigningLayer) (c : ℕ) :
    Covers s (s.cancelOrdersForMarket c) := by
  refine covers_foldl (fun s o => ?_) _ s
  unfold cancelForMarket
  split
  · exact covers_of_eq rfl
  · exact covers_finalize s o 0 0

theorem covers_reconciled {s s' : SigningLayer} {o : TrackedOrder} {od : OrderAnswer}
    {trades : Option ℕ} {spent : ℕ} (h : s.reconciled o od trades spent = some s') :
    Covers s s' := by
  obtain ⟨-, m, -, rfl⟩ | ⟨-, -, m, -, -, rfl⟩ | ⟨-, rfl⟩ := reconciled_cases h
  · exact covers_finalize s o m spent
  · exact covers_finalize s o m spent
  · exact covers_of_eq rfl

theorem covers_cancelTrackedOrder (s : SigningLayer) (n : Hex32) (client : Bool) :
    Covers s (s.cancelTrackedOrder n client) := by
  unfold cancelTrackedOrder
  split
  · exact covers_of_eq rfl
  · split
    · exact covers_of_eq rfl
    · split
      · exact covers_of_eq (store_spawn s rfl)
      · exact covers_reconcileOne s _

theorem covers_cancelled {s s' : SigningLayer} {o : TrackedOrder} {od : OrderAnswer}
    {trades : Option ℕ} {spent : ℕ} (h : s.cancelled o od trades spent = some s') :
    Covers s s' := by
  obtain ⟨-, m, -, rfl⟩ | ⟨-, m, -, rfl⟩ | ⟨-, rfl⟩ := cancelled_cases h
  · exact covers_finalize s o m spent
  · exact covers_finalize s o m spent
  · exact covers_reconcileOne s o

theorem Covers.setListener {s t : SigningLayer} (h : Covers s t) (l : Listener) :
    Covers s (t.setListener l) := h

theorem store_foldl {f : SigningLayer → TrackedOrder → SigningLayer}
    (hf : ∀ s o, (f s o).store = s.store) (os : List TrackedOrder) (s : SigningLayer) :
    (os.foldl f s).store = s.store := by
  induction os generalizing s with
  | nil => rfl
  | cons o os ih => exact (ih _).trans (hf s o)

theorem store_startFillTracker (s : SigningLayer) : s.startFillTracker.store = s.store := by
  refine store_foldl (fun s o => ?_) _ s
  unfold resumeTracking
  split <;> rfl

theorem store_dropTask {s : SigningLayer} {i : ℕ} {t : Task} (ht : s.tasks[i]? = some t) :
    s.store.pending = ↑(t.input?.toList ++ (s.dropTask i).tasks.filterMap Task.input?) := by
  obtain ⟨hlt, rfl⟩ := List.getElem?_eq_some_iff.mp ht
  have hperm := (List.getElem_cons_eraseIdx_perm hlt).symm.filterMap Task.input?
  rw [List.filterMap_cons] at hperm
  refine Multiset.coe_eq_coe.mpr (hperm.trans ?_)
  cases h : Task.input? s.tasks[i] <;> simp [dropTask]

theorem covers_dropTask {s : SigningLayer} {i : ℕ} {t : Task} (ht : s.tasks[i]? = some t)
    (hinput : t.input? = none) : Covers s (s.dropTask i) := by
  have h := store_dropTask ht
  rw [hinput] at h
  exact covers_of_eq (by simp only [store, dropTask] at h ⊢; rw [h]; rfl)

theorem store_dropTask_signing {s : SigningLayer} {i : ℕ} {input : AttestationInput}
    {after : AfterAttest} (ht : s.tasks[i]? = some (.signing input after)) :
    input ∈ s.store.pending ∧ (s.dropTask i).store.pending = s.store.pending.erase input := by
  have h := store_dropTask ht
  have h' : s.store.pending = input ::ₘ (s.dropTask i).store.pending := h
  rw [h']
  exact ⟨Multiset.mem_cons_self _ _, (Multiset.erase_cons_head _ _).symm⟩

theorem store_afterAttest (s : SigningLayer) (after : AfterAttest) :
    (s.afterAttest after).store = s.store := by
  cases after <;> rfl

theorem covers_restart (s : SigningLayer) : Covers s s.restart := by
  refine .step .init (a := .crash) trivial ?_
  unfold restart
  rw [store_startFillTracker]
  rfl

theorem covers_confirmed (s : SigningLayer) (r : BetAuthorizedRecord)
    (resolved : Option RegistryHit) : Covers s (s.confirmed r resolved) := by
  unfold confirmed
  split
  · exact covers_of_eq rfl
  · unfold processBetEvent
    split
    · exact (covers_attestFailedFor (s.setInFlight _) _ _).setListener _
    · exact covers_of_eq rfl

theorem covers_funded (s : SigningLayer) (e : BetAuthorizedEvent) (t : OrderType) (ok : Bool) :
    Covers s (s.funded e t ok) := by
  unfold funded
  split
  · split
    · unfold markMarketSubmitting
      split <;> exact covers_of_eq rfl
    · exact covers_of_eq rfl
  · exact (covers_attestFailedFor s _ _).setListener _

theorem covers_fakResponded (s : SigningLayer) (e : BetAuthorizedEvent) (size : ℕ)
    (resp : Option ClobResponse) : Covers s (s.fakResponded e size resp) := by
  cases resp with
  | none => exact covers_of_eq rfl
  | some resp =>
    have hrec : Covers s (s.recordOrderId e.nullifier resp.orderID) := by
      cases resp.orderID <;> exact covers_of_eq rfl
    simp only [fakResponded]
    split
    · exact hrec.setListener _
    · exact (hrec.trans (covers_attestTerminal _ _ _ _ _)).setListener _

theorem covers_limitResponded (s : SigningLayer) (e : BetAuthorizedEvent) (t : OrderType)
    (resp : Option ClobResponse) : Covers s (s.limitResponded e t resp) := by
  unfold limitResponded
  split
  · exact covers_of_eq rfl
  · split
    · split
      · exact covers_of_eq rfl
      · exact (covers_attestFailedFor s _ _).setListener _
    · split
      · exact covers_of_eq rfl
      · exact (covers_trackOrder s _).setListener _

theorem covers_crossed (s : SigningLayer) (e : BetAuthorizedEvent) (t : OrderType) (id : OrderId)
    (fee : Option ℕ) : Covers s (s.crossed e t id fee) := by
  unfold crossed
  split
  · exact covers_of_eq rfl
  · exact (covers_trackOrder s _).setListener _

theorem covers_cancelBet (s : SigningLayer) (n : Hex32) : Covers s (s.cancelBet n) := by
  unfold cancelBet
  split_ifs
  · exact covers_of_eq rfl
  · exact covers_of_eq (store_spawn s rfl)
  · exact covers_of_eq rfl
  · split
    · exact covers_of_eq (store_spawn s rfl)
    · exact covers_attestFailedFor s _ _

theorem covers_reconcileMarketSubmission (s : SigningLayer) (n : Hex32) (sub : MarketSubmission)
    (client : Bool) : Covers s (s.reconcileMarketSubmission n sub client) := by
  unfold reconcileMarketSubmission
  split
  · exact covers_of_eq rfl
  · split
    · split
      · exact covers_attestFailedFor s _ _
      · exact covers_of_eq rfl
    · split
      · exact covers_of_eq (store_spawn s rfl)
      · exact covers_of_eq rfl

theorem covers_marketQueried {s s' : SigningLayer} {n : Hex32} {id : OrderId} {od : OrderAnswer}
    {spent : ℕ} (h : s.marketQueried n id od spent = some s') : Covers s s' := by
  unfold marketQueried at h
  split at h
  · obtain ⟨m, -, rfl⟩ := Option.map_eq_some_iff.mp h
    exact covers_attestTerminal s _ _ _ _
  · cases h
    exact covers_of_eq rfl

end SigningLayer

open SigningLayer in
/-- Whatever the signing layer does, its store is only called. -/
theorem covers_step {s s' : SigningLayer} {a : Action} (h : machine.step s a = some s') :
    Covers s s' := by
  cases steps_of_step h with
  | handleBetRecord =>
    unfold handleBetRecord
    split_ifs <;> exact covers_of_eq rfl
  | confirmed => exact covers_confirmed s _ _
  | confirmThrew => exact covers_of_eq rfl
  | funded => exact covers_funded s _ _ _
  | prepared =>
    unfold prepared
    split <;> exact covers_of_eq rfl
  | fakResponded => exact covers_fakResponded s _ _ _
  | limitResponded => exact covers_limitResponded s _ _ _
  | crossed => exact covers_crossed s _ _ _ _
  | limitOrder => exact covers_of_eq rfl
  | cancelBet => exact covers_cancelBet s _
  | closeRequest =>
    unfold closeRequest
    split_ifs
    · exact covers_of_eq rfl
    · exact covers_of_eq rfl
    · exact covers_of_eq rfl
    · exact covers_of_eq (store_spawn s rfl)
  | @signed i input after signature ht =>
    obtain ⟨hm, herase⟩ := store_dropTask_signing ht
    refine .step .init (a := .signed input signature) trivial ?_
    rw [store_afterAttest]
    simp only [storeMachine, storeStep, if_pos hm, ← herase]
    rfl
  | @signThrew i input after ht =>
    obtain ⟨hm, herase⟩ := store_dropTask_signing ht
    refine .step .init (a := .threw input) trivial ?_
    rw [store_afterAttest]
    simp only [storeMachine, storeStep, if_pos hm, ← herase]
    rfl
  | attested ht =>
    refine (covers_dropTask ht rfl).trans (covers_of_eq ?_)
    rw [store_afterAttest]
  | cancelClient ht => exact (covers_dropTask ht rfl).trans (covers_cancelTrackedOrder _ _ _)
  | cancelled ht _ hs => exact (covers_dropTask ht rfl).trans (covers_cancelled hs)
  | reconciled ht _ hs => exact (covers_dropTask ht rfl).trans (covers_reconciled hs)
  | marketClient ht =>
    exact (covers_dropTask ht rfl).trans (covers_reconcileMarketSubmission _ _ _ _)
  | marketQueried ht hs => exact (covers_dropTask ht rfl).trans (covers_marketQueried hs)
  | sell ht =>
    refine (covers_dropTask ht rfl).trans ?_
    unfold sell
    split
    · exact covers_of_eq (store_spawn (post _ _) rfl)
    · exact covers_of_eq rfl
  | sellThrew ht => exact covers_dropTask ht rfl
  | marketSold ht =>
    exact (covers_dropTask ht rfl).trans (covers_attestTerminal _ _ _ _ _)
  | limitSellResponded _ ht =>
    refine (covers_dropTask ht rfl).trans ?_
    unfold limitSellResponded
    split
    · exact covers_of_eq rfl
    · split
      · exact covers_of_eq (store_spawn _ rfl)
      · exact covers_trackOrder _ _
  | sellCrossed ht => exact (covers_dropTask ht rfl).trans (covers_trackOrder _ _)
  | sellCrossThrew ht => exact covers_dropTask ht rfl
  | message => exact covers_handleOne s _
  | reconcile => exact covers_reconcileOne s _
  | marketResolved => exact covers_cancelOrdersForMarket s _
  | restart => exact covers_restart s
  | clob => exact covers_of_eq rfl
  | authorizeBet => exact covers_of_eq rfl
  | setBetStatus => exact covers_of_eq rfl
  | tick => exact covers_of_eq rfl

theorem store_run_of_run {cond : SigningLayer → Action → Prop} {s s' : SigningLayer}
    (h : machine.Run cond s s') : storeMachine.Run (fun _ _ => True) s.store s'.store := by
  induction h with
  | init => exact .init
  | step _ _ hs ih => exact ih.trans (covers_step hs)

/-! ## One outcome for a bet -/

/-- Any calls in any order: the outcomes stored for a `bytes32`, and so the ones served for it,
are one, if no call goes on to sign next to a rival. -/
theorem outcomes_agree {st : Store} (h : storeMachine.Run NoRival ⟨[], 0⟩ st) :
    OutcomesAgree st.rows ∧
      ∀ n m a b, getAttestation st.rows n none = some a → getAttestation st.rows m none = some b →
        n.bytes32 = m.bytes32 → SameReport a.toAttestationInput b.toAttestationInput := by
  have hinit : StoreInv ⟨[], 0⟩ :=
    ⟨fun a ha => absurd ha List.not_mem_nil, fun a ha => absurd ha List.not_mem_nil,
      fun p hp => absurd hp (Multiset.notMem_zero p)⟩
  have hinv : StoreInv st := h.invariant hinit fun _ _ _ hi hc hs => hi.step hc hs
  refine ⟨hinv.rows, fun n m a b ha hb hnm => ?_⟩
  obtain ⟨hma, hna⟩ := mem_of_getAttestation ha
  obtain ⟨hmb, hnb⟩ := mem_of_getAttestation hb
  refine hinv.rows a hma b hmb ⟨isBetOutcome_of_getAttestation ha,
    isBetOutcome_of_getAttestation hb, ?_⟩
  rw [hna, hnb]
  exact hnm

instance (a b : AttestationInput) : Decidable (SameBet a b) := inferInstanceAs (Decidable (_ ∧ _))

instance (a b : AttestationInput) : Decidable (SameReport a b) :=
  inferInstanceAs (Decidable (_ ∧ _))

instance (a b : AttestationInput) : Decidable (SameKey a b) := inferInstanceAs (Decidable (_ ∧ _))

instance (rows : List Attestation) : Decidable (OutcomesAgree rows) :=
  inferInstanceAs (Decidable (∀ a ∈ rows, ∀ b ∈ rows, _))

instance (st : Store) : ∀ a, Decidable (NoRival st a)
  | .call _ => inferInstanceAs (Decidable (_ → _))
  | .signed _ _ | .threw _ | .crash => inferInstanceAs (Decidable True)

/-- The text of a `bytes32` below 16. -/
def sampleNullifier (c : Char) (hc : (hexDigit? c).isSome) : Hex32 where
  digits := List.replicate 63 '0' ++ [c]
  length := by simp
  hex := by
    intro d hd
    rcases List.mem_append.mp hd with hd | hd
    · rw [(List.mem_replicate.mp hd).2]
      decide
    · rw [List.mem_singleton.mp hd]
      exact hc

theorem hexDigit_a : (hexDigit? 'a').isSome := by decide

def sampleBet : Hex32 := sampleNullifier 'a' hexDigit_a

def sampleLog : BetAuthorizedRecord := ⟨sampleBet, 0, 1000000, 500000, 50000000, by decide⟩

def sampleChainBet : ChainBet := ⟨10, 1000000, 500000, 0, .active⟩

def submitSample (orderType : OrderType) : List Action :=
  [.limitOrder sampleBet orderType, .handleBetRecord sampleLog, .confirmed (some (some ⟨1, 2⟩)),
    .funded true, .prepared (some 1000000)]

/-- A market order fills, its FILLED is stored, the bet is closed, and a late call for the same bet
returns the stored row. -/
theorem outcomes_agree_repeated_call :
    ∃ st, storeMachine.Run NoRival ⟨[], 0⟩ st ∧ st.rows.length = 2 ∧ OutcomesAgree st.rows := by
  let n := sampleNullifier 'a' (by decide)
  let acts : List StoreAction :=
    [.call ⟨n, .filled, 0, 0⟩, .call ⟨n, .filled, 0, 0⟩, .signed ⟨n, .filled, 0, 0⟩ "filled",
      .call ⟨n, .failed, 0, 0⟩, .signed ⟨n, .filled, 0, 0⟩ "filled",
      .call ⟨n, .sold, 5, 3⟩, .signed ⟨n, .sold, 5, 3⟩ "sold"]
  have hrun : storeMachine.checkFrom NoRival ⟨[], 0⟩ acts
      = some ⟨[⟨⟨n, .filled, 0, 0⟩, "filled"⟩, ⟨⟨n, .sold, 5, 3⟩, "sold"⟩], 0⟩ := by
    decide +kernel
  have h := Machine.run_of_checkFrom hrun
  exact ⟨_, h, rfl, (outcomes_agree h).1⟩

/-- A market order of the bet fills and FILLED is stored under the spelling of the log; then
`/cancel-bet` is called with the upper-case spelling, finds nothing under it, and stores FAILED. -/
def twoSpellings : List Action :=
  [.authorizeBet ⟨10, 1000000, 500000, 0, .active⟩,
    .handleBetRecord ⟨sampleNullifier 'a' (by decide), 0, 1000000, 500000, 50000000, by decide⟩,
    .confirmed (some (some ⟨1, 2⟩)), .funded true, .prepared (some 1000000),
    .clobAccept 0 7 false 1000000,
    .responded (some ⟨some 7, .matched, true, 1000000, false, false⟩), .signed 0 (some "filled"),
    .cancelBet (sampleNullifier 'A' (by decide)), .signed 0 (some "failed")]

theorem outcomes_disagree_two_spellings :
    ¬∀ acts s, machine.runFrom .initial acts = some s → OutcomesAgree s.attestations := by
  intro h
  have hrun : ((machine.runFrom .initial twoSpellings).map
      fun s => decide (OutcomesAgree s.attestations)) = some false := by
    decide +kernel
  obtain ⟨s, hs, hd⟩ := Option.map_eq_some_iff.mp hrun
  exact of_decide_eq_false hd (h _ s hs)

end Polyshield.Signing

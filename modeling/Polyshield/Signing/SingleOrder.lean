import Polyshield.Signing.Frames
import Polyshield.Signing.Outcomes

/-!
# One BUY order for each bet

The listener skips a bet with an attestation, an entry of `inFlight` or a
tracked order. Each of them goes away in its own manner (`Guarded.step`): the
map at a restart, the tracked order when it is finalized, and an attestation
only exists once it is signed. What keeps a bet guarded across all of them is
that a restart finds a row for each order it may have made, and that the
signing in between neither fails nor is overtaken by a scan (`ScanSafe`).
-/

namespace Polyshield.Signing

open SigningLayer

def Task.outcome? : Task → Option Hex32
  | .signing input _ => if input.reportType.isBetOutcome then some input.nullifierOfBet else none
  | _ => none

/-- The procedure sells shares of the bet with a resting order, or works on such an order. -/
def Task.Sells (n : Hex32) : Task → Prop
  | .selling req t => t ≠ .fak ∧ req.nullifierOfBet = n
  | .sellPosted req t _ _ _ _ => t ≠ .fak ∧ req.nullifierOfBet = n
  | .sellFee req _ _ _ _ => req.nullifierOfBet = n
  | t => ∃ o, t.order? = some o ∧ o.side = .sell ∧ o.nullifier = n

namespace SigningLayer

def InFlight (s : SigningLayer) (n : Hex32) : Prop :=
  (s.inFlight.any fun entry => entry.1 = n) = true

def HasOutcome (s : SigningLayer) (n : Hex32) : Prop :=
  (getAttestation s.attestations n none).isSome = true

def SigningOutcome (s : SigningLayer) (n : Hex32) : Prop := ∃ t ∈ s.tasks, t.outcome? = some n

/-- The bet's BUY is tracked and nothing can finalize a SELL of the bet instead. -/
structure Resting (s : SigningLayer) (n : Hex32) : Prop where
  open' : n ∉ s.finalized
  tracked : ∃ o ∈ s.byOrderId, o.nullifier = n
  buys : ∀ o ∈ s.byOrderId, o.nullifier = n → o.side = .buy
  noSell : ∀ t ∈ s.tasks, ¬t.Sells n

/-- A guard that no tracked order can take away. -/
inductive Settled (s : SigningLayer) (n : Hex32) : Prop
  | inFlight (h : s.InFlight n)
  | outcome (h : s.HasOutcome n)
  | signing (h : s.SigningOutcome n)

/-- One of the listener's guards holds, or will once the signature is there. -/
def Guarded (s : SigningLayer) (n : Hex32) : Prop := s.Settled n ∨ s.Resting n

end SigningLayer

/-- A restart finds each order accepted or under way attested or tracked; the outcome of an order
from before the restart gets signed; and the listener does not scan a bet while its outcome is being
signed. -/
def ScanSafe (s : SigningLayer) : Action → Prop
  | .restart =>
    ∀ p ∈ s.posts, p.side = .buy → p.state ≠ .refused →
      (getAttestation s.attestations p.nullifier none).isSome = true
        ∨ ∃ o ∈ s.trackedOrders, o.nullifier = p.nullifier ∧ o.side = .buy
  | .signed i none =>
    ∀ t ∈ s.tasks[i]?, ∀ n ∈ t.outcome?, (s.inFlight.any fun entry => entry.1 = n) = true
  | .handleBetRecord r => ∀ t ∈ s.tasks, t.outcome? ≠ some r.nullifier
  | _ => True

theorem getAttestation_append {rows more : List Attestation} {n : Hex32} {t : Option ReportType}
    (h : (getAttestation rows n t).isSome) : (getAttestation (rows ++ more) n t).isSome := by
  cases t with
  | none =>
    simp only [getAttestation, readOutcomeRow, List.find?_isSome, List.mem_append] at h ⊢
    obtain ⟨a, ha, hp⟩ := h
    exact ⟨a, .inl ha, hp⟩
  | some t =>
    simp only [getAttestation, readTypedRow, List.find?_isSome, List.mem_append] at h ⊢
    obtain ⟨a, ha, hp⟩ := h
    exact ⟨a, .inl ha, hp⟩

theorem readTypedRow_insertRow (rows : List Attestation) (input : AttestationInput)
    (signature : String) :
    (readTypedRow (insertRow rows input signature) input.nullifierOfBet
      input.reportType).isSome := by
  unfold insertRow
  split
  case isTrue h => exact h
  case isFalse =>
    simp only [readTypedRow, List.find?_isSome, List.mem_append, List.mem_singleton]
    exact ⟨_, .inr rfl, by simp⟩

theorem outcome_of_typed {rows : List Attestation} {n : Hex32} {t : ReportType}
    (ht : t.isBetOutcome) (h : (readTypedRow rows n t).isSome) :
    (getAttestation rows n none).isSome := by
  simp only [getAttestation, readOutcomeRow, readTypedRow, List.find?_isSome] at h ⊢
  obtain ⟨a, ha, hp⟩ := h
  simp only [decide_eq_true_eq] at hp ⊢
  exact ⟨a, ha, hp.1, hp.2 ▸ ht⟩

namespace SigningLayer

variable {s s' : SigningLayer} {n : Hex32}

theorem Settled.quiet (h : Settled s n) (hq : Quiet s s') : Settled s' n := by
  cases h with
  | inFlight h => exact .inFlight (by rw [InFlight, hq.inFlight]; exact h)
  | outcome h => exact .outcome (by rw [HasOutcome, hq.attestations]; exact h)
  | signing h =>
    obtain ⟨t, ht, hn⟩ := h
    exact .signing ⟨t, hq.tasks ht, hn⟩

/-- A quiet change of the tracked orders has to be looked at only when they are the guard. -/
theorem Guarded.quiet (h : Guarded s n) (hq : Quiet s s') (hr : Resting s n → Guarded s' n) :
    Guarded s' n := by
  rcases h with h | h
  · exact .inl (h.quiet hq)
  · exact hr h

theorem Resting.spawn (h : Resting s n) {t : Task} (ht : ¬t.Sells n) : Resting (s.spawn t) n := by
  refine ⟨h.open', h.tracked, h.buys, fun u hu => ?_⟩
  rcases List.mem_append.mp hu with hu | hu
  · exact h.noSell u hu
  · exact List.mem_singleton.mp hu ▸ ht

/-- A procedure on an order sells nothing of the bet if the order is its BUY or of another bet. -/
theorem not_sells_of_order {t : Task} {o : TrackedOrder} (ht : t.order? = some o)
    (ho : o.nullifier = n → o.side = .buy) : ¬t.Sells n := by
  have key : ¬∃ o', t.order? = some o' ∧ o'.side = .sell ∧ o'.nullifier = n := by
    rintro ⟨o', ho', hsell, hn⟩
    obtain rfl := Option.some.inj (ht.symm.trans ho')
    rw [ho hn] at hsell
    cases hsell
  cases t with
  | selling => cases ht
  | sellPosted => cases ht
  | sellFee => cases ht
  | _ => exact key

theorem not_sells_signTask {b : Prop} [Decidable b] {input : AttestationInput}
    {after : AfterAttest}
    (ha : ∀ o, after = .untrack o → o.nullifier = n → o.side = .buy) :
    ¬(if b then Task.attested after else .signing input after).Sells n := by
  cases after with
  | untrack o =>
    split
    · exact not_sells_of_order (o := o) rfl (ha o rfl)
    · exact not_sells_of_order (o := o) rfl (ha o rfl)
  | _ =>
    split
    all_goals
      rintro ⟨o, ho, -⟩
      cases ho

theorem Resting.signAndStoreAttestation (h : Resting s n) (input : AttestationInput)
    {after : AfterAttest} (ha : ∀ o, after = .untrack o → o.nullifier = n → o.side = .buy) :
    Resting (s.signAndStoreAttestation input after) n := by
  rw [signAndStoreAttestation_eq]
  exact h.spawn (not_sells_signTask ha)

theorem Resting.attestTerminal (h : Resting s n) (bet : TerminalBet) (filled spent : ℕ)
    {after : AfterAttest} (ha : ∀ o, after = .untrack o → o.nullifier = n → o.side = .buy) :
    Resting (s.attestTerminal bet filled spent after) n := by
  unfold SigningLayer.attestTerminal
  split
  · split
    · refine h.spawn ?_
      show ¬(if True then Task.attested after
        else .signing ⟨bet.nullifier, .sold, 0, 0⟩ after).Sells n
      exact not_sells_signTask ha
    · exact h.signAndStoreAttestation _ ha
  · exact h.signAndStoreAttestation _ ha

theorem Resting.reconcileOne (h : Resting s n) {o : TrackedOrder}
    (ho : o.nullifier = n → o.side = .buy) : Resting (s.reconcileOne o) n := by
  unfold SigningLayer.reconcileOne
  split
  · exact h
  · exact h.spawn (not_sells_of_order (o := o) rfl ho)

/-- A call about an outcome of the bet settles it. -/
theorem settled_signAndStoreAttestation (s : SigningLayer) (input : AttestationInput)
    (after : AfterAttest) (ht : input.reportType.isBetOutcome) :
    Settled (s.signAndStoreAttestation input after) input.nullifierOfBet := by
  rw [signAndStoreAttestation_eq]
  by_cases h : (existing s.attestations input).isSome
  · refine .outcome ?_
    rw [existing, if_pos ht] at h
    exact h
  · rw [if_neg h]
    refine .signing ⟨_, List.mem_append_right _ (List.mem_singleton_self _), ?_⟩
    simp [Task.outcome?, ht]

theorem settled_attestTerminal (s : SigningLayer) (bet : TerminalBet) (filled spent : ℕ)
    (after : AfterAttest) (hside : bet.side = .buy) :
    Settled (s.attestTerminal bet filled spent after) bet.nullifier := by
  obtain ⟨hout, hn⟩ := outcomeInput_spec bet filled spent
  simp only [SigningLayer.attestTerminal, hside]
  have h := settled_signAndStoreAttestation s (outcomeInput bet filled spent) after hout
  rwa [hn] at h

/-- Finalizing the bet's own BUY turns the tracked order into an outcome. -/
theorem Guarded.finalize (h : Guarded s n) {o : TrackedOrder} (filled spent : ℕ)
    (ho : Resting s n → o.nullifier = n → o.side = .buy) :
    Guarded (s.finalize o filled spent) n := by
  refine h.quiet (Quiet.finalize s o filled spent) fun hr => ?_
  unfold SigningLayer.finalize
  split
  · exact .inr hr
  · by_cases hn : o.nullifier = n
    · rw [← hn]
      exact .inl (settled_attestTerminal _ _ _ _ _ (ho hr hn))
    · have hr' : Resting (s.addFinalized o.nullifier) n := by
        refine ⟨fun hmem => ?_, hr.tracked, hr.buys, hr.noSell⟩
        rcases List.mem_append.mp hmem with hmem | hmem
        · exact hr.open' hmem
        · exact hn (List.mem_singleton.mp hmem).symm
      exact .inr (hr'.attestTerminal _ _ _ fun o' ho' hn' => by cases ho'; exact absurd hn' hn)

theorem known_eq (hl : Linked s) {o o' : TrackedOrder} (ho : o.Known s.posts)
    (ho' : o'.Known s.posts) (hid : o.orderID = o'.orderID) :
    o.nullifier = o'.nullifier ∧ o.side = o'.side := by
  obtain ⟨p, hp, hpid, hpn, hps⟩ := ho
  obtain ⟨q, hq, hqid, hqn, hqs⟩ := ho'
  obtain rfl := hl.ids.eq hp hq hpid (by rw [hqid, hid])
  exact ⟨hpn.symm.trans hqn, hps.symm.trans hqs⟩

theorem Guarded.trackOrder (h : Guarded s n) (hl : Linked s) {o : TrackedOrder}
    (hk : o.Known s.posts) (ho : Resting s n → o.nullifier = n → o.side = .buy) :
    Guarded (s.trackOrder o) n := by
  refine h.quiet (Quiet.trackOrder s o) fun hr => ?_
  unfold SigningLayer.trackOrder
  split
  · exact .inr hr
  · have hr' : Resting ((s.persist o).setByOrderId o) n := by
      refine ⟨hr.open', ?_, fun o' ho' hn' => ?_, hr.noSell⟩
      · obtain ⟨o', ho', hn'⟩ := hr.tracked
        by_cases hid : o'.orderID = o.orderID
        · have heq := known_eq hl (hl.byOrderId o' ho') hk hid
          exact ⟨o, List.mem_append_right _ (List.mem_singleton_self _), heq.1 ▸ hn'⟩
        · refine ⟨o', List.mem_append_left _ (List.mem_filter.mpr ⟨ho', ?_⟩), hn'⟩
          simpa using hid
      · rcases List.mem_append.mp ho' with ho' | ho'
        · exact hr.buys o' (List.mem_of_mem_filter ho') hn'
        · rw [List.mem_singleton.mp ho'] at hn' ⊢
          exact ho hr hn'
    exact .inr (hr'.reconcileOne (ho hr))

/-- An order that stops being tracked was finalized. -/
theorem Guarded.untrack (h : Guarded s n) (hl : Linked s) {o : TrackedOrder}
    (hk : o.Known s.posts) (hf : o.nullifier ∈ s.finalized) : Guarded (s.untrack o) n := by
  refine h.quiet (Quiet.untrack s o) fun hr => .inr ⟨hr.open', ?_, fun o' ho' => ?_, hr.noSell⟩
  · obtain ⟨o', ho', hn'⟩ := hr.tracked
    refine ⟨o', List.mem_filter.mpr ⟨ho', ?_⟩, hn'⟩
    have hne : o'.orderID ≠ o.orderID := fun hid =>
      hr.open' (hn' ▸ (known_eq hl (hl.byOrderId o' ho') hk hid).1 ▸ hf)
    simpa using hne
  · exact hr.buys o' (List.mem_of_mem_filter ho')

theorem mem_dropTask {i : ℕ} {t u : Task} (ht : s.tasks[i]? = some t) (hu : u ∈ s.tasks) :
    u = t ∨ u ∈ (s.dropTask i).tasks := by
  obtain ⟨hlt, rfl⟩ := List.getElem?_eq_some_iff.mp ht
  exact List.mem_cons.mp ((List.getElem_cons_eraseIdx_perm hlt).mem_iff.mpr hu)

theorem Settled.dropTask (h : Settled s n) {i : ℕ} {t : Task} (ht : s.tasks[i]? = some t)
    (hn : t.outcome? ≠ some n) : Settled (s.dropTask i) n := by
  cases h with
  | inFlight h => exact .inFlight h
  | outcome h => exact .outcome h
  | signing h =>
    obtain ⟨u, hu, hun⟩ := h
    rcases mem_dropTask ht hu with rfl | hmem
    · exact absurd hun hn
    · exact .signing ⟨u, hmem, hun⟩

theorem Resting.dropTask (h : Resting s n) (i : ℕ) : Resting (s.dropTask i) n :=
  ⟨h.open', h.tracked, h.buys, fun u hu => h.noSell u (List.mem_of_mem_eraseIdx hu)⟩

theorem Guarded.dropTask (h : Guarded s n) {i : ℕ} {t : Task} (ht : s.tasks[i]? = some t)
    (hn : t.outcome? ≠ some n) : Guarded (s.dropTask i) n :=
  h.imp (fun h => h.dropTask ht hn) fun h => h.dropTask i

theorem Guarded.congr (h : Guarded s n) (hflight : s'.inFlight = s.inFlight)
    (hatt : s'.attestations = s.attestations) (htasks : s'.tasks = s.tasks)
    (hfin : s'.finalized = s.finalized) (horders : s'.byOrderId = s.byOrderId) :
    Guarded s' n := by
  rcases h with h | h
  · refine .inl ?_
    cases h with
    | inFlight h => exact .inFlight (by rw [InFlight, hflight]; exact h)
    | outcome h => exact .outcome (by rw [HasOutcome, hatt]; exact h)
    | signing h => exact .signing (by rw [SigningOutcome, htasks]; exact h)
  · exact .inr ⟨hfin ▸ h.open', horders ▸ h.tracked, horders ▸ h.buys, htasks ▸ h.noSell⟩

theorem Guarded.setListener (h : Guarded s n) (l : Listener) : Guarded (s.setListener l) n :=
  h.congr rfl rfl rfl rfl rfl

theorem Guarded.setInFlight (h : Guarded s n) (m : Hex32) : Guarded (s.setInFlight m) n := by
  rcases h with h | h
  · refine .inl ?_
    cases h with
    | inFlight h =>
      refine .inFlight ?_
      obtain ⟨entry, hmem, hn⟩ := List.any_eq_true.mp h
      by_cases hm : n = m
      · exact List.any_eq_true.mpr
          ⟨_, List.mem_append_right _ (List.mem_singleton_self _), by simpa using hm.symm⟩
      · refine List.any_eq_true.mpr
          ⟨entry, List.mem_append_left _ (List.mem_filter.mpr ⟨hmem, ?_⟩), hn⟩
        have hne : entry.1 = n := by simpa using hn
        simpa [hne] using hm
    | outcome h => exact .outcome h
    | signing h => exact .signing h
  · exact .inr ⟨h.open', h.tracked, h.buys, h.noSell⟩

/-- Storing the signature keeps the guards, and settles the bet it is about. -/
theorem Guarded.signed (h : Guarded s n) {i : ℕ} {input : AttestationInput} {after : AfterAttest}
    (ht : s.tasks[i]? = some (.signing input after)) (signature : String) :
    Guarded ((s.dropTask i).insertAttestation input signature) n := by
  by_cases hn : (Task.signing input after).outcome? = some n
  · have hout : input.reportType.isBetOutcome ∧ input.nullifierOfBet = n := by
      simp only [Task.outcome?, Option.ite_none_right_eq_some, Option.some.injEq] at hn
      exact hn
    refine .inl (.outcome ?_)
    have hrow := readTypedRow_insertRow (s.dropTask i).attestations input signature
    rw [← hout.2]
    exact outcome_of_typed hout.1 hrow
  · obtain ⟨more, hmore⟩ := insertRow_eq (s.dropTask i).attestations input signature
    rcases h.dropTask ht hn with h | h
    · refine .inl ?_
      cases h with
      | inFlight h => exact .inFlight h
      | outcome h =>
        refine .outcome ?_
        simp only [HasOutcome, SigningLayer.insertAttestation, hmore]
        exact getAttestation_append h
      | signing h => exact .signing h
    · exact .inr ⟨h.open', h.tracked, h.buys, h.noSell⟩

theorem Guarded.afterAttest (h : Guarded s n) (hl : Linked s) {after : AfterAttest}
    (ha : ∀ o, after = .untrack o → o.Known s.posts ∧ o.nullifier ∈ s.finalized) :
    Guarded (s.afterAttest after) n := by
  cases after with
  | done => exact h
  | listener => exact h.setListener _
  | untrack o => exact h.untrack hl (ha o rfl).1 (ha o rfl).2

theorem Resting.isOrderTracked (h : Resting s n) : s.isOrderTracked n = true := by
  obtain ⟨o, ho, hn⟩ := h.tracked
  rw [SigningLayer.isOrderTracked, getTrackedOrder, if_neg h.open']
  exact List.find?_isSome.mpr ⟨o, ho, by simpa using hn⟩

theorem Guarded.cancelOrdersForMarket (h : Guarded s n) (c : ℕ) :
    Guarded (s.cancelOrdersForMarket c) n := by
  refine h.quiet (Quiet.cancelOrdersForMarket s c) fun hr => ?_
  -- Each order of the loop is the bet's BUY or of another bet.
  have key : ∀ (os : List TrackedOrder) (t : SigningLayer),
      (∀ o ∈ os, o.nullifier = n → o.side = .buy) → Guarded t n →
      Guarded (os.foldl (cancelForMarket c) t) n := by
    intro os
    induction os with
    | nil => exact fun _ _ ht => ht
    | cons o os ih =>
      intro t hos ht
      refine ih _ (fun o' ho' => hos o' (List.mem_cons_of_mem _ ho')) ?_
      unfold cancelForMarket
      split
      · exact ht
      · exact ht.finalize 0 0 fun _ => hos o List.mem_cons_self
  exact key _ _ hr.buys (.inr hr)

/-! ### The handlers of the listener -/

theorem Guarded.attestFailedFor (h : Guarded s n) (m : Hex32) {after : AfterAttest}
    (ha : ∀ o, after ≠ .untrack o) : Guarded (s.attestFailedFor m after) n :=
  h.quiet (Quiet.attestFailedFor _ _ _) fun hr =>
    .inr (hr.signAndStoreAttestation _ fun o ho => absurd ho (ha o))

theorem Guarded.confirmed (h : Guarded s n) (r : BetAuthorizedRecord)
    (resolved : Option RegistryHit) : Guarded (s.confirmed r resolved) n := by
  unfold SigningLayer.confirmed
  split
  · exact h.setListener _
  · have h' := h.setInFlight r.nullifier
    unfold processBetEvent
    split
    · exact (h'.attestFailedFor _ (by simp)).setListener _
    · exact h'.setListener _

theorem Guarded.funded (h : Guarded s n) (e : BetAuthorizedEvent) (t : OrderType) (ok : Bool) :
    Guarded (s.funded e t ok) n := by
  unfold SigningLayer.funded
  split
  · split
    · refine Guarded.setListener (h.congr ?_ ?_ ?_ ?_ ?_) _
      all_goals
        unfold markMarketSubmitting
        split <;> rfl
    · exact h.setListener _
  · exact (h.attestFailedFor _ (by simp)).setListener _

theorem Guarded.fakResponded (h : Guarded s n) (e : BetAuthorizedEvent) (size : ℕ)
    (resp : Option ClobResponse) : Guarded (s.fakResponded e size resp) n := by
  cases resp with
  | none => exact h.setListener _
  | some resp =>
    have hrec : Guarded (s.recordOrderId e.nullifier resp.orderID) n := by
      cases resp.orderID <;> exact h.congr rfl rfl rfl rfl rfl
    simp only [SigningLayer.fakResponded]
    split
    · exact hrec.setListener _
    · exact (hrec.quiet (Quiet.attestTerminal _ _ _ _ _) fun hr =>
        .inr (hr.attestTerminal _ _ _ (by simp))).setListener _

/-- The order handed to the tracker is a BUY. -/
theorem Guarded.limitResponded (h : Guarded s n) (hl : Linked s) {e : BetAuthorizedEvent}
    {t : OrderType} {i : ℕ} {p : Post} {resp : Option ClobResponse}
    (hpost : PostAt s.posts i e.nullifier .buy t) (hp : s.posts[i]? = some p)
    (htrue : ∀ r ∈ resp, r.truthful p) : Guarded (s.limitResponded e t resp) n := by
  unfold SigningLayer.limitResponded
  split
  · exact h.setListener _
  · split
    · split
      · exact h.setListener _
      · exact (h.attestFailedFor _ (by simp)).setListener _
    · rename_i id hid
      split
      · exact h.setListener _
      · exact (h.trackOrder hl (o := limitTracked e t id 0)
          (truthful_placed hpost hp (htrue _ rfl) hid) fun _ _ => rfl).setListener _

theorem Guarded.crossed (h : Guarded s n) (hl : Linked s) {e : BetAuthorizedEvent}
    (t : OrderType) {id : OrderId} (fee : Option ℕ) (hp : Placed s.posts e.nullifier .buy id) :
    Guarded (s.crossed e t id fee) n := by
  unfold SigningLayer.crossed
  split
  · exact h.setListener _
  · rename_i fee
    exact (h.trackOrder hl (o := limitTracked e t id fee) hp fun _ _ => rfl).setListener _

/-! ### The requests -/

theorem Guarded.cancelBet (h : Guarded s n) (m : Hex32) : Guarded (s.cancelBet m) n := by
  refine h.quiet (Quiet.cancelBet s m) fun hr => .inr ?_
  unfold SigningLayer.cancelBet
  split_ifs
  · exact hr
  · exact hr.spawn (by rintro ⟨o, ho, -⟩; cases ho)
  · exact hr
  · split
    · exact hr.spawn (by rintro ⟨o, ho, -⟩; cases ho)
    · exact hr.signAndStoreAttestation _ (by simp)

/-- A resting close of the bet is refused while its BUY is tracked. -/
theorem Guarded.closeRequest (h : Guarded s n) (req : CloseRequest) (t : OrderType) :
    Guarded (s.closeRequest req t) n := by
  refine h.quiet (Quiet.closeRequest s req t) fun hr => .inr ?_
  unfold SigningLayer.closeRequest
  split_ifs with hbad hsold htracked
  · exact hr
  · exact hr
  · exact hr
  · refine hr.spawn ?_
    rintro ⟨ht, hn⟩
    exact htracked ⟨ht, hn ▸ hr.isOrderTracked⟩

/-! ### The suspended procedures -/

section Tasks

variable {i : ℕ} {t : Task} {o : TrackedOrder}

/-- The order of a suspended procedure is the bet's BUY or of another bet. -/
theorem Resting.side_buy (h : Resting s n) (ht : s.tasks[i]? = some t) (ho : t.order? = some o)
    (hn : o.nullifier = n) : o.side = .buy := by
  by_contra hside
  have hsell : o.side = .sell := by
    cases h : o.side with
    | buy => exact absurd h hside
    | sell => rfl
  apply h.noSell t (List.mem_of_getElem? ht)
  cases t with
  | selling => cases ho
  | sellPosted => cases ho
  | sellFee => cases ho
  | _ => exact ⟨o, ho, hsell, hn⟩

theorem Guarded.takeUp (h : Guarded s n) {u : SigningLayer} (ht : s.tasks[i]? = some t)
    (hout : t.outcome? = none) (hq : Quiet (s.dropTask i) u)
    (hu : Resting s n → Guarded (s.dropTask i) n → Guarded u n) : Guarded u n := by
  have hn : t.outcome? ≠ some n := by
    rw [hout]
    exact fun hnone => by cases hnone
  rcases h with hset | hr
  · exact .inl ((hset.dropTask ht hn).quiet hq)
  · exact hu hr (.inr (hr.dropTask i))

/-- An order a procedure is about to forget was finalized. -/
theorem finalized_of_untracks (hl : Linked s) (ht : s.tasks[i]? = some t)
    (hu : t.untracks? = some o) (ho : t.order? = some o) :
    o.Known s.posts ∧ o.nullifier ∈ s.finalized := by
  refine ⟨?_, hl.untracking t (List.mem_of_getElem? ht) o hu⟩
  have hlinked := hl.task ht
  cases t with
  | signing => exact hlinked o ho
  | attested => exact hlinked o ho
  | _ => cases hu

theorem Guarded.cancelTrackedOrder (h : Guarded s n) {m : Hex32} (client : Bool)
    (ht : s.tasks[i]? = some (.cancelClient m)) :
    Guarded ((s.dropTask i).cancelTrackedOrder m client) n := by
  refine h.takeUp ht rfl (Quiet.cancelTrackedOrder _ _ _) fun hr h' => ?_
  unfold SigningLayer.cancelTrackedOrder
  split
  · exact h'
  · rename_i o ho
    have hside : o.nullifier = n → o.side = .buy := hr.buys o (getTrackedOrder_mem ho).2.1
    split_ifs
    · exact h'
    · exact .inr ((hr.dropTask i).spawn (not_sells_of_order (o := o) rfl hside))
    · exact .inr ((hr.dropTask i).reconcileOne hside)

theorem Guarded.cancelled (h : Guarded s n) {od : OrderAnswer} {trades : Option ℕ} {spent : ℕ}
    (ht : s.tasks[i]? = some (.cancelling o))
    (hc : (s.dropTask i).cancelled o od trades spent = some s') : Guarded s' n := by
  refine h.takeUp ht rfl (Quiet.cancelled hc) fun hr h' => ?_
  have hside := hr.side_buy ht (o := o) rfl
  obtain ⟨-, m, -, rfl⟩ | ⟨-, m, -, rfl⟩ | ⟨-, rfl⟩ := cancelled_cases hc
  · exact h'.finalize _ _ fun _ => hside
  · exact h'.finalize _ _ fun _ => hside
  · exact .inr ((hr.dropTask i).reconcileOne hside)

theorem Guarded.reconciled (h : Guarded s n) {od : OrderAnswer} {trades : Option ℕ} {spent : ℕ}
    (ht : s.tasks[i]? = some (.reconciling o))
    (hc : (s.dropTask i).reconciled o od trades spent = some s') : Guarded s' n := by
  refine h.takeUp ht rfl (Quiet.reconciled hc) fun hr h' => ?_
  have hside := hr.side_buy ht (o := o) rfl
  obtain ⟨-, m, -, rfl⟩ | ⟨-, -, m, -, -, rfl⟩ | ⟨-, rfl⟩ := reconciled_cases hc
  · exact h'.finalize _ _ fun _ => hside
  · exact h'.finalize _ _ fun _ => hside
  · exact h'

theorem Guarded.reconcileMarketSubmission (h : Guarded s n) {m : Hex32} {sub : MarketSubmission}
    (client : Bool) (ht : s.tasks[i]? = some (.marketClient m sub)) :
    Guarded ((s.dropTask i).reconcileMarketSubmission m sub client) n := by
  refine h.takeUp ht rfl (Quiet.reconcileMarketSubmission _ _ _ _) fun hr h' => ?_
  have hr' := hr.dropTask i
  unfold SigningLayer.reconcileMarketSubmission
  split
  · exact h'
  · split
    · split
      · exact .inr (hr'.signAndStoreAttestation _ (by simp))
      · exact h'
    · split
      · exact .inr (hr'.spawn (by rintro ⟨o, ho, -⟩; cases ho))
      · exact h'

theorem Guarded.marketQueried (h : Guarded s n) {m : Hex32} {id : OrderId} {od : OrderAnswer}
    {spent : ℕ} (ht : s.tasks[i]? = some (.marketQuery m id))
    (hc : (s.dropTask i).marketQueried m id od spent = some s') : Guarded s' n := by
  refine h.takeUp ht rfl (Quiet.marketQueried hc) fun hr h' => ?_
  unfold SigningLayer.marketQueried at hc
  split at hc
  · obtain ⟨m, -, rfl⟩ := Option.map_eq_some_iff.mp hc
    exact .inr ((hr.dropTask i).attestTerminal _ _ _ (by simp))
  · cases hc
    exact h'

theorem Guarded.sell (h : Guarded s n) {req : CloseRequest} {ty : OrderType} (client : Bool)
    (resolved : Option RegistryHit) (bestBid : ℕ) (ht : s.tasks[i]? = some (.selling req ty)) :
    Guarded ((s.dropTask i).sell req ty client resolved bestBid) n := by
  have h' := h.dropTask ht (by simp [Task.outcome?])
  rcases Quiet.sell (s.dropTask i) req ty client resolved bestBid with heq | ⟨hit, -, heq⟩
  · rw [heq]
    exact h'
  · rw [heq]
    have hpost : Guarded ((s.dropTask i).post
        ⟨req.nullifierOfBet, .sell, ty, req.soldShares, hit.tokenId, .sent⟩) n :=
      h'.congr rfl rfl rfl rfl rfl
    rcases h with hset | hr
    · refine .inl (Settled.quiet ?_ (Quiet.spawn _ _))
      have hset' := hset.dropTask ht (by simp [Task.outcome?])
      cases hset' with
      | inFlight h => exact .inFlight h
      | outcome h => exact .outcome h
      | signing h => exact .signing h
    · refine hpost.quiet (Quiet.spawn _ _) fun hr' => .inr (hr'.spawn ?_)
      exact hr.noSell (.selling req ty) (List.mem_of_getElem? ht)

theorem Guarded.limitSellResponded (h : Guarded s n) (hl : Linked s) {req : CloseRequest}
    {ty : OrderType} {c : ℕ} {k : TokenId} {price j : ℕ} {p : Post} {r : ClobResponse}
    (hfak : ty ≠ .fak) (ht : s.tasks[i]? = some (.sellPosted req ty c k price j))
    (hp : s.posts[j]? = some p) (htrue : r.truthful p) :
    Guarded ((s.dropTask i).limitSellResponded req ty c k r) n := by
  have hpost : PostAt s.posts j req.nullifierOfBet .sell ty := hl.task ht
  refine h.takeUp ht rfl (Quiet.limitSellResponded _ _ _ _ _ _) fun hr h' => ?_
  have hne : req.nullifierOfBet ≠ n := fun hn =>
    hr.noSell _ (List.mem_of_getElem? ht) ⟨hfak, hn⟩
  unfold SigningLayer.limitSellResponded
  split
  · exact h'
  · rename_i id hid
    split
    · exact .inr ((hr.dropTask i).spawn hne)
    · exact h'.trackOrder (hl.dropTask i) (o := sellTracked req ty c k id 0)
        (truthful_placed hpost hp htrue hid) fun _ hn => absurd hn hne

end Tasks

/-- A guard outlives every step but a restart. -/
theorem Guarded.step {a : Action} (h : Guarded s n) (hl : Linked s) (hsafe : ScanSafe s a)
    (hrestart : a ≠ .restart) (hs : machine.step s a = some s') : Guarded s' n := by
  cases steps_of_step hs with
  | handleBetRecord =>
    rw [handleBetRecord_eq]
    split
    · exact h.setListener _
    · exact h
  | confirmed => exact h.confirmed _ _
  | confirmThrew => exact h.setListener _
  | funded => exact h.funded _ _ _
  | prepared =>
    unfold SigningLayer.prepared
    split
    · exact h.setListener _
    · exact h.congr rfl rfl rfl rfl rfl
  | fakResponded => exact h.fakResponded _ _ _
  | @limitResponded e t i p resp ht hl' hp htrue =>
    have hpost : PostAt s.posts i e.nullifier .buy t := by
      have := hl.listener
      rwa [hl'] at this
    exact h.limitResponded hl hpost hp htrue
  | @crossed e t id fee hl' =>
    have hplaced : Placed s.posts e.nullifier .buy id := by
      have := hl.listener
      rwa [hl'] at this
    exact h.crossed hl t fee hplaced
  | limitOrder => exact h.congr rfl rfl rfl rfl rfl
  | cancelBet => exact h.cancelBet _
  | closeRequest => exact h.closeRequest _ _
  | @signed i input after signature ht =>
    have hlinked : Linked ((s.dropTask i).insertAttestation input signature) :=
      { hl.dropTask i with }
    refine (h.signed ht signature).afterAttest hlinked fun o ho => ?_
    subst ho
    exact finalized_of_untracks (s := s) hl ht rfl rfl
  | @signThrew i input after ht =>
    have h' : Guarded (s.dropTask i) n := by
      by_cases hn : (Task.signing input after).outcome? = some n
      · refine .inl (.inFlight ?_)
        have hsafe' : ∀ t ∈ s.tasks[i]?, ∀ m ∈ t.outcome?, s.InFlight m := hsafe
        exact hsafe' _ ht n hn
      · exact h.dropTask ht hn
    refine h'.afterAttest (hl.dropTask i) fun o ho => ?_
    subst ho
    exact finalized_of_untracks (s := s) hl ht rfl rfl
  | @attested i after ht =>
    refine (h.dropTask ht (by simp [Task.outcome?])).afterAttest (hl.dropTask i) fun o ho => ?_
    subst ho
    exact finalized_of_untracks (s := s) hl ht rfl rfl
  | cancelClient ht => exact h.cancelTrackedOrder _ ht
  | cancelled ht _ hc => exact h.cancelled ht hc
  | reconciled ht _ hc => exact h.reconciled ht hc
  | marketClient ht => exact h.reconcileMarketSubmission _ ht
  | marketQueried ht hc => exact h.marketQueried ht hc
  | sell ht => exact h.sell _ _ _ ht
  | sellThrew ht => exact h.dropTask ht (by simp [Task.outcome?])
  | @marketSold i req c k price j p r _ _ ht =>
    refine h.takeUp ht rfl (Quiet.marketSold _ _ _ _ _ _) fun hr _ => .inr ?_
    unfold SigningLayer.marketSold
    exact (hr.dropTask i).attestTerminal _ _ _ (by simp)
  | limitSellResponded hfak ht hp htrue => exact h.limitSellResponded hl hfak ht hp htrue
  | @sellCrossed i req t c k id fee ht =>
    have hplaced : Placed s.posts req.nullifierOfBet .sell id := hl.task ht
    refine h.takeUp ht rfl (Quiet.trackOrder _ _) fun hr h' => ?_
    have hne : req.nullifierOfBet ≠ n := fun hn => hr.noSell _ (List.mem_of_getElem? ht) hn
    exact h'.trackOrder (hl.dropTask i) (o := sellTracked req t c k id fee) hplaced
      fun _ hn => absurd hn hne
  | sellCrossThrew ht => exact h.dropTask ht (by simp [Task.outcome?])
  | message =>
    unfold SigningLayer.handleOne
    split
    · exact h.finalize _ _ fun hr => hr.buys _ (findTracked_mem ‹_›)
    · exact h
  | reconcile ho =>
    exact h.quiet (Quiet.reconcileOne s _) fun hr => .inr (hr.reconcileOne (hr.buys _ ho))
  | marketResolved => exact h.cancelOrdersForMarket _
  | restart => exact absurd rfl hrestart
  | clob => exact h.congr rfl rfl rfl rfl rfl
  | authorizeBet => exact h.congr rfl rfl rfl rfl rfl
  | setBetStatus => exact h.congr rfl rfl rfl rfl rfl
  | tick => exact h.congr rfl rfl rfl rfl rfl

/-! ### The reload after a restart -/

theorem alreadyAttested_congr {t : SigningLayer} (h : s.attestations = t.attestations)
    (side : Side) (m : Hex32) : s.alreadyAttested side m = t.alreadyAttested side m := by
  unfold alreadyAttested
  rw [h]

theorem finalized_foldl_load (os : List TrackedOrder) (t : SigningLayer) {m : Hex32}
    (h : m ∈ (os.foldl resumeTracking t).finalized) :
    m ∈ t.finalized ∨ ∃ o ∈ os, o.nullifier = m ∧ t.alreadyAttested o.side m = true := by
  induction os generalizing t with
  | nil => exact .inl h
  | cons o os ih =>
    rcases ih _ h with h | ⟨o', ho', hn, hatt⟩
    · unfold resumeTracking at h
      split at h
      case isTrue hatt =>
        rcases List.mem_append.mp h with h | h
        · exact .inl h
        · obtain rfl := List.mem_singleton.mp h
          exact .inr ⟨o, List.mem_cons_self, rfl, hatt⟩
      case isFalse => exact .inl h
    · refine .inr ⟨o', List.mem_cons_of_mem _ ho', hn, ?_⟩
      rw [← hatt]
      refine alreadyAttested_congr ?_ _ _
      unfold resumeTracking
      split <;> rfl

theorem byOrderId_foldl_load (os : List TrackedOrder) (t : SigningLayer) (o : TrackedOrder)
    (hid : ∀ o' ∈ os, o'.orderID = o.orderID → o' = o)
    (hatt : t.alreadyAttested o.side o.nullifier = false)
    (hmem : o ∈ t.byOrderId ∨ o ∈ os) :
    o ∈ (os.foldl resumeTracking t).byOrderId := by
  induction os generalizing t with
  | nil => exact hmem.resolve_right List.not_mem_nil
  | cons o' os ih =>
    refine ih _ (fun o'' ho'' => hid o'' (List.mem_cons_of_mem _ ho'')) ?_ ?_
    · rw [← hatt]
      refine alreadyAttested_congr ?_ _ _
      unfold resumeTracking
      split <;> rfl
    · -- Loading `o'` keeps `o` unless they share an id, and then they are one order.
      by_cases heq : o' = o
      · subst heq
        rw [resumeTracking, hatt, if_neg (by decide)]
        exact .inl (List.mem_append_right _ (List.mem_singleton_self _))
      · have hne : o.orderID ≠ o'.orderID := fun h => heq (hid o' List.mem_cons_self h.symm)
        refine hmem.imp (fun hmem => ?_) fun hmem => ?_
        · unfold resumeTracking
          split
          · exact hmem
          · exact List.mem_append_left _ (List.mem_filter.mpr ⟨hmem, by simpa using hne⟩)
        · exact (List.mem_cons.mp hmem).resolve_left (Ne.symm heq)

theorem mem_byOrderId_foldl_load (os : List TrackedOrder) (t : SigningLayer) {o : TrackedOrder}
    (h : o ∈ (os.foldl resumeTracking t).byOrderId) : o ∈ t.byOrderId ∨ o ∈ os := by
  induction os generalizing t with
  | nil => exact .inl h
  | cons o' os ih =>
    rcases ih _ h with h | h
    · unfold resumeTracking at h
      split at h
      · exact .inl h
      · rcases List.mem_append.mp h with h | h
        · exact .inl (List.mem_of_mem_filter h)
        · rw [List.mem_singleton.mp h]
          exact .inr List.mem_cons_self
    · exact .inr (List.mem_cons_of_mem _ h)

theorem tracked_eq (hl : Linked s) {o o' : TrackedOrder} (ho : o ∈ s.trackedOrders)
    (ho' : o' ∈ s.trackedOrders) (hn : o.nullifier = o'.nullifier) : o = o' := by
  have hnodup : (s.trackedOrders.map TrackedOrder.nullifier).Nodup :=
    List.pairwise_map.mpr hl.onePerBet
  exact List.inj_on_of_nodup_map hnodup ho ho' hn

/-- A restart finds the orders of the bet attested or tracked again. -/
theorem guarded_restart (hl : Linked s)
    (h : s.HasOutcome n ∨ ∃ o ∈ s.trackedOrders, o.nullifier = n ∧ o.side = .buy) :
    Guarded s.restart n := by
  by_cases hout : s.HasOutcome n
  · refine .inl (.outcome ?_)
    rw [HasOutcome, (restart_frame s).1]
    exact hout
  · obtain ⟨o, ho, hn, hside⟩ := h.resolve_left hout
    have hone : ∀ o' ∈ s.trackedOrders, o'.nullifier = n → o' = o := fun o' ho' hn' =>
      tracked_eq hl ho' ho (hn'.trans hn.symm)
    have hatt : ∀ t : SigningLayer, t.attestations = s.attestations →
        t.alreadyAttested o.side o.nullifier = false := by
      intro t ht
      rw [alreadyAttested_congr ht, hside, hn]
      exact Bool.eq_false_of_not_eq_true hout
    refine .inr ⟨fun hmem => ?_, ⟨o, ?_, hn⟩, fun o' ho' hn' => ?_, fun t ht => ?_⟩
    · rcases finalized_foldl_load _ _ hmem with hmem | ⟨o', ho', hn', hatt'⟩
      · exact absurd hmem List.not_mem_nil
      · obtain rfl := hone o' ho' hn'
        have hfalse := hatt s.clearMemory rfl
        rw [hn', hatt'] at hfalse
        cases hfalse
    · refine byOrderId_foldl_load _ _ o (fun o' ho' hid => ?_) (hatt _ rfl) (.inr ho)
      have hk := known_eq hl (hl.trackedOrders o' ho') (hl.trackedOrders o ho) hid
      exact tracked_eq hl ho' ho hk.1
    · rcases mem_byOrderId_foldl_load _ _ ho' with ho' | ho'
      · exact absurd ho' List.not_mem_nil
      · rw [hone o' ho' hn']
        exact hside
    · have htasks : s.restart.tasks = [] := tasks_foldl_load _ _
      rw [htasks] at ht
      exact absurd ht List.not_mem_nil

end SigningLayer

/-! ## At most one order of a bet -/

def Listener.started? : Listener → Option Hex32
  | .funding e _ | .preparing e _ => some e.nullifier
  | _ => none

/-- Every open BUY is guarded, so the listener does not pick its bet up again. -/
structure Once (s : SigningLayer) : Prop where
  linked : Linked s
  single : SingleBuy s
  guarded : ∀ p ∈ s.posts, ∀ n, p.OpenBuy n → s.Guarded n
  started : ∀ n, s.listener.started? = some n → s.InFlight n

theorem started_step {s s' : SigningLayer} {a : Action} (hs : machine.step s a = some s')
    {n : Hex32}
    (h : ∀ n, s.listener.started? = some n → s.InFlight n) (hn : s'.listener.started? = some n) :
    s'.InFlight n := by
  have hquiet : ∀ {t u : SigningLayer}, Quiet t u → t.listener = s.listener →
      t.inFlight = s.inFlight → u.listener.started? = some n → u.InFlight n := by
    intro t u hq hl hf hn
    rw [InFlight, hq.inFlight, hf]
    exact h n (by rw [← hn, hq.listener, hl])
  have hafter : ∀ (t : SigningLayer) after, t.listener = s.listener → t.inFlight = s.inFlight →
      (t.afterAttest after).listener.started? = some n → (t.afterAttest after).InFlight n := by
    intro t after hl hf hn
    cases after with
    | done => exact hquiet (Quiet.refl t) hl hf hn
    | listener => cases hn
    | untrack o => exact hquiet (Quiet.untrack t o) hl hf hn
  cases steps_of_step hs with
  | handleBetRecord =>
    rw [handleBetRecord_eq] at hn ⊢
    split at hn
    · cases hn
    · rw [if_neg ‹_›]
      exact h n hn
  | @confirmed r resolved =>
    unfold SigningLayer.confirmed at hn ⊢
    split at hn
    · cases hn
    · rw [if_neg ‹_›]
      unfold processBetEvent at hn ⊢
      split at hn
      · cases hn
      · obtain rfl := Option.some.inj hn
        refine List.any_eq_true.mpr
          ⟨_, List.mem_append_right _ (List.mem_singleton_self _), by simp⟩
  | confirmThrew => cases hn
  | @funded e t ok hl =>
    have he : s.InFlight e.nullifier := h _ (by rw [hl]; rfl)
    unfold SigningLayer.funded at hn ⊢
    split at hn
    · cases t with
      | fak =>
        obtain rfl := Option.some.inj hn
        rw [if_pos ‹_›]
        unfold markMarketSubmitting
        dsimp only
        split <;> exact he
      | _ =>
        obtain rfl := Option.some.inj hn
        rw [if_pos ‹_›]
        exact he
    · cases hn
  | prepared =>
    unfold SigningLayer.prepared at hn
    split at hn <;> cases hn
  | fakResponded =>
    unfold SigningLayer.fakResponded at hn
    split at hn
    · cases hn
    · split at hn <;> cases hn
  | limitResponded =>
    unfold SigningLayer.limitResponded at hn
    split at hn
    · cases hn
    · split at hn
      · split at hn <;> cases hn
      · split at hn <;> cases hn
  | crossed =>
    unfold SigningLayer.crossed at hn
    split at hn <;> cases hn
  | limitOrder => exact h n hn
  | cancelBet => exact hquiet (Quiet.cancelBet s _) rfl rfl hn
  | closeRequest => exact hquiet (Quiet.closeRequest s _ _) rfl rfl hn
  | @signed i input after signature =>
    exact hafter ((s.dropTask i).insertAttestation input signature) after rfl rfl hn
  | @signThrew i input after => exact hafter (s.dropTask i) after rfl rfl hn
  | @attested i after => exact hafter (s.dropTask i) after rfl rfl hn
  | @cancelClient i m client =>
    exact hquiet (Quiet.cancelTrackedOrder (s.dropTask i) m client) rfl rfl hn
  | cancelled _ _ hc => exact hquiet (Quiet.cancelled hc) rfl rfl hn
  | reconciled _ _ hc => exact hquiet (Quiet.reconciled hc) rfl rfl hn
  | @marketClient i m sub client =>
    exact hquiet (Quiet.reconcileMarketSubmission (s.dropTask i) m sub client) rfl rfl hn
  | marketQueried _ hc => exact hquiet (Quiet.marketQueried hc) rfl rfl hn
  | @sell i req t client resolved bestBid =>
    rcases Quiet.sell (s.dropTask i) req t client resolved bestBid with heq | ⟨hit, -, heq⟩
    · rw [heq] at hn ⊢
      exact h n hn
    · rw [heq] at hn ⊢
      exact h n hn
  | sellThrew => exact h n hn
  | @marketSold i req c k price j p r confirmed fee =>
    exact hquiet (Quiet.marketSold (s.dropTask i) req price r confirmed fee) rfl rfl hn
  | @limitSellResponded i req t c k price j p r confirmed fee =>
    exact hquiet (Quiet.limitSellResponded (s.dropTask i) req t c k r) rfl rfl hn
  | @sellCrossed i req t c k id fee => exact hquiet (Quiet.trackOrder (s.dropTask i) _) rfl rfl hn
  | sellCrossThrew => exact h n hn
  | message => exact hquiet (Quiet.handleOne s _) rfl rfl hn
  | reconcile => exact hquiet (Quiet.reconcileOne s _) rfl rfl hn
  | marketResolved => exact hquiet (Quiet.cancelOrdersForMarket s _) rfl rfl hn
  | restart =>
    rw [(restart_frame s).2.2.2.1] at hn
    cases hn
  | clob => exact h n hn
  | authorizeBet => exact h n hn
  | setBetStatus => exact h n hn
  | tick => exact h n hn

namespace Once

theorem initial : Once .initial :=
  ⟨.initial, .initial, fun p hp => absurd hp List.not_mem_nil, fun n hn => by cases hn⟩

theorem not_takesUp {s : SigningLayer} {r : BetAuthorizedRecord}
    (hsafe : ScanSafe s (.handleBetRecord r)) (ht : TakesUp s r) : ¬s.Guarded r.nullifier := by
  obtain ⟨hatt, hflight, htracked⟩ := ht
  rintro (h | h)
  · cases h with
    | inFlight h => rw [InFlight, hflight] at h; cases h
    | outcome h => rw [HasOutcome, hatt] at h; cases h
    | signing h =>
      obtain ⟨t, hmem, hn⟩ := h
      exact hsafe t hmem hn
  · rw [h.isOrderTracked] at htracked
    cases htracked

theorem step {s s' : SigningLayer} {a : Action} (h : Once s) (hsafe : ScanSafe s a)
    (hs : machine.step s a = some s') : Once s' := by
  refine ⟨h.linked.step hs, h.single.step hs fun r ha ht p hp hopen => ?_, fun p' hp' n hopen => ?_,
    fun n hn => started_step hs h.started hn⟩
  · subst ha
    exact not_takesUp hsafe ht (h.guarded p hp _ hopen)
  · by_cases hrestart : a = .restart
    · subst hrestart
      obtain rfl : s.restart = s' := Option.some.inj hs
      rw [(restart_frame s).2.2.2.2.1] at hp'
      have hrow := hsafe p' hp' hopen.1 hopen.2.2
      rw [hopen.2.1] at hrow
      exact guarded_restart h.linked hrow
    · -- An open order is an old one or the one POSTed now, whose bet is in flight.
      have hold : s.Guarded n := by
        cases bookStep hs with
        | same hposts => exact h.guarded p' (hposts ▸ hp') n hopen
        | @buy e t size hl _ hposts =>
          rw [hposts] at hp'
          rcases List.mem_append.mp hp' with hp' | hp'
          · exact h.guarded p' hp' n hopen
          · have hn := hopen.2.1
            rw [List.mem_singleton.mp hp'] at hn
            exact .inl (.inFlight (h.started n (by rw [hl, ← hn]; rfl)))
        | sell hside _ _ hposts _ =>
          rw [hposts] at hp'
          rcases List.mem_append.mp hp' with hp' | hp'
          · exact h.guarded p' hp' n hopen
          · have hbuy := hopen.1
            rw [List.mem_singleton.mp hp', hside] at hbuy
            cases hbuy
        | @move i p state hp hm _ hposts =>
          rw [hposts] at hp'
          rcases List.mem_or_eq_of_mem_set hp' with hp' | rfl
          · exact h.guarded p' hp' n hopen
          · exact h.guarded p (List.mem_of_getElem? hp) n (hm.openBuy hopen)
      exact hold.step h.linked hsafe hrestart hs

theorem of_run {s : SigningLayer} (h : machine.Run ScanSafe .initial s) : Once s :=
  h.invariant .initial fun _ _ _ hi hc hs => hi.step hc hs

end Once

/-- The BUY orders of a `bytes32` that the CLOB has accepted. -/
def acceptedBuys (s : SigningLayer) (bet : ℕ) : List Post :=
  s.posts.filter fun p => p.side = .buy ∧ p.accepted ∧ p.nullifier.bytes32 = bet

/-- A predicate that two entries of a list cannot both meet leaves at most one. -/
theorem length_filter_le_one {α : Type*} {P : α → Bool} {l : List α}
    (h : ∀ (i j : ℕ) (a b : α), l[i]? = some a → l[j]? = some b → P a → P b → i = j) :
    (l.filter P).length ≤ 1 := by
  induction l with
  | nil => exact Nat.zero_le _
  | cons a l ih =>
    have hl : (l.filter P).length ≤ 1 := ih fun i j b c hb hc hPb hPc =>
      Nat.succ.inj (h (i + 1) (j + 1) b c hb hc hPb hPc)
    by_cases ha : P a
    · have hnil : l.filter P = [] := by
        refine List.filter_eq_nil_iff.mpr fun b hb hPb => ?_
        obtain ⟨j, hj⟩ := List.mem_iff_getElem?.mp hb
        exact absurd (h 0 (j + 1) a b rfl hj ha hPb) (Nat.succ_ne_zero j).symm
      rw [List.filter_cons_of_pos ha, hnil]
      rfl
    · rw [List.filter_cons_of_neg ha]
      exact hl

/-- The CLOB accepts at most one BUY for each nullifier, if every restart and scan is safe. -/
theorem at_most_one_buy {s : SigningLayer} (h : machine.Run ScanSafe .initial s) (bet : ℕ) :
    (acceptedBuys s bet).length ≤ 1 := by
  have ho := Once.of_run h
  refine length_filter_le_one fun i j p q hp hq hPp hPq => ?_
  simp only [decide_eq_true_eq] at hPp hPq
  obtain ⟨hpb, hpa, hpn⟩ := hPp
  obtain ⟨hqb, hqa, hqn⟩ := hPq
  have hopen : ∀ p : Post, p.accepted → p.state ≠ .refused := by
    intro p hacc href
    simp [Post.accepted, Post.orderID?, href] at hacc
  -- Both orders carry the lower-case spelling of the bet.
  have heq : q.nullifier = p.nullifier :=
    Hex32.lowercase_inj (ho.linked.buys q (List.mem_of_getElem? hq) hqb)
      (ho.linked.buys p (List.mem_of_getElem? hp) hpb) (hqn.trans hpn.symm)
  exact ho.single.unique i j p q p.nullifier hp hq ⟨hpb, rfl, hopen p hpa⟩ ⟨hqb, heq, hopen q hqa⟩

instance (s : SigningLayer) (a : Action) : Decidable (ScanSafe s a) := by
  induction a using Action.casesOn with
  | signed i e => induction e using Option.casesOn <;> dsimp only [ScanSafe] <;> infer_instance
  | _ =>
    dsimp only [ScanSafe]
    infer_instance

/-- A resting order survives a restart, is scanned again, fills and is attested. -/
def restingAcrossRestart : List Action :=
  .authorizeBet sampleChainBet :: submitSample .gtc
    ++ [.clobAccept 0 7 true 0, .responded (some ⟨some 7, .live, false, 0, false, false⟩), .restart,
      .handleBetRecord sampleLog,
      .reconcile ⟨sampleBet, 7, 2, 1, 1000000, 500000, 50000000, .gtc, .buy, 0, 0⟩,
      .clobFill 0 1000000 true, .clobClose 0, .reconciled 0 .terminal (some 0) 500000,
      .signed 0 (some "filled"), .handleBetRecord sampleLog]

theorem at_most_one_buy_resting_across_restart :
    ∃ s, machine.Run ScanSafe .initial s ∧ (acceptedBuys s 10).length = 1
      ∧ (acceptedBuys s 10).length ≤ 1 := by
  have hrun : ((machine.checkFrom ScanSafe .initial restingAcrossRestart).map
      fun s => (acceptedBuys s 10).length) = some 1 := by
    decide +kernel
  obtain ⟨s, hs, hone⟩ := Option.map_eq_some_iff.mp hrun
  have h := Machine.run_of_checkFrom hs
  exact ⟨s, h, hone, at_most_one_buy h 10⟩

/-- The CLOB takes and fills a market order, the process dies before its response is attested, and
the next scan submits the bet again. -/
def restartBeforeAttestation : List Action :=
  .authorizeBet sampleChainBet :: submitSample .fak
    ++ .clobAccept 0 7 false 1000000 :: .restart :: submitSample .fak
    ++ [.clobAccept 1 8 false 1000000]

theorem two_buys_restart_before_attestation :
    ¬∀ acts s, machine.runFrom .initial acts = some s → ∀ bet, (acceptedBuys s bet).length ≤ 1 := by
  intro h
  have hrun : ((machine.runFrom .initial restartBeforeAttestation).map
      fun s => (acceptedBuys s 10).length) = some 2 := by
    decide +kernel
  obtain ⟨s, hs, htwo⟩ := Option.map_eq_some_iff.mp hrun
  have hone := h _ s hs 10
  omega

end Polyshield.Signing

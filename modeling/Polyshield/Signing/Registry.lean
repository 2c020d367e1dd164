import Polyshield.Signing.Frames

/-!
# What a step does to the tracked orders

A step hands an order to `trackOrder`, finalizes one, forgets one when the
attestation it awaits returns, resolves a market, restarts, or leaves the
tracker's registries alone (`trackerStep`).
-/

namespace Polyshield.Signing

open SigningLayer

/-- The order a step hands to `trackOrder`. -/
def handed (s : SigningLayer) : Action → Option TrackedOrder
  | .responded (some resp) =>
    match s.listener with
    | .posting e t _ =>
      if t = .fak ∨ 0 < resp.filledShares then none
      else resp.orderID.map fun id => limitTracked e t id 0
    | _ => none
  | .crossed (some fee) =>
    match s.listener with
    | .crossing e t id => some (limitTracked e t id fee)
    | _ => none
  | .sellResponded i (some resp) _ _ =>
    match s.tasks[i]? with
    | some (.sellPosted req t c k _ _) =>
      if t = .fak ∨ 0 < resp.filledShares then none
      else resp.orderID.map fun id => sellTracked req t c k id 0
    | _ => none
  | .sellCrossed i (some fee) =>
    match s.tasks[i]? with
    | some (.sellFee req t c k id) => some (sellTracked req t c k id fee)
    | _ => none
  | _ => none

/-- The order a step calls `finalize` on, with the fill. -/
def finalizing (s : SigningLayer) : Action → Option (TrackedOrder × ℕ)
  | .message i withOrderID withAssetId withSize =>
    (s.posts[i]?).bind fun p =>
      (s.findTracked (p.message withOrderID withAssetId withSize)).map fun o =>
        (o, (extractFill (p.message withOrderID withAssetId withSize) o).1)
  | .cancelled i _ od trades _ =>
    match s.tasks[i]? with
    | some (.cancelling o) =>
      match od with
      | .terminal => (s.finalSize? o.orderID).map fun matched => (o, matched)
      | _ => trades.map fun filled => (o, filled)
    | _ => none
  | .reconciled i od trades _ =>
    match s.tasks[i]? with
    | some (.reconciling o) =>
      match od with
      | .terminal => (s.finalSize? o.orderID).map fun matched => (o, matched)
      | .live => none
      | _ => (trades.filter (0 < ·)).map fun filled => (o, filled)
    | _ => none
  | _ => none

/-- A cancellation calls `finalize` on its order or leaves it to `reconcileOne`. -/
theorem finalizing_cancelled {s s' : SigningLayer} {i : ℕ} {o : TrackedOrder} {od : OrderAnswer}
    {trades : Option ℕ} {spent : ℕ} (ht : s.tasks[i]? = some (.cancelling o))
    (h : (s.dropTask i).cancelled o od trades spent = some s') :
    (∃ m, (∀ canceled, finalizing s (.cancelled i canceled od trades spent) = some (o, m)) ∧
      s' = (s.dropTask i).finalize o m spent) ∨ s' = (s.dropTask i).reconcileOne o := by
  obtain ⟨rfl, m, hm, rfl⟩ | ⟨hod, m, rfl, rfl⟩ | ⟨-, rfl⟩ := cancelled_cases h
  · have hm' : s.finalSize? o.orderID = some m := hm
    exact .inl ⟨m, fun _ => by simp [finalizing, ht, hm'], rfl⟩
  · refine .inl ⟨m, fun _ => ?_, rfl⟩
    cases od with
    | terminal => exact absurd rfl hod
    | _ => simp [finalizing, ht]
  · exact .inr rfl

theorem finalizing_reconciled {s s' : SigningLayer} {i : ℕ} {o : TrackedOrder} {od : OrderAnswer}
    {trades : Option ℕ} {spent : ℕ} (ht : s.tasks[i]? = some (.reconciling o))
    (h : (s.dropTask i).reconciled o od trades spent = some s') :
    (∃ m, finalizing s (.reconciled i od trades spent) = some (o, m) ∧
      s' = (s.dropTask i).finalize o m spent) ∨ s' = s.dropTask i := by
  obtain ⟨rfl, m, hm, rfl⟩ | ⟨hod, hlive, m, rfl, hpos, rfl⟩ | ⟨-, rfl⟩ := reconciled_cases h
  · have hm' : s.finalSize? o.orderID = some m := hm
    exact .inl ⟨m, by simp [finalizing, ht, hm'], rfl⟩
  · refine .inl ⟨m, ?_, rfl⟩
    cases od with
    | terminal => exact absurd rfl hod
    | live => exact absurd rfl hlive
    | _ => simp [finalizing, ht, Option.filter, hpos]
  · exact .inr rfl

theorem rows_grow {s s' : SigningLayer} {a : Action} (hs : machine.step s a = some s') :
    ∃ more, s'.attestations = s.attestations ++ more := by
  cases recordStep hs with
  | same hrows => exact ⟨[], by rw [hrows, List.append_nil]⟩
  | @signed i input after signature _ _ hrows =>
    rw [hrows]
    unfold insertRow
    split
    · exact ⟨[], (List.append_nil _).symm⟩
    · exact ⟨_, rfl⟩
  | authorize _ hrows => exact ⟨[], by rw [hrows, List.append_nil]⟩
  | setStatus _ hrows => exact ⟨[], by rw [hrows, List.append_nil]⟩

def signTask (rows : List Attestation) (input : AttestationInput) (o : TrackedOrder) : Task :=
  if (existing rows input).isSome then .attested (.untrack o) else .signing input (.untrack o)

def finalTask (rows : List Attestation) (o : TrackedOrder) (filled spent : ℕ) : Task :=
  match o.side with
  | .sell =>
    if filled = 0 then .attested (.untrack o)
    else signTask rows ⟨o.nullifier, .sold, soldShares o.expectedShares filled, spent⟩ o
  | .buy =>
    signTask rows
      (outcomeInput ⟨o.nullifier, o.expectedShares, o.betAmount, o.side⟩ filled spent) o

theorem untracks?_signTask (rows : List Attestation) (input : AttestationInput)
    (o : TrackedOrder) : (signTask rows input o).untracks? = some o := by
  unfold signTask
  split <;> rfl

theorem untracks?_finalTask (rows : List Attestation) (o : TrackedOrder) (filled spent : ℕ) :
    (finalTask rows o filled spent).untracks? = some o := by
  unfold finalTask
  cases o.side with
  | sell =>
    by_cases h0 : filled = 0
    · simp only [if_pos h0]
      rfl
    · simp only [if_neg h0]
      exact untracks?_signTask _ _ _
  | buy => exact untracks?_signTask _ _ _

theorem untracks_known {s : SigningLayer} (hl : Linked s) {t : Task} (ht : t ∈ s.tasks)
    {o : TrackedOrder} (ho : t.untracks? = some o) : o.Known s.posts := by
  have hlinked := hl.tasks t ht
  cases t with
  | signing => exact hlinked o ho
  | attested => exact hlinked o ho
  | _ => cases ho

theorem finalize_spawn {s : SigningLayer} {o : TrackedOrder} (hn : o.nullifier ∉ s.finalized)
    (filled spent : ℕ) :
    s.finalize o filled spent = (s.addFinalized o.nullifier).spawn
      (finalTask s.attestations o filled (adjSpent o spent)) := by
  rw [finalize, if_neg hn, finalTask, attestTerminal]
  cases o.side with
  | sell =>
    simp only
    by_cases h0 : filled = 0
    · rw [if_pos h0, if_pos h0]
    · rw [if_neg h0, if_neg h0]
      exact signAndStoreAttestation_eq _ _ _
  | buy => exact signAndStoreAttestation_eq _ _ _

/-- The registries are as they were, and no suspended procedure is new that forgets an order. -/
structure TrackerQuiet (s s' : SigningLayer) : Prop where
  byOrderId : s'.byOrderId = s.byOrderId
  trackedOrders : s'.trackedOrders = s.trackedOrders
  finalized : s'.finalized = s.finalized
  rows : ∃ more, s'.attestations = s.attestations ++ more
  tasks : ∀ t ∈ s'.tasks, t ∈ s.tasks ∨ t.untracks? = none

namespace TrackerQuiet

variable {s s' s'' : SigningLayer}

theorem refl (s : SigningLayer) : TrackerQuiet s s :=
  ⟨rfl, rfl, rfl, ⟨[], (List.append_nil _).symm⟩, fun _ h => .inl h⟩

theorem trans (h : TrackerQuiet s s') (h' : TrackerQuiet s' s'') : TrackerQuiet s s'' where
  byOrderId := h'.byOrderId.trans h.byOrderId
  trackedOrders := h'.trackedOrders.trans h.trackedOrders
  finalized := h'.finalized.trans h.finalized
  rows := by
    obtain ⟨more, e⟩ := h.rows
    obtain ⟨more', e'⟩ := h'.rows
    exact ⟨more ++ more', by rw [e', e, List.append_assoc]⟩
  tasks := fun t ht => (h'.tasks t ht).elim (h.tasks t) .inr

theorem dropTask (s : SigningLayer) (i : ℕ) : TrackerQuiet s (s.dropTask i) :=
  ⟨rfl, rfl, rfl, ⟨[], (List.append_nil _).symm⟩, fun _ h => .inl (List.mem_of_mem_eraseIdx h)⟩

/-- Whatever else a step changes. -/
theorem of_eq (h1 : s'.byOrderId = s.byOrderId) (h2 : s'.trackedOrders = s.trackedOrders)
    (h3 : s'.finalized = s.finalized) (h4 : s'.attestations = s.attestations)
    (h5 : s'.tasks = s.tasks) : TrackerQuiet s s' :=
  ⟨h1, h2, h3, ⟨[], by rw [h4, List.append_nil]⟩, fun _ h => .inl (h5 ▸ h)⟩

theorem spawn (s : SigningLayer) {t : Task} (ht : t.untracks? = none) :
    TrackerQuiet s (s.spawn t) := by
  refine ⟨rfl, rfl, rfl, ⟨[], (List.append_nil _).symm⟩, fun u hu => ?_⟩
  rcases List.mem_append.mp hu with hu | hu
  · exact .inl hu
  · exact .inr (List.mem_singleton.mp hu ▸ ht)

theorem setListener (s : SigningLayer) (l : Listener) : TrackerQuiet s (s.setListener l) :=
  of_eq rfl rfl rfl rfl rfl

theorem post (s : SigningLayer) (p : Post) : TrackerQuiet s (s.post p) :=
  of_eq rfl rfl rfl rfl rfl

theorem signAndStoreAttestation (s : SigningLayer) (input : AttestationInput) {after : AfterAttest}
    (ha : ∀ o, after ≠ .untrack o) : TrackerQuiet s (s.signAndStoreAttestation input after) := by
  rw [signAndStoreAttestation_eq]
  refine spawn s ?_
  cases after with
  | untrack o => exact absurd rfl (ha o)
  | done => split <;> rfl
  | listener => split <;> rfl

theorem attestTerminal (s : SigningLayer) (bet : TerminalBet) (filled spent : ℕ)
    {after : AfterAttest} (ha : ∀ o, after ≠ .untrack o) :
    TrackerQuiet s (s.attestTerminal bet filled spent after) := by
  unfold SigningLayer.attestTerminal
  split
  · split
    · refine spawn s ?_
      cases after with
      | untrack o => exact absurd rfl (ha o)
      | done => rfl
      | listener => rfl
    · exact signAndStoreAttestation s _ ha
  · exact signAndStoreAttestation s _ ha

theorem reconcileOne (s : SigningLayer) (o : TrackedOrder) :
    TrackerQuiet s (s.reconcileOne o) := by
  unfold SigningLayer.reconcileOne
  split
  · exact refl s
  · exact spawn s rfl

theorem markMarketSubmitting (s : SigningLayer) (n : Hex32) (c : ℕ) :
    TrackerQuiet s (s.markMarketSubmitting n c) := by
  unfold SigningLayer.markMarketSubmitting
  split <;> exact of_eq rfl rfl rfl rfl rfl

theorem insertAttestation (s : SigningLayer) (input : AttestationInput) (signature : String) :
    TrackerQuiet s (s.insertAttestation input signature) := by
  refine ⟨rfl, rfl, rfl, ?_, fun _ h => .inl h⟩
  unfold SigningLayer.insertAttestation insertRow
  split
  · exact ⟨[], (List.append_nil _).symm⟩
  · exact ⟨_, rfl⟩

end TrackerQuiet

/-- A step hands an order to `trackOrder`, which drops or registers it. -/
inductive Tracks (s s' : SigningLayer) (o : TrackedOrder) : Prop
  | dropped (hdrop : o.nullifier ∈ s.finalized ∨ s.alreadyAttested o.side o.nullifier = true)
      (hq : TrackerQuiet s s')
  | registered (hopen : o.nullifier ∉ s.finalized)
      (hunattested : s.alreadyAttested o.side o.nullifier = false)
      (hmap : s'.byOrderId = (s.byOrderId.filter fun t => t.orderID ≠ o.orderID) ++ [o])
      (htable : s'.trackedOrders
        = (s.trackedOrders.filter fun t => t.nullifier ≠ o.nullifier) ++ [o])
      (hfinalized : s'.finalized = s.finalized) (hrows : s'.attestations = s.attestations)
      (htasks : ∀ t ∈ s'.tasks, t ∈ s.tasks ∨ t.untracks? = none)

theorem tracks_trackOrder {s u : SigningLayer} (hu : u.byOrderId = s.byOrderId)
    (ht : u.trackedOrders = s.trackedOrders) (hf : u.finalized = s.finalized)
    (hr : u.attestations = s.attestations) (hk : u.tasks ⊆ s.tasks) (o : TrackedOrder)
    {s' : SigningLayer} (hq : TrackerQuiet (u.trackOrder o) s')
    (hrows : s'.attestations = (u.trackOrder o).attestations) : Tracks s s' o := by
  have hq0 : TrackerQuiet s u :=
    ⟨hu, ht, hf, ⟨[], by rw [hr, List.append_nil]⟩, fun t h => .inl (hk h)⟩
  unfold trackOrder at hq hrows
  split at hq
  case isTrue hdrop =>
    refine .dropped ?_ (hq0.trans hq)
    simpa only [alreadyAttested, hr, hf] using hdrop
  case isFalse hdrop =>
    rw [if_neg hdrop] at hrows
    have hrec := TrackerQuiet.reconcileOne ((u.persist o).setByOrderId o) o
    obtain ⟨hopen, hunattested⟩ := not_or.mp hdrop
    refine .registered (hf ▸ hopen) ?_ (hq.byOrderId.trans (hrec.byOrderId.trans ?_))
      (hq.trackedOrders.trans (hrec.trackedOrders.trans ?_))
      (hq.finalized.trans (hrec.finalized.trans hf)) ?_ fun t h => ?_
    · simpa only [alreadyAttested, hr] using Bool.eq_false_of_not_eq_true hunattested
    · rw [← hu]
      rfl
    · rw [← ht]
      rfl
    · refine hrows.trans (Eq.trans ?_ hr)
      exact (Quiet.reconcileOne ((u.persist o).setByOrderId o) o).attestations
    · exact (hq.tasks t h).elim
        (fun h => (hrec.tasks t h).elim (fun h => .inl (hk h)) .inr) .inr

theorem tracks_of_handed {s s' : SigningLayer} {a : Action} (hs : machine.step s a = some s')
    {o : TrackedOrder} (ho : handed s a = some o) : Tracks s s' o := by
  have herase (i : ℕ) : (s.dropTask i).tasks ⊆ s.tasks := List.eraseIdx_subset
  unfold handed at ho
  split at ho
  case h_1 resp =>
    split at ho
    · rename_i e t i hl
      split_ifs at ho with hrests
      obtain ⟨hfak, hfilled⟩ := not_or.mp hrests
      obtain ⟨id, hid, rfl⟩ := Option.map_eq_some_iff.mp ho
      simp only [machine, step, hl] at hs
      split at hs
      · split_ifs at hs
        have hs' : s.limitResponded e t (some resp) = s' := by
          cases t with
          | fak => exact absurd rfl hfak
          | gtc => exact Option.some.inj hs
          | gtd => exact Option.some.inj hs
        simp only [limitResponded, hid, if_neg hfilled] at hs'
        subst hs'
        exact tracks_trackOrder rfl rfl rfl rfl (List.Subset.refl _) _ (.setListener _ _) rfl
      · cases hs
    · cases ho
  case h_2 fee =>
    split at ho
    · rename_i e t id hl
      obtain rfl := Option.some.inj ho
      simp only [machine, step, hl, Option.some.injEq] at hs
      subst hs
      exact tracks_trackOrder rfl rfl rfl rfl (List.Subset.refl _) _ (.setListener _ _) rfl
    · cases ho
  case h_3 i resp confirmed fee =>
    split at ho
    · rename_i req t c k price j ht
      split_ifs at ho with hrests
      obtain ⟨hfak, hfilled⟩ := not_or.mp hrests
      obtain ⟨id, hid, rfl⟩ := Option.map_eq_some_iff.mp ho
      simp only [machine, step, ht] at hs
      split at hs
      · rename_i hr
        cases hr
      · rename_i p r _ hr
        obtain rfl := Option.some.inj hr
        split_ifs at hs
        have hs' : (s.dropTask i).limitSellResponded req t c k resp = s' := by
          cases t with
          | fak => exact absurd rfl hfak
          | gtc => exact Option.some.inj hs
          | gtd => exact Option.some.inj hs
        simp only [limitSellResponded, hid, if_neg hfilled] at hs'
        subst hs'
        exact tracks_trackOrder (s := s) (u := s.dropTask i) rfl rfl rfl rfl (herase i) _ (.refl _)
          rfl
      · cases hs
    · cases ho
  case h_4 i fee =>
    split at ho
    · rename_i req t c k id ht
      obtain rfl := Option.some.inj ho
      simp only [machine, step, ht, Option.some.injEq] at hs
      subst hs
      exact tracks_trackOrder (s := s) (u := s.dropTask i) rfl rfl rfl rfl (herase i) _ (.refl _)
        rfl
    · cases ho
  case h_5 => cases ho

/-- `finalize` was called for some of these orders and fills. -/
structure Finalizes (s s' : SigningLayer) (P : TrackedOrder → ℕ → Prop) : Prop where
  byOrderId : s'.byOrderId = s.byOrderId
  trackedOrders : s'.trackedOrders = s.trackedOrders
  finalized : s.finalized ⊆ s'.finalized
  rows : s'.attestations = s.attestations
  tasks : ∀ t ∈ s'.tasks, t ∈ s.tasks ∨ ∃ (o : TrackedOrder) (filled spent : ℕ),
    P o filled ∧ o.nullifier ∉ s.finalized ∧ t = finalTask s.attestations o filled spent
  added : ∀ n ∈ s'.finalized, n ∈ s.finalized ∨ ∃ (o : TrackedOrder) (filled spent : ℕ),
    P o filled ∧ o.nullifier = n ∧ finalTask s.attestations o filled spent ∈ s'.tasks

theorem Finalizes.finalize {s u : SigningLayer} {P : TrackedOrder → ℕ → Prop}
    (h : Finalizes s u P) {o : TrackedOrder} {filled : ℕ} (ho : P o filled) (spent : ℕ) :
    Finalizes s (u.finalize o filled spent) P := by
  by_cases hn : o.nullifier ∈ u.finalized
  · rw [SigningLayer.finalize, if_pos hn]
    exact h
  · rw [finalize_spawn hn]
    refine ⟨h.byOrderId, h.trackedOrders, fun n hmem => ?_, h.rows, fun t ht => ?_,
      fun n hmem => ?_⟩
    · exact List.mem_append_left _ (h.finalized hmem)
    · rcases List.mem_append.mp ht with ht | ht
      · exact h.tasks t ht
      · refine .inr ⟨o, filled, adjSpent o spent, ho, fun hmem => hn (h.finalized hmem), ?_⟩
        rw [List.mem_singleton.mp ht, h.rows]
    · rcases List.mem_append.mp hmem with hmem | hmem
      · refine (h.added n hmem).imp_right ?_
        rintro ⟨o', filled', spent', hP, hn', ht⟩
        exact ⟨o', filled', spent', hP, hn', List.mem_append_left _ ht⟩
      · refine .inr ⟨o, filled, adjSpent o spent, ho, (List.mem_singleton.mp hmem).symm, ?_⟩
        rw [← h.rows]
        exact List.mem_append_right _ (List.mem_singleton_self _)

/-- The resolution of a market finalizes orders of that market, without a fill. -/
theorem finalizes_market (s : SigningLayer) (c : ℕ) :
    Finalizes s (s.cancelOrdersForMarket c)
      fun o filled => o ∈ s.byOrderId ∧ sameMarket o.conditionId c ∧ filled = 0 := by
  have hrefl : Finalizes s s
      fun o filled => o ∈ s.byOrderId ∧ sameMarket o.conditionId c ∧ filled = 0 :=
    ⟨rfl, rfl, List.Subset.refl _, rfl, fun _ ht => .inl ht, fun _ hn => .inl hn⟩
  have key : ∀ (os : List TrackedOrder) (u : SigningLayer), os ⊆ s.byOrderId →
      Finalizes s u (fun o filled => o ∈ s.byOrderId ∧ sameMarket o.conditionId c ∧ filled = 0) →
      Finalizes s (os.foldl (cancelForMarket c) u)
        fun o filled => o ∈ s.byOrderId ∧ sameMarket o.conditionId c ∧ filled = 0 := by
    intro os
    induction os with
    | nil => exact fun _ _ hu => hu
    | cons o os ih =>
      intro u hos hu
      refine ih _ (fun o' ho' => hos (List.mem_cons_of_mem _ ho')) ?_
      unfold cancelForMarket
      split
      · exact hu
      · rename_i hcond
        exact hu.finalize ⟨hos List.mem_cons_self, not_not.mp (not_or.mp hcond).2, rfl⟩ 0
  exact key _ _ (List.Subset.refl _) hrefl

inductive TrackerStep (s : SigningLayer) (a : Action) (s' : SigningLayer) : Prop
  | quiet (hq : TrackerQuiet s s')
  | track {o : TrackedOrder} (ho : handed s a = some o) (ht : Tracks s s' o)
  | finalize {o : TrackedOrder} {filled : ℕ} (ho : finalizing s a = some (o, filled))
      (hf : Finalizes s s' fun o' filled' => o' = o ∧ filled' = filled)
  | market {c : ℕ} (ha : a = .marketResolved c) (hs' : s' = s.cancelOrdersForMarket c)
  | returned {i : ℕ} {t : Task} {o : TrackedOrder} (ht : s.tasks[i]? = some t)
      (ho : t.untracks? = some o)
      (hmap : s'.byOrderId = s.byOrderId.filter fun t => t.orderID ≠ o.orderID)
      (htable : s'.trackedOrders = s.trackedOrders.filter fun t => t.nullifier ≠ o.nullifier)
      (hfinalized : s'.finalized = s.finalized) (htasks : s'.tasks = s.tasks.eraseIdx i)
      (hrows : (∃ input signature,
          a = .signed i (some signature) ∧ t = .signing input (.untrack o) ∧
          s'.attestations = insertRow s.attestations input signature) ∨
        ((a = .signed i none ∨ a = .attested i ∧ t = .attested (.untrack o)) ∧
          s'.attestations = s.attestations))
  | restart (ha : a = .restart) (hs' : s' = s.restart)

theorem trackerStep_finalize {s u : SigningLayer} {a : Action} {o : TrackedOrder} {filled spent : ℕ}
    (ho : finalizing s a = some (o, filled)) (hu : u.byOrderId = s.byOrderId)
    (ht : u.trackedOrders = s.trackedOrders) (hf : u.finalized = s.finalized)
    (hr : u.attestations = s.attestations) (hk : u.tasks ⊆ s.tasks) :
    TrackerStep s a (u.finalize o filled spent) := by
  have hq : Finalizes s u fun o' filled' => o' = o ∧ filled' = filled :=
    ⟨hu, ht, hf ▸ List.Subset.refl _, hr, fun t h => .inl (hk h), fun n hn => .inl (hf ▸ hn)⟩
  exact .finalize ho (hq.finalize ⟨rfl, rfl⟩ spent)

/-! ### The handlers that leave the tracker alone -/

namespace TrackerQuiet

section Handlers

variable (s : SigningLayer)

theorem withListener {s u : SigningLayer} (h : TrackerQuiet s u) (l : Listener) :
    TrackerQuiet s (u.setListener l) := h.trans (.setListener u l)

theorem handleBetRecord (r : BetAuthorizedRecord) : TrackerQuiet s (s.handleBetRecord r) := by
  rw [handleBetRecord_eq]
  split_ifs
  · exact (TrackerQuiet.refl s).withListener _
  · exact .refl s

theorem confirmed (r : BetAuthorizedRecord) (resolved : Option RegistryHit) :
    TrackerQuiet s (s.confirmed r resolved) := by
  unfold SigningLayer.confirmed
  split
  · exact (TrackerQuiet.refl s).withListener _
  · have hflight : TrackerQuiet s (s.setInFlight r.nullifier) := .of_eq rfl rfl rfl rfl rfl
    unfold processBetEvent
    split
    · exact (hflight.trans (.signAndStoreAttestation _ _ (by simp))).withListener _
    · exact hflight.withListener _

theorem funded (e : BetAuthorizedEvent) (t : OrderType) (ok : Bool) :
    TrackerQuiet s (s.funded e t ok) := by
  unfold SigningLayer.funded
  split
  · split
    · exact (TrackerQuiet.markMarketSubmitting s _ _).withListener _
    · exact (TrackerQuiet.refl s).withListener _
  · exact (TrackerQuiet.signAndStoreAttestation s _ (by simp)).withListener _

theorem prepared (e : BetAuthorizedEvent) (t : OrderType) (size : Option ℕ) :
    TrackerQuiet s (s.prepared e t size) := by
  unfold SigningLayer.prepared
  split
  · exact (TrackerQuiet.refl s).withListener _
  · exact (TrackerQuiet.post s _).withListener _

theorem fakResponded (e : BetAuthorizedEvent) (size : ℕ) (resp : Option ClobResponse) :
    TrackerQuiet s (s.fakResponded e size resp) := by
  cases resp with
  | none => exact (TrackerQuiet.refl s).withListener _
  | some resp =>
    have hrec : TrackerQuiet s (s.recordOrderId e.nullifier resp.orderID) := by
      cases resp.orderID <;> exact .of_eq rfl rfl rfl rfl rfl
    simp only [SigningLayer.fakResponded]
    split
    · exact hrec.withListener _
    · exact (hrec.trans (.attestTerminal _ _ _ _ (by simp))).withListener _

theorem cancelBet (n : Hex32) : TrackerQuiet s (s.cancelBet n) := by
  unfold SigningLayer.cancelBet
  split_ifs
  · exact .refl s
  · exact .spawn s rfl
  · exact .refl s
  · split
    · exact .spawn s rfl
    · exact .signAndStoreAttestation s _ (by simp)

theorem closeRequest (req : CloseRequest) (t : OrderType) :
    TrackerQuiet s (s.closeRequest req t) := by
  unfold SigningLayer.closeRequest
  split_ifs
  · exact .refl s
  · exact .refl s
  · exact .refl s
  · exact .spawn s rfl

theorem cancelTrackedOrder (n : Hex32) (client : Bool) :
    TrackerQuiet s (s.cancelTrackedOrder n client) := by
  unfold SigningLayer.cancelTrackedOrder
  split
  · exact .refl _
  · split_ifs
    · exact .refl _
    · exact .spawn _ rfl
    · exact .reconcileOne _ _

theorem reconcileMarketSubmission (n : Hex32) (sub : MarketSubmission) (client : Bool) :
    TrackerQuiet s (s.reconcileMarketSubmission n sub client) := by
  unfold SigningLayer.reconcileMarketSubmission
  split
  · exact .refl _
  · split
    · split
      · exact .signAndStoreAttestation _ _ (by simp)
      · exact .refl _
    · split
      · exact .spawn _ rfl
      · exact .refl _

theorem marketQueried {s s' : SigningLayer} {n : Hex32} {id : OrderId} {od : OrderAnswer}
    {spent : ℕ} (h : s.marketQueried n id od spent = some s') : TrackerQuiet s s' := by
  unfold SigningLayer.marketQueried at h
  split at h
  · obtain ⟨m, -, rfl⟩ := Option.map_eq_some_iff.mp h
    exact .attestTerminal _ _ _ _ (by simp)
  · cases h
    exact .refl _

theorem sell (req : CloseRequest) (t : OrderType) (client : Bool) (resolved : Option RegistryHit)
    (bestBid : ℕ) : TrackerQuiet s (s.sell req t client resolved bestBid) := by
  unfold SigningLayer.sell
  split
  · exact (TrackerQuiet.post _ _).trans (.spawn _ rfl)
  · exact .refl _

theorem marketSold (req : CloseRequest) (price : ℕ) (r : ClobResponse) (confirmed : Bool)
    (fee : ℕ) : TrackerQuiet s (s.marketSold req price r confirmed fee) := by
  unfold SigningLayer.marketSold
  exact .attestTerminal _ _ _ _ (by simp)

end Handlers

end TrackerQuiet

theorem trackerStep {s s' : SigningLayer} {a : Action} (hs : machine.step s a = some s') :
    TrackerStep s a s' := by
  have hdrop (i : ℕ) {u : SigningLayer} (hq : TrackerQuiet (s.dropTask i) u) : TrackerStep s a u :=
    .quiet ((TrackerQuiet.dropTask s i).trans hq)
  have hlistener (l : Listener) : TrackerStep s a (s.setListener l) :=
    .quiet ((TrackerQuiet.refl s).withListener l)
  have herase (i : ℕ) : (s.dropTask i).tasks ⊆ s.tasks := List.eraseIdx_subset
  obtain ⟨o, ho⟩ | hhanded := (Option.eq_none_or_eq_some (handed s a)).symm
  · exact .track ho (tracks_of_handed hs ho)
  cases steps_of_step hs with
  | handleBetRecord => exact .quiet (.handleBetRecord s _)
  | confirmed => exact .quiet (.confirmed s _ _)
  | confirmThrew => exact hlistener _
  | funded => exact .quiet (.funded s _ _ _)
  | prepared => exact .quiet (.prepared s _ _ _)
  | fakResponded => exact .quiet (.fakResponded s _ _ _)
  | @limitResponded e t i p resp ht hl =>
    -- Without an order to track, the bet is FAILED or the listener stops.
    unfold SigningLayer.limitResponded
    split
    · exact hlistener _
    · rename_i resp
      split
      · split
        · exact hlistener _
        · exact .quiet ((TrackerQuiet.signAndStoreAttestation s _ (by simp)).withListener _)
      · rename_i id hid
        split
        · exact hlistener _
        · rename_i hfilled
          simp [handed, hl, ht, hfilled, hid] at hhanded
  | @crossed e t id fee hl =>
    unfold SigningLayer.crossed
    split
    · exact hlistener _
    · rename_i fee
      simp [handed, hl] at hhanded
  | limitOrder => exact .quiet (.of_eq rfl rfl rfl rfl rfl)
  | cancelBet => exact .quiet (.cancelBet s _)
  | closeRequest => exact .quiet (.closeRequest s _ _)
  | @signed i input after signature ht =>
    have hins := TrackerQuiet.insertAttestation (s.dropTask i) input signature
    cases after with
    | done => exact hdrop i hins
    | listener => exact hdrop i (hins.trans (.setListener _ _))
    | untrack o =>
      exact .returned ht rfl rfl rfl rfl rfl (.inl ⟨input, signature, rfl, rfl, rfl⟩)
  | @signThrew i input after ht =>
    cases after with
    | done => exact hdrop i (.refl _)
    | listener => exact hdrop i (.setListener _ _)
    | untrack o => exact .returned ht rfl rfl rfl rfl rfl (.inr ⟨.inl rfl, rfl⟩)
  | @attested i after ht =>
    cases after with
    | done => exact hdrop i (.refl _)
    | listener => exact hdrop i (.setListener _ _)
    | untrack o => exact .returned ht rfl rfl rfl rfl rfl (.inr ⟨.inr ⟨rfl, rfl⟩, rfl⟩)
  | @cancelClient i => exact hdrop i (.cancelTrackedOrder _ _ _)
  | @cancelled i o canceled od trades spent _ ht _ hc =>
    rcases finalizing_cancelled ht hc with ⟨m, hfin, rfl⟩ | rfl
    · exact trackerStep_finalize (hfin canceled) rfl rfl rfl rfl (herase i)
    · exact hdrop i (.reconcileOne _ _)
  | @reconciled i o od trades spent _ ht _ hc =>
    rcases finalizing_reconciled ht hc with ⟨m, hfin, rfl⟩ | rfl
    · exact trackerStep_finalize hfin rfl rfl rfl rfl (herase i)
    · exact hdrop i (.refl _)
  | @marketClient i => exact hdrop i (.reconcileMarketSubmission _ _ _ _)
  | @marketQueried i _ _ _ _ _ ht hc => exact hdrop i (.marketQueried hc)
  | @sell i => exact hdrop i (.sell _ _ _ _ _ _)
  | @sellThrew i => exact hdrop i (.refl _)
  | @marketSold i => exact hdrop i (.marketSold _ _ _ _ _ _)
  | @limitSellResponded i req t c k price j p r _ _ hfak ht hp htrue =>
    unfold SigningLayer.limitSellResponded
    split
    · exact hdrop i (.refl _)
    · rename_i id hid
      split
      · exact hdrop i (.spawn _ rfl)
      · rename_i hfilled
        simp [handed, ht, hfak, hfilled, hid] at hhanded
  | @sellCrossed i req t c k id fee ht =>
    simp [handed, ht] at hhanded
  | @sellCrossThrew i => exact hdrop i (.refl _)
  | @message i p id taken made w1 w2 w3 hp hstate =>
    unfold SigningLayer.handleOne
    split
    · rename_i o ho
      refine trackerStep_finalize ?_ rfl rfl rfl rfl (List.Subset.refl _)
      simp [finalizing, hp, ho]
    · exact .quiet (.refl s)
  | reconcile => exact .quiet (.reconcileOne s _)
  | marketResolved => exact .market rfl rfl
  | restart => exact .restart rfl rfl
  | clob => exact .quiet (.of_eq rfl rfl rfl rfl rfl)
  | authorizeBet => exact .quiet (.of_eq rfl rfl rfl rfl rfl)
  | setBetStatus => exact .quiet (.of_eq rfl rfl rfl rfl rfl)
  | tick => exact .quiet (.of_eq rfl rfl rfl rfl rfl)

end Polyshield.Signing

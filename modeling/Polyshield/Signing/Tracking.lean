import Polyshield.Signing.FailedBets
import Polyshield.Signing.SingleOrder
import Polyshield.Signing.Registry

/-!
# No tracked order is lost

The runs of the signing layer with, as a ghost, the orders they have handed to
`trackOrder`. Such an order is done once its attestation is stored, or when it
is a SELL that has left the book without a fill. Until then the tracker keeps
it, unless a step meets the registry keyed by the bet where it takes one keyed
by the order (`TracksSafely`).
-/

namespace Polyshield.Signing

open SigningLayer

/-- The order is off the book without a fill. -/
def LeftUnfilled (s : SigningLayer) (o : TrackedOrder) : Prop :=
  ∃ p ∈ s.posts, p.orderID? = some o.orderID ∧ p.unfilled = true

/-- The order's own attestation is stored, or it is a SELL without a fill. -/
def Done (s : SigningLayer) (o : TrackedOrder) : Prop :=
  s.alreadyAttested o.side o.nullifier = true ∨ o.side = .sell ∧ LeftUnfilled s o

def Kept (s : SigningLayer) (o : TrackedOrder) : Prop :=
  Done s o ∨ o ∈ s.byOrderId ∧ o ∈ s.trackedOrders

/-- The signing layer, with every order handed to `trackOrder` so far. -/
def tracking : Machine (SigningLayer × List TrackedOrder) Action where
  step s a := (step s.1 a).map fun s' => (s', s.2 ++ (handed s.1 a).toList)

/-- No other order of the bet still waits for its attestation. -/
def Alone (s : SigningLayer) (o : TrackedOrder) : Prop :=
  ∀ t ∈ s.byOrderId, t.nullifier = o.nullifier → t ≠ o → Done s t

/-- An order is finalized while it is alone, and a SELL without a fill when it has none. -/
def FinalizesTruly (s : SigningLayer) (o : TrackedOrder) (filled : ℕ) : Prop :=
  o.nullifier ∉ s.finalized →
    Alone s o ∧ (o.side = .sell → filled = 0 → LeftUnfilled s o)

/-- The step does not meet an entry of another order of the bet, finalize a SELL as unfilled that is
not, or lose a signature. -/
def TracksSafely (s : SigningLayer) (a : Action) : Prop :=
  (∀ o ∈ handed s a, (o.nullifier ∈ s.finalized → Done s o) ∧
      (o.nullifier ∉ s.finalized → s.alreadyAttested o.side o.nullifier = false → Alone s o)) ∧
    (∀ f ∈ finalizing s a, FinalizesTruly s f.1 f.2) ∧
    match a with
    | .marketResolved c =>
      ∀ o ∈ s.byOrderId, sameMarket o.conditionId c → FinalizesTruly s o 0
    | .signed i none => ∀ t ∈ s.tasks[i]?, ∀ o ∈ t.untracks?, Done s o
    | _ => True

/-! ## Done orders stay done -/

variable {s s' : SigningLayer} {a : Action} {o : TrackedOrder}

theorem LeftUnfilled.step (h : LeftUnfilled s o) (hs : machine.step s a = some s') :
    LeftUnfilled s' o := by
  obtain ⟨p, hp, hid, hun⟩ := h
  cases bookStep hs with
  | same hposts => exact ⟨p, hposts ▸ hp, hid, hun⟩
  | buy _ _ hposts => exact ⟨p, hposts ▸ List.mem_append_left _ hp, hid, hun⟩
  | sell _ _ _ hposts => exact ⟨p, hposts ▸ List.mem_append_left _ hp, hid, hun⟩
  | @move i q state hq hm _ hposts =>
    obtain ⟨j, hj⟩ := List.mem_iff_getElem?.mp hp
    have hne : i ≠ j := fun e => by
      subst e
      obtain rfl : p = q := Option.some.inj (hj.symm.trans hq)
      rw [hm.not_unfilled] at hun
      cases hun
    refine ⟨p, List.mem_iff_getElem?.mpr ⟨j, ?_⟩, hid, hun⟩
    rw [hposts, List.getElem?_set_ne hne]
    exact hj

theorem Done.of_rows (h : Done s o) (hrows : ∃ more, s'.attestations = s.attestations ++ more)
    (hleft : LeftUnfilled s o → LeftUnfilled s' o) : Done s' o := by
  obtain ⟨more, hrows⟩ := hrows
  refine h.imp (fun hatt => ?_) fun h => ⟨h.1, hleft h.2⟩
  unfold alreadyAttested at hatt ⊢
  rw [hrows]
  cases hside : o.side <;> rw [hside] at hatt <;> exact getAttestation_append hatt

theorem Done.step (h : Done s o) (hs : machine.step s a = some s') : Done s' o :=
  h.of_rows (rows_grow hs) fun h => h.step hs

/-! ## The invariant -/

/-- What makes the order done when the attestation that a task awaits is stored. -/
def Task.Settles (s : SigningLayer) (o : TrackedOrder) : Task → Prop
  | .signing input _ =>
    input.nullifierOfBet = o.nullifier ∧
      match o.side with
      | .buy => input.reportType.isBetOutcome = true
      | .sell => input.reportType = .sold
  | _ => Done s o

structure NoneLost (s : SigningLayer) (orders : List TrackedOrder) : Prop where
  linked : Linked s
  kept : ∀ o ∈ orders, Kept s o
  returns : ∀ t ∈ s.tasks, ∀ o, t.untracks? = some o →
    t.Settles s o ∧ ∀ o' ∈ orders, o'.nullifier = o.nullifier → o' ≠ o → Done s o'

theorem settles_signTask {input : AttestationInput} (hn : input.nullifierOfBet = o.nullifier)
    (htype : match o.side with
      | .buy => input.reportType.isBetOutcome = true
      | .sell => input.reportType = .sold) :
    (signTask s.attestations input o).Settles s o := by
  unfold signTask
  split
  case isFalse => exact ⟨hn, htype⟩
  case isTrue hexists =>
    refine .inl ?_
    unfold existing at hexists
    unfold alreadyAttested
    cases hside : o.side with
    | buy =>
      rw [hside] at htype
      rw [if_pos htype] at hexists
      exact hn ▸ hexists
    | sell =>
      rw [hside] at htype
      simp only [htype, ReportType.isBetOutcome, Bool.false_eq_true, if_false] at hexists
      exact hn ▸ hexists

theorem settles_finalTask {filled : ℕ} (spent : ℕ)
    (hsell : o.side = .sell → filled = 0 → LeftUnfilled s o) :
    (finalTask s.attestations o filled spent).Settles s o := by
  unfold finalTask
  cases hside : o.side with
  | sell =>
    by_cases h0 : filled = 0
    · simp only [if_pos h0]
      exact .inr ⟨hside, hsell hside h0⟩
    · simp only [if_neg h0]
      exact settles_signTask rfl (by rw [hside])
  | buy =>
    refine settles_signTask ?_ ?_
    · exact (outcomeInput_spec _ filled spent).2
    · rw [hside]
      exact (outcomeInput_spec _ filled spent).1

theorem Task.Settles.step {t : Task} (h : t.Settles s o) (hs : machine.step s a = some s') :
    t.Settles s' o := by
  cases t with
  | signing input after => exact h
  | _ => exact Done.step h hs

namespace NoneLost

variable {orders : List TrackedOrder}

theorem initial : NoneLost .initial [] where
  linked := .initial
  kept := fun _ ho => absurd ho List.not_mem_nil
  returns := fun _ ht => absurd ht List.not_mem_nil

theorem quiet (h : NoneLost s orders) (hs : machine.step s a = some s')
    (hq : TrackerQuiet s s') : NoneLost s' orders where
  linked := h.linked.step hs
  kept := fun o ho => (h.kept o ho).imp (fun hd => hd.step hs) fun hin =>
    ⟨hq.byOrderId ▸ hin.1, hq.trackedOrders ▸ hin.2⟩
  returns := fun t ht o ho => by
    rcases hq.tasks t ht with ht | hno
    · obtain ⟨hsettles, hothers⟩ := h.returns t ht o ho
      exact ⟨hsettles.step hs, fun o' ho' hn hne => (hothers o' ho' hn hne).step hs⟩
    · rw [hno] at ho
      cases ho

theorem track (h : NoneLost s orders) (hs : machine.step s a = some s')
    (hclosed : o.nullifier ∈ s.finalized → Done s o)
    (halone : o.nullifier ∉ s.finalized → s.alreadyAttested o.side o.nullifier = false →
      Alone s o)
    (ht : Tracks s s' o) : NoneLost s' (orders ++ [o]) := by
  cases ht with
  | dropped hdrop hq =>
    have hdone : Done s o := hdrop.elim hclosed .inl
    have hquiet := h.quiet hs hq
    refine ⟨hquiet.linked, fun o' ho' => ?_, fun t ht o' ho' => ?_⟩
    · rcases List.mem_append.mp ho' with ho' | ho'
      · exact hquiet.kept o' ho'
      · exact List.mem_singleton.mp ho' ▸ .inl (hdone.step hs)
    · obtain ⟨hsettles, hothers⟩ := hquiet.returns t ht o' ho'
      refine ⟨hsettles, fun o'' ho'' hn hne => ?_⟩
      rcases List.mem_append.mp ho'' with ho'' | ho''
      · exact hothers o'' ho'' hn hne
      · exact List.mem_singleton.mp ho'' ▸ hdone.step hs
  | registered hopen hunattested hmap htable hfinalized hrows htasks =>
    have hl := h.linked.step hs
    have ho : o ∈ s'.byOrderId := hmap ▸ List.mem_append_right _ (List.mem_singleton_self o)
    refine ⟨hl, fun o' ho' => ?_, fun t ht o₁ ho₁ => ?_⟩
    · rcases List.mem_append.mp ho' with ho' | ho'
      · refine (h.kept o' ho').elim (fun hd => .inl (hd.step hs)) fun ⟨hin, hrow⟩ => ?_
        by_cases hn : o'.nullifier = o.nullifier
        · by_cases heq : o' = o
          · subst heq
            exact .inr ⟨ho, htable ▸ List.mem_append_right _ (List.mem_singleton_self _)⟩
          · exact .inl ((halone hopen hunattested o' hin hn heq).step hs)
        · -- An order of another bet has another id.
          have hrow' : o' ∈ s'.trackedOrders := by
            rw [htable]
            exact List.mem_append_left _ (List.mem_filter.mpr ⟨hrow, by simpa using hn⟩)
          have hid : o'.orderID ≠ o.orderID := fun hid =>
            hn (known_eq hl (hl.trackedOrders o' hrow') (hl.byOrderId o ho) hid).1
          refine .inr ⟨?_, hrow'⟩
          rw [hmap]
          exact List.mem_append_left _ (List.mem_filter.mpr ⟨hin, by simpa using hid⟩)
      · rw [List.mem_singleton.mp ho']
        exact .inr ⟨ho, htable ▸ List.mem_append_right _ (List.mem_singleton_self o)⟩
    · rcases htasks t ht with ht | hno
      · obtain ⟨hsettles, hothers⟩ := h.returns t ht o₁ ho₁
        refine ⟨hsettles.step hs, fun o' ho' hn hne => ?_⟩
        rcases List.mem_append.mp ho' with ho' | ho'
        · exact (hothers o' ho' hn hne).step hs
        · rw [List.mem_singleton.mp ho'] at hn
          exact absurd (hn ▸ h.linked.untracking t ht o₁ ho₁) hopen
      · rw [hno] at ho₁
        cases ho₁

/-- A step that calls `finalize`, once or for each order of a market. -/
theorem finalizes {P : TrackedOrder → ℕ → Prop} (h : NoneLost s orders)
    (hs : machine.step s a = some s') (hf : Finalizes s s' P)
    (hsafe : ∀ o filled, P o filled → FinalizesTruly s o filled) : NoneLost s' orders where
  linked := h.linked.step hs
  kept := fun o ho => (h.kept o ho).imp (fun hd => hd.step hs) fun hin =>
    ⟨hf.byOrderId ▸ hin.1, hf.trackedOrders ▸ hin.2⟩
  returns := fun t ht o ho => by
    rcases hf.tasks t ht with ht | ⟨o₁, filled, spent, hP, hopen, rfl⟩
    · obtain ⟨hsettles, hothers⟩ := h.returns t ht o ho
      exact ⟨hsettles.step hs, fun o' ho' hn hne => (hothers o' ho' hn hne).step hs⟩
    · obtain rfl : o₁ = o := Option.some.inj ((untracks?_finalTask _ _ _ _).symm.trans ho)
      obtain ⟨halone, hleft⟩ := hsafe o₁ filled hP hopen
      refine ⟨(settles_finalTask spent hleft).step hs, fun o' ho' hn hne => ?_⟩
      rcases h.kept o' ho' with hd | hin
      · exact hd.step hs
      · exact (halone o' hin.1 hn hne).step hs

/-- The order whose attestation has returned is done, and the others of its bet were before. -/
theorem returned (h : NoneLost s orders) (hs : machine.step s a = some s')
    (hsafe : TracksSafely s a) {i : ℕ} {t : Task} (ht : s.tasks[i]? = some t)
    (ho : t.untracks? = some o)
    (hmap : s'.byOrderId = s.byOrderId.filter fun t => t.orderID ≠ o.orderID)
    (htable : s'.trackedOrders = s.trackedOrders.filter fun t => t.nullifier ≠ o.nullifier)
    (htasks : s'.tasks = s.tasks.eraseIdx i)
    (hrows : (∃ input signature, a = .signed i (some signature) ∧ t = .signing input (.untrack o) ∧
        s'.attestations = insertRow s.attestations input signature) ∨
      ((a = .signed i none ∨ a = .attested i ∧ t = .attested (.untrack o)) ∧
        s'.attestations = s.attestations)) : NoneLost s' orders := by
  have hmem := List.mem_of_getElem? ht
  obtain ⟨hsettles, hothers⟩ := h.returns t hmem o ho
  have hdone : Done s' o := by
    obtain ⟨input, signature, -, rfl, hrows⟩ | ⟨rfl | ⟨-, rfl⟩, -⟩ := hrows
    · obtain ⟨hn, htype⟩ := hsettles
      have hrow := readTypedRow_insertRow s.attestations input signature
      rw [← hrows, hn] at hrow
      refine .inl ?_
      unfold alreadyAttested
      cases hside : o.side with
      | buy =>
        rw [hside] at htype
        exact outcome_of_typed htype hrow
      | sell =>
        rw [hside] at htype
        simp only at htype
        exact htype ▸ hrow
    · exact (hsafe.2.2 t ht o ho).step hs
    · exact Done.step hsettles hs
  refine ⟨h.linked.step hs, fun o' ho' => ?_, fun t' ht' o₁ ho₁ => ?_⟩
  · refine (h.kept o' ho').elim (fun hd => .inl (hd.step hs)) fun ⟨hin, hrow⟩ => ?_
    by_cases hn : o'.nullifier = o.nullifier
    · by_cases heq : o' = o
      · exact .inl (heq ▸ hdone)
      · exact .inl ((hothers o' ho' hn heq).step hs)
    · have hid : o'.orderID ≠ o.orderID := fun hid =>
        hn (known_eq h.linked (h.linked.byOrderId o' hin)
          (untracks_known h.linked hmem ho) hid).1
      refine .inr ⟨?_, ?_⟩
      · rw [hmap]
        exact List.mem_filter.mpr ⟨hin, by simpa using hid⟩
      · rw [htable]
        exact List.mem_filter.mpr ⟨hrow, by simpa using hn⟩
  · rw [htasks] at ht'
    obtain ⟨hsettles', hothers'⟩ := h.returns t' (List.mem_of_mem_eraseIdx ht') o₁ ho₁
    exact ⟨hsettles'.step hs, fun o' ho' hn hne => (hothers' o' ho' hn hne).step hs⟩

theorem trackedOrders_foldl_load (os : List TrackedOrder) (t : SigningLayer)
    (hone : ∀ o' ∈ os, o'.nullifier = o.nullifier → o' = o)
    (hatt : t.alreadyAttested o.side o.nullifier = false) (hmem : o ∈ t.trackedOrders) :
    o ∈ (os.foldl resumeTracking t).trackedOrders := by
  induction os generalizing t with
  | nil => exact hmem
  | cons o' os ih =>
    refine ih _ (fun o'' ho'' => hone o'' (List.mem_cons_of_mem _ ho'')) ?_ ?_
    · rw [← hatt]
      refine alreadyAttested_congr ?_ _ _
      unfold resumeTracking
      split <;> rfl
    · unfold resumeTracking
      split
      case isFalse => exact hmem
      case isTrue hatt' =>
        have hn : o.nullifier ≠ o'.nullifier := fun hn => by
          obtain rfl := hone o' List.mem_cons_self hn.symm
          rw [hatt] at hatt'
          cases hatt'
        exact List.mem_filter.mpr ⟨hmem, by simpa using hn⟩

theorem restart (h : NoneLost s orders) (hs : machine.step s .restart = some s.restart) :
    NoneLost s.restart orders := by
  refine ⟨h.linked.step hs, fun o ho => ?_, fun t ht => ?_⟩
  · by_cases hdone : Done s o
    · exact .inl (hdone.step hs)
    · obtain ⟨-, hrow⟩ := (h.kept o ho).resolve_left hdone
      have hatt : s.clearMemory.alreadyAttested o.side o.nullifier = false :=
        Bool.eq_false_of_not_eq_true fun hatt => hdone (.inl hatt)
      have hone : ∀ o' ∈ s.trackedOrders, o'.nullifier = o.nullifier → o' = o :=
        fun o' ho' hn => tracked_eq h.linked ho' hrow hn
      refine .inr ⟨byOrderId_foldl_load _ _ o (fun o' ho' hid => ?_) hatt (.inr hrow),
        trackedOrders_foldl_load _ _ hone hatt hrow⟩
      exact hone o' ho' (known_eq h.linked (h.linked.trackedOrders o' ho')
        (h.linked.trackedOrders o hrow) hid).1
  · rw [tasks_restart] at ht
    exact absurd ht List.not_mem_nil

theorem step (h : NoneLost s orders) (hsafe : TracksSafely s a)
    (hs : machine.step s a = some s') : NoneLost s' (orders ++ (handed s a).toList) := by
  obtain ⟨o, ho⟩ | hnone := (Option.eq_none_or_eq_some (handed s a)).symm
  · obtain ⟨hclosed, halone⟩ := hsafe.1 o ho
    rw [ho]
    exact h.track hs hclosed halone (tracks_of_handed hs ho)
  · rw [hnone, Option.toList_none, List.append_nil]
    cases trackerStep hs with
    | quiet hq => exact h.quiet hs hq
    | track ho =>
      rw [hnone] at ho
      cases ho
    | finalize ho hf =>
      refine h.finalizes hs hf ?_
      rintro o filled ⟨rfl, rfl⟩
      exact hsafe.2.1 _ ho
    | @market c ha hs' =>
      subst ha hs'
      refine h.finalizes hs (finalizes_market s c) ?_
      rintro o filled ⟨ho, hm, rfl⟩
      exact hsafe.2.2 o ho hm
    | returned ht ho hmap htable _ htasks hrows =>
      exact h.returned hs hsafe ht ho hmap htable htasks hrows
    | restart ha hs' =>
      subst ha hs'
      exact h.restart hs

end NoneLost

/-- Whatever happened, an order once handed to `trackOrder` is done or still tracked. -/
theorem tracked_orders_kept {s : SigningLayer × List TrackedOrder}
    (h : tracking.Run (fun s a => TracksSafely s.1 a) (.initial, []) s) :
    ∀ o ∈ s.2, Kept s.1 o := by
  have hinv : NoneLost s.1 s.2 := by
    refine h.invariant (I := fun s => NoneLost s.1 s.2) .initial fun s a s' hi hsafe hs => ?_
    obtain ⟨u, hu, rfl⟩ := Option.map_eq_some_iff.mp hs
    exact hi.step hsafe hu
  exact hinv.kept

instance (s : SigningLayer) (o : TrackedOrder) : Decidable (LeftUnfilled s o) := by
  unfold LeftUnfilled
  infer_instance

instance (s : SigningLayer) (o : TrackedOrder) : Decidable (Done s o) := by
  unfold Done
  infer_instance

instance (s : SigningLayer) (o : TrackedOrder) : Decidable (Kept s o) := by
  unfold Kept
  infer_instance

instance (s : SigningLayer) (o : TrackedOrder) : Decidable (Alone s o) := by
  unfold Alone
  infer_instance

instance (s : SigningLayer) (o : TrackedOrder) (filled : ℕ) :
    Decidable (FinalizesTruly s o filled) := by
  unfold FinalizesTruly
  infer_instance

instance (s : SigningLayer) (a : Action) : Decidable (TracksSafely s a) := by
  refine @instDecidableAnd _ _ _ (@instDecidableAnd _ _ _ ?_)
  induction a using Action.casesOn with
  | signed i e => induction e using Option.casesOn <;> dsimp only <;> infer_instance
  | _ =>
    dsimp only
    infer_instance

def buyFinalized : List Action :=
  .authorizeBet sampleChainBet :: submitSample .gtc
    ++ [.clobAccept 0 7 true 0, .responded (some ⟨some 7, .live, false, 0, false, false⟩),
      .reconciled 0 .live (some 0) 0, .clobFill 0 1000000 true, .clobClose 0,
      .message 0 true true true,
      .signed 0 (some "filled")]

def sellRests : List Action :=
  [.closeRequest ⟨sampleBet, 500000, 400000⟩ .gtc, .sell 0 true (some ⟨1, 2⟩) 400000,
    .clobAccept 1 8 true 0, .sellResponded 0 (some ⟨some 8, .live, false, 0, false, false⟩) false 0]

/-- The SELL is made after a restart, is tracked across another one, and sells in part. -/
theorem tracked_orders_kept_buy_then_sell :
    ∃ s : SigningLayer × List TrackedOrder,
      tracking.Run (fun s a => TracksSafely s.1 a) (.initial, []) s ∧ s.2.length = 2
        ∧ s.1.attestations.length = 2 ∧ ∀ o ∈ s.2, Kept s.1 o := by
  have hrun : ((tracking.checkFrom (fun s a => TracksSafely s.1 a) (.initial, [])
      (buyFinalized ++ .restart :: sellRests ++ [.restart, .clobFill 1 200000 true, .clobClose 1,
        .message 1 true true true, .signed 0 (some "sold")])).map
      fun s => (s.2.length, s.1.attestations.length)) = some (2, 2) := by
    decide +kernel
  obtain ⟨s, hs, heq⟩ := Option.map_eq_some_iff.mp hrun
  obtain ⟨htwo, hrows⟩ := Prod.mk.inj heq
  have h := Machine.run_of_checkFrom hs
  exact ⟨s, h, htwo, hrows, tracked_orders_kept h⟩

/-- The SELL is made in the process that finalized the bet's BUY: `trackOrder` drops it while it
rests on the book. -/
theorem tracked_order_lost :
    ¬∀ acts s, tracking.runFrom (.initial, []) acts = some s → ∀ o ∈ s.2, Kept s.1 o := by
  intro h
  have hrun : ((tracking.runFrom (.initial, []) (buyFinalized ++ sellRests)).map
      fun s => decide (∀ o ∈ s.2, Kept s.1 o)) = some false := by
    decide +kernel
  obtain ⟨s, hs, hd⟩ := Option.map_eq_some_iff.mp hrun
  exact of_decide_eq_false hd (h _ s hs)

end Polyshield.Signing

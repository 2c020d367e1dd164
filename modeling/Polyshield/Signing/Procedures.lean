import Polyshield.Signing.Closes
import Polyshield.Signing.Registry

/-!
# Where the suspended procedures come from

A step takes up at most one suspended procedure and appends the new ones
(`task_origin`). What a new one sells, attests as sold or will forget comes from
the request, the procedure or the tracked order that the step is about
(`TaskOrigin`).
-/

namespace Polyshield.Signing

open SigningLayer

def Action.task? : Action → Option ℕ
  | .signed i _ | .attested i | .cancelClient i _ | .cancelled i _ _ _ _ | .reconciled i _ _ _
  | .marketClient i _ | .marketQueried i _ _ | .sell i _ _ _ | .sellResponded i _ _ _
  | .sellCrossed i _ => some i
  | _ => none

def takenUp (s : SigningLayer) (a : Action) : SigningLayer :=
  match a.task? with
  | some i => s.dropTask i
  | none => s

/-- The fill `submitMarketSellOrder` goes by. -/
def toldFill (req : CloseRequest) (r : ClobResponse) (confirmed : Bool) : ℕ :=
  if r.filledShares = 0 ∧ r.ambiguous ∧ r.orderID.isSome ∧ confirmed then req.soldShares
  else r.filledShares

/-- A step may call `finalize` on this order with this fill. -/
def MayFinalize (s : SigningLayer) (a : Action) (o : TrackedOrder) (filled : ℕ) : Prop :=
  finalizing s a = some (o, filled) ∨
    ∃ c, a = .marketResolved c ∧ o ∈ s.byOrderId ∧ sameMarket o.conditionId c ∧ filled = 0

/-- Where a new procedure comes from, in a step to the order book `posts`. -/
inductive TaskOrigin (s : SigningLayer) (posts : List Post) (a : Action) : Task → Prop
  /-- It works on no tracked order and sells nothing. -/
  | plain {t : Task} (hcloses : t.closes? = none) (horder : t.order? = none) :
      TaskOrigin s posts a t
  | works {o : TrackedOrder} {t : Task} (ht : t = .cancelling o ∨ t = .reconciling o)
      (ho : o ∈ s.byOrderId ∨ handed s a = some o ∨ ∃ u ∈ s.tasks, u.order? = some o) :
      TaskOrigin s posts a t
  | selling {req : CloseRequest} {t : OrderType} (ha : a = .closeRequest req t)
      (hgo : GoesOn s req t) : TaskOrigin s posts a (.selling req t)
  | sellPosted {i : ℕ} {req : CloseRequest} {t : OrderType} {c : ℕ} {k : TokenId} {price : ℕ}
      (ht : s.tasks[i]? = some (.selling req t))
      (hposts : posts = s.posts ++ [⟨req.nullifierOfBet, .sell, t, req.soldShares, k, .sent⟩]) :
      TaskOrigin s posts a (.sellPosted req t c k price s.posts.length)
  | sellFee {i j : ℕ} {req : CloseRequest} {t : OrderType} {c : ℕ} {k : TokenId} {price : ℕ}
      {p : Post} {r : ClobResponse} {id : OrderId}
      (ht : s.tasks[i]? = some (.sellPosted req t c k price j)) (hp : s.posts[j]? = some p)
      (htrue : r.truthful p) (hid : r.orderID = some id) :
      TaskOrigin s posts a (.sellFee req t c k id)
  | sold {i j : ℕ} {req : CloseRequest} {c : ℕ} {k : TokenId} {price : ℕ} {r : ClobResponse}
      {confirmed : Bool} {fee proceeds : ℕ} (ha : a = .sellResponded i (some r) confirmed fee)
      (ht : s.tasks[i]? = some (.sellPosted req .fak c k price j))
      (hfill : 0 < toldFill req r confirmed) :
      TaskOrigin s posts a (.signing
        ⟨req.nullifierOfBet, .sold, soldShares req.soldShares (toldFill req r confirmed), proceeds⟩
        .done)
  | final {o : TrackedOrder} {filled spent : ℕ} (ho : MayFinalize s a o filled)
      (hn : o.nullifier ∉ s.finalized) :
      TaskOrigin s posts a (finalTask s.attestations o filled spent)

/-- New procedures, of this kind, are appended. -/
def AddsTasks (P : Task → Prop) (s s' : SigningLayer) : Prop :=
  ∃ new : List Task, s'.tasks = s.tasks ++ new ∧ ∀ t ∈ new, P t

namespace AddsTasks

variable {P : Task → Prop} {s s' s'' : SigningLayer}

theorem of_eq (h : s'.tasks = s.tasks) : AddsTasks P s s' :=
  ⟨[], by rw [h, List.append_nil], fun _ ht => absurd ht List.not_mem_nil⟩

theorem refl (s : SigningLayer) : AddsTasks P s s := of_eq rfl

theorem trans (h : AddsTasks P s s') (h' : AddsTasks P s' s'') : AddsTasks P s s'' := by
  obtain ⟨new, heq, hnew⟩ := h
  obtain ⟨new', heq', hnew'⟩ := h'
  refine ⟨new ++ new', by rw [heq', heq, List.append_assoc], fun t ht => ?_⟩
  exact (List.mem_append.mp ht).elim (hnew t) (hnew' t)

theorem setListener (l : Listener) (h : AddsTasks P s s') : AddsTasks P s (s'.setListener l) :=
  h.trans (of_eq rfl)

theorem spawn (s : SigningLayer) {t : Task} (ht : P t) : AddsTasks P s (s.spawn t) :=
  ⟨[t], rfl, fun _ hu => List.mem_singleton.mp hu ▸ ht⟩

theorem signAndStoreAttestation (s : SigningLayer) {input : AttestationInput} {after : AfterAttest}
    (hattested : P (.attested after)) (hsigning : P (.signing input after)) :
    AddsTasks P s (s.signAndStoreAttestation input after) := by
  rw [signAndStoreAttestation_eq]
  refine spawn s ?_
  split
  · exact hattested
  · exact hsigning

theorem reconcileOne (s : SigningLayer) {o : TrackedOrder} (h : P (.reconciling o)) :
    AddsTasks P s (s.reconcileOne o) := by
  unfold SigningLayer.reconcileOne
  split
  · exact refl s
  · exact spawn s h

theorem trackOrder (s : SigningLayer) {o : TrackedOrder} (h : P (.reconciling o)) :
    AddsTasks P s (s.trackOrder o) := by
  unfold SigningLayer.trackOrder
  split
  · exact refl s
  · exact (of_eq rfl : AddsTasks P s ((s.persist o).setByOrderId o)).trans (reconcileOne _ h)

end AddsTasks

section Origin

variable {s s' : SigningLayer} {posts : List Post} {a : Action}

/-- The procedures left by an outcome attestation that forgets no order. -/
theorem TaskOrigin.outcome {input : AttestationInput} {after : AfterAttest}
    (hout : input.reportType.isBetOutcome = true) (ha : ∀ o, after ≠ .untrack o)
    (u : SigningLayer) :
    AddsTasks (TaskOrigin s posts a) u (u.signAndStoreAttestation input after) := by
  have hsold : input.reportType ≠ .sold := fun h => by rw [h] at hout; cases hout
  cases after with
  | untrack o => exact absurd rfl (ha o)
  | done =>
    exact .signAndStoreAttestation u (.plain rfl rfl) (.plain (by simp [Task.closes?, hsold]) rfl)
  | listener =>
    exact .signAndStoreAttestation u (.plain rfl rfl) (.plain (by simp [Task.closes?, hsold]) rfl)

theorem TaskOrigin.buy {bet : TerminalBet} (hside : bet.side = .buy) (filled spent : ℕ)
    {after : AfterAttest} (ha : ∀ o, after ≠ .untrack o) (u : SigningLayer) :
    AddsTasks (TaskOrigin s posts a) u (u.attestTerminal bet filled spent after) := by
  simp only [SigningLayer.attestTerminal, hside]
  exact TaskOrigin.outcome (outcomeInput_spec bet filled spent).1 ha u

/-- `finalize` on a state that differs from `s` in its procedures only. -/
theorem TaskOrigin.finalize {u : SigningLayer} {o : TrackedOrder} {filled : ℕ} (spent : ℕ)
    (ho : MayFinalize s a o filled) (hf : s.finalized ⊆ u.finalized)
    (hrows : u.attestations = s.attestations) :
    AddsTasks (TaskOrigin s posts a) u (u.finalize o filled spent) := by
  by_cases hn : o.nullifier ∈ u.finalized
  · rw [SigningLayer.finalize, if_pos hn]
    exact .refl u
  · rw [finalize_spawn hn, hrows]
    have hadd : AddsTasks (TaskOrigin s posts a) u (u.addFinalized o.nullifier) := .of_eq rfl
    exact hadd.trans (.spawn _ (.final ho fun hmem => hn (hf hmem)))

theorem TaskOrigin.cancelOrdersForMarket {c : ℕ} (ha : a = .marketResolved c) :
    AddsTasks (TaskOrigin s posts a) s (s.cancelOrdersForMarket c) := by
  have key : ∀ (os : List TrackedOrder) (u : SigningLayer), os ⊆ s.byOrderId →
      s.finalized ⊆ u.finalized → u.attestations = s.attestations →
      AddsTasks (TaskOrigin s posts a) s u →
      AddsTasks (TaskOrigin s posts a) s (os.foldl (cancelForMarket c) u) := by
    intro os
    induction os with
    | nil => exact fun _ _ _ _ hu => hu
    | cons o os ih =>
      intro u hos hf hrows hu
      have hos' : os ⊆ s.byOrderId := fun o' ho' => hos (List.mem_cons_of_mem _ ho')
      rw [List.foldl_cons, cancelForMarket]
      split
      · exact ih u hos' hf hrows hu
      · rename_i hcond
        have ho : MayFinalize s a o 0 :=
          .inr ⟨c, ha, hos List.mem_cons_self, not_not.mp (not_or.mp hcond).2, rfl⟩
        refine ih _ hos' (List.Subset.trans hf (finalized_finalize u o 0 0)) ?_
          (hu.trans (TaskOrigin.finalize 0 ho hf hrows))
        exact (Quiet.finalize u o 0 0).attestations.trans hrows
  exact key _ _ (List.Subset.refl _) (List.Subset.refl _) rfl (.refl s)

section Handlers

variable (u : SigningLayer)

theorem TaskOrigin.confirmed (r : BetAuthorizedRecord) (resolved : Option RegistryHit) :
    AddsTasks (TaskOrigin s posts a) u (u.confirmed r resolved) := by
  unfold SigningLayer.confirmed
  split
  · exact .of_eq rfl
  · unfold processBetEvent
    split
    · apply AddsTasks.setListener
      exact TaskOrigin.outcome rfl (fun _ h => by cases h) (u.setInFlight r.nullifier)
    · exact .of_eq rfl

theorem TaskOrigin.funded (e : BetAuthorizedEvent) (t : OrderType) (ok : Bool) :
    AddsTasks (TaskOrigin s posts a) u (u.funded e t ok) := by
  unfold SigningLayer.funded
  split
  · split
    · unfold markMarketSubmitting
      split <;> exact .of_eq rfl
    · exact .of_eq rfl
  · apply AddsTasks.setListener
    exact TaskOrigin.outcome rfl (fun _ h => by cases h) u

theorem TaskOrigin.fakResponded (e : BetAuthorizedEvent) (size : ℕ) (resp : Option ClobResponse) :
    AddsTasks (TaskOrigin s posts a) u (u.fakResponded e size resp) := by
  cases resp with
  | none => exact .of_eq rfl
  | some resp =>
    have hrec : AddsTasks (TaskOrigin s posts a) u (u.recordOrderId e.nullifier resp.orderID) := by
      cases resp.orderID <;> exact .of_eq rfl
    simp only [SigningLayer.fakResponded]
    split
    · exact hrec.setListener _
    · apply AddsTasks.setListener
      exact hrec.trans (TaskOrigin.buy rfl _ _ (fun _ h => by cases h) _)

theorem TaskOrigin.cancelBet (n : Hex32) :
    AddsTasks (TaskOrigin s posts a) u (u.cancelBet n) := by
  unfold SigningLayer.cancelBet
  split_ifs
  · exact .refl u
  · exact .spawn u (.plain rfl rfl)
  · exact .refl u
  · split
    · exact .spawn u (.plain rfl rfl)
    · exact TaskOrigin.outcome rfl (fun _ h => by cases h) u

theorem TaskOrigin.reconcileMarketSubmission (n : Hex32) (sub : MarketSubmission) (client : Bool) :
    AddsTasks (TaskOrigin s posts a) u (u.reconcileMarketSubmission n sub client) := by
  unfold SigningLayer.reconcileMarketSubmission
  split
  · exact .refl _
  · split
    · split
      · exact TaskOrigin.outcome rfl (fun _ h => by cases h) _
      · exact .refl _
    · split
      · exact .spawn _ (.plain rfl rfl)
      · exact .refl _

theorem TaskOrigin.marketQueried {n : Hex32} {id : OrderId} {od : OrderAnswer} {spent : ℕ}
    {u' : SigningLayer} (h : u.marketQueried n id od spent = some u') :
    AddsTasks (TaskOrigin s posts a) u u' := by
  unfold SigningLayer.marketQueried at h
  split at h
  · obtain ⟨m, -, rfl⟩ := Option.map_eq_some_iff.mp h
    exact TaskOrigin.buy rfl _ _ (fun _ h => by cases h) _
  · cases h
    exact .refl _

theorem TaskOrigin.trackOrder {o : TrackedOrder} (ho : handed s a = some o) :
    AddsTasks (TaskOrigin s posts a) u (u.trackOrder o) :=
  .trackOrder u (.works (.inr rfl) (.inr (.inl ho)))

theorem TaskOrigin.cancelTrackedOrder (n : Hex32) (client : Bool)
    (h : u.byOrderId = s.byOrderId) :
    AddsTasks (TaskOrigin s posts a) u (u.cancelTrackedOrder n client) := by
  unfold SigningLayer.cancelTrackedOrder
  split
  · exact .refl _
  · rename_i o ho
    have hmem : o ∈ s.byOrderId := h ▸ (getTrackedOrder_mem ho).2.1
    split_ifs
    · exact .refl _
    · exact .spawn _ (.works (.inl rfl) (.inl hmem))
    · exact .reconcileOne _ (.works (.inr rfl) (.inl hmem))

theorem TaskOrigin.marketSold {i : ℕ} {req : CloseRequest} {c : ℕ} {k : TokenId} {price j : ℕ}
    {r : ClobResponse} {confirmed : Bool} {fee : ℕ}
    (ha : a = .sellResponded i (some r) confirmed fee)
    (ht : s.tasks[i]? = some (.sellPosted req .fak c k price j)) :
    AddsTasks (TaskOrigin s posts a) u (u.marketSold req price r confirmed fee) := by
  have hfill : (if r.filledShares = 0 ∧ r.ambiguous ∧ r.orderID.isSome ∧ confirmed then
      req.soldShares else r.filledShares) = toldFill req r confirmed := rfl
  simp only [SigningLayer.marketSold, SigningLayer.attestTerminal, hfill]
  split
  · exact .spawn _ (.plain rfl rfl)
  · exact .signAndStoreAttestation _ (.plain rfl rfl) (.sold ha ht (Nat.pos_of_ne_zero ‹_›))

end Handlers

/-- Every procedure after a step was there before it or has one of these origins. -/
theorem task_origin (hs : machine.step s a = some s') (hrestart : a ≠ .restart) :
    AddsTasks (TaskOrigin s s'.posts a) (takenUp s a) s' := by
  obtain ⟨posts, hposts⟩ : ∃ posts : List Post, s'.posts = posts := ⟨_, rfl⟩
  rw [hposts]
  cases steps_of_step hs with
  | handleBetRecord =>
    rw [handleBetRecord_eq]
    split <;> exact .of_eq rfl
  | confirmed => exact TaskOrigin.confirmed s _ _
  | confirmThrew => exact .of_eq rfl
  | funded => exact TaskOrigin.funded s _ _ _
  | prepared =>
    unfold SigningLayer.prepared
    split <;> exact .of_eq rfl
  | fakResponded => exact TaskOrigin.fakResponded s _ _ _
  | @limitResponded e t i p resp ht hl hp htrue =>
    -- Without an order to hand over, the bet is FAILED or the listener stops.
    unfold SigningLayer.limitResponded
    split
    · exact .of_eq rfl
    · split
      · split
        · exact .of_eq rfl
        · apply AddsTasks.setListener
          exact TaskOrigin.outcome rfl (fun _ h => by cases h) s
      · rename_i id hid
        split
        · exact .of_eq rfl
        · rename_i hfilled
          apply AddsTasks.setListener
          exact TaskOrigin.trackOrder _ (by simp [handed, hl, ht, hfilled, hid])
  | @crossed e t id fee hl =>
    unfold SigningLayer.crossed
    split
    · exact .of_eq rfl
    · apply AddsTasks.setListener
      exact TaskOrigin.trackOrder _ (by simp [handed, hl])
  | limitOrder => exact .of_eq rfl
  | cancelBet => exact TaskOrigin.cancelBet s _
  | @closeRequest req t =>
    classical
    rw [closeRequest_eq]
    split
    · exact .spawn s (.selling rfl ‹_›)
    · exact .refl s
  | @signed i input after signature ht => cases after <;> exact .of_eq rfl
  | @signThrew i input after ht => cases after <;> exact .of_eq rfl
  | @attested i after ht => cases after <;> exact .of_eq rfl
  | cancelClient => exact TaskOrigin.cancelTrackedOrder _ _ _ rfl
  | @cancelled i o canceled od trades spent _ ht _ hc =>
    rcases finalizing_cancelled ht hc with ⟨m, hfin, rfl⟩ | rfl
    · exact TaskOrigin.finalize _ (.inl (hfin canceled)) (List.Subset.refl _) rfl
    · exact .reconcileOne _
        (.works (.inr rfl) (.inr (.inr ⟨_, List.mem_of_getElem? ht, rfl⟩)))
  | @reconciled i o od trades spent _ ht _ hc =>
    rcases finalizing_reconciled ht hc with ⟨m, hfin, rfl⟩ | rfl
    · exact TaskOrigin.finalize _ (.inl hfin) (List.Subset.refl _) rfl
    · exact .refl _
  | marketClient => exact TaskOrigin.reconcileMarketSubmission _ _ _ _
  | marketQueried ht hc => exact TaskOrigin.marketQueried _ hc
  | @sell i req t client resolved bestBid ht =>
    rcases Quiet.sell (s.dropTask i) req t client resolved bestBid with heq | ⟨hit, -, heq⟩
    · rw [heq]
      exact .refl _
    · rw [heq]
      refine (AddsTasks.of_eq rfl).trans (.spawn _ (.sellPosted ht ?_))
      rw [← hposts, heq]
      rfl
  | sellThrew => exact .refl _
  | marketSold ht hp htrue => exact TaskOrigin.marketSold _ rfl ht
  | @limitSellResponded i req t c k price j p r confirmed fee hfak ht hp htrue =>
    unfold SigningLayer.limitSellResponded
    split
    · exact .refl _
    · rename_i id hid
      split
      · exact .spawn _ (.sellFee ht hp htrue hid)
      · rename_i hfilled
        exact TaskOrigin.trackOrder _ (by simp [handed, ht, hfak, hfilled, hid])
  | @sellCrossed i req t c k id fee ht => exact TaskOrigin.trackOrder _ (by simp [handed, ht])
  | sellCrossThrew => exact .refl _
  | @message i p id taken made w1 w2 w3 hp hstate =>
    unfold SigningLayer.handleOne
    split
    · rename_i o ho
      refine TaskOrigin.finalize _ (.inl ?_) (List.Subset.refl _) rfl
      simp [finalizing, hp, ho]
    · exact .refl s
  | reconcile ho => exact .reconcileOne s (.works (.inr rfl) (.inl ho))
  | marketResolved => exact TaskOrigin.cancelOrdersForMarket rfl
  | restart => exact absurd rfl hrestart
  | clob _ _ ha =>
    cases a <;> first | exact .of_eq rfl | cases ha
  | authorizeBet => exact .of_eq rfl
  | setBetStatus => exact .of_eq rfl
  | tick => exact .of_eq rfl

theorem order?_finalTask (rows : List Attestation) (o : TrackedOrder) (filled spent : ℕ) :
    (finalTask rows o filled spent).order? = some o := by
  have h := untracks?_finalTask rows o filled spent
  generalize finalTask rows o filled spent = t at h ⊢
  cases t <;> first | exact h | cases h

namespace TaskOrigin

variable {t : Task}

/-- A new procedure of a SELL comes from its request, from its POST or from the response to it. -/
theorem of_closes (h : TaskOrigin s posts a t) (hcloses : t.closes? ≠ none)
    (horder : t.order? = none) :
    match t with
    | .selling req ty => a = .closeRequest req ty ∧ GoesOn s req ty
    | .sellPosted req ty _ k _ j =>
      j = s.posts.length ∧
        posts = s.posts ++ [⟨req.nullifierOfBet, .sell, ty, req.soldShares, k, .sent⟩]
    | .sellFee req ty c k id =>
      ∃ price j, ∃ p : Post, .sellPosted req ty c k price j ∈ s.tasks ∧ s.posts[j]? = some p ∧
        p.orderID? = some id
    | _ => True := by
  cases h with
  | plain hplain => exact absurd hplain hcloses
  | works hworks => rcases hworks with rfl | rfl <;> cases horder
  | selling ha hgo => exact ⟨ha, hgo⟩
  | sellPosted _ hposts => exact ⟨rfl, hposts⟩
  | sellFee hposted hp htrue hid =>
    exact ⟨_, _, _, List.mem_of_getElem? hposted, hp, orderID?_of_truthful htrue hid⟩
  | sold => trivial
  | final =>
    rw [order?_finalTask] at horder
    cases horder

theorem of_order {o : TrackedOrder} (h : TaskOrigin s posts a t) (ho : t.order? = some o) :
    o ∈ s.byOrderId ∨ handed s a = some o ∨ (∃ u ∈ s.tasks, u.order? = some o) ∨
      ∃ filled, MayFinalize s a o filled := by
  cases h with
  | plain _ horder =>
    rw [horder] at ho
    cases ho
  | works hworks hfrom =>
    have : t.order? = some ‹_› := by rcases hworks with rfl | rfl <;> rfl
    obtain rfl := Option.some.inj (this.symm.trans ho)
    exact hfrom.imp_right fun h => h.imp_right .inl
  | @final o' filled spent hmay =>
    obtain rfl := Option.some.inj ((order?_finalTask _ o' _ _).symm.trans ho)
    exact .inr (.inr (.inr ⟨filled, hmay⟩))
  | selling => cases ho
  | sellPosted => cases ho
  | sellFee => cases ho
  | sold => cases ho

end TaskOrigin

end Origin

end Polyshield.Signing

import Polyshield.Signing.Frames
import Polyshield.Signing.Outcomes

/-!
# FAILED and the orders behind it

FAILED is signed on the word of the CLOB about the bet's one order (a refusal, an
explicit miss, a terminal state without a match) or because nothing else is known
of the bet. Once the orders of a bet are off the book without a fill and the
listener has not picked it up, this stays so (`Sealed.step`). The paths that go by
a terminal state find the bet so; what the others need, of the answers and of the
orders that were POSTed, is in `FailsSafely`.
-/

namespace Polyshield.Signing

open SigningLayer

/-- The order is off the book and nothing of it was filled. -/
def Post.unfilled (p : Post) : Bool :=
  match p.state with
  | .refused => true
  | .book _ false taken made => taken + made = 0
  | _ => false

/-- No BUY of the bet was filled or can be. -/
def Unfilled (posts : List Post) (n : Hex32) : Prop :=
  ∀ p ∈ posts, p.side = .buy → p.nullifier.bytes32 = n.bytes32 → p.unfilled

/-- The listener is not on its way to POST a BUY of the bet. -/
def Listener.Avoids (l : Listener) (n : Hex32) : Prop := ∀ m ∈ l.early?, m.bytes32 ≠ n.bytes32

structure Sealed (s : SigningLayer) (n : Hex32) : Prop where
  orders : Unfilled s.posts n
  listener : s.listener.Avoids n

/-- The order behind this entry of the tracker is off the book without a fill. -/
def OrderUnfilled (s : SigningLayer) (o : TrackedOrder) : Prop :=
  ∀ p ∈ s.posts, p.orderID? = some o.orderID → p.unfilled

/-- The bet whose FAILED a suspended procedure is signing. -/
def Task.failed? : Task → Option Hex32
  | .signing input _ => if input.reportType = .failed then some input.nullifierOfBet else none
  | _ => none

/-- `/cancel-bet` finds no attestation, order, submission or marker of the bet. -/
def KnowsNothing (s : SigningLayer) (n : Hex32) : Prop :=
  (getAttestation s.attestations n none).isSome = false ∧ (s.getTrackedOrder n).isSome = false
    ∧ s.isActivelySubmitting n = false ∧ (s.getMarketSubmission n).isSome = false

/-- `reconcileMarketSubmission` goes by the age of the marker. -/
def GoesByAge (s : SigningLayer) (n : Hex32) (sub : MarketSubmission) : Prop :=
  (getAttestation s.attestations n none).isSome = false ∧ sub.orderId = none
    ∧ staleSubmissionSec < s.now / 1000 - sub.submittedAt

/-- The CLOB took no BUY of the bet, and has none left to take. -/
def NeverTaken (posts : List Post) (n : Hex32) : Prop :=
  ∀ p ∈ posts, p.side = .buy → p.nullifier.bytes32 = n.bytes32 → p.state = .refused

/-- The response for which FAILED is signed: of a market order an explicit miss without a fill, of
another one neither an id nor an acceptance. -/
def ClobResponse.fails (r : ClobResponse) : OrderType → Bool
  | .fak => r.filledShares = 0 ∧ r.explicitMiss
  | _ => r.orderID = none ∧ ¬r.accepted

/-- The response fails an order only when the CLOB has refused it or killed it unmatched. -/
def Listener.MissedTruly (s : SigningLayer) (resp : Option ClobResponse) : Listener → Prop
  | .posting _ t i => ∀ r ∈ resp, r.fails t → ∀ p ∈ s.posts[i]?, p.unfilled
  | _ => True

/-- The age of a marker is taken for a miss only when no order was taken. -/
def Task.AgesSafely (s : SigningLayer) : Task → Prop
  | .marketClient n sub => GoesByAge s n sub → NeverTaken s.posts n ∧ s.listener.Avoids n
  | _ => True

/-- The trade history shows all that the order has matched. -/
def ShowsAll (s : SigningLayer) (o : TrackedOrder) (trades : Option ℕ) : Prop :=
  ∀ p ∈ s.posts, p.orderID? = some o.orderID → trades = some p.matched

/-- A BUY is failed on an empty trade history only when its cancellation took effect, or it was
purged, and the history is complete. -/
def Task.CancelsSafely (s : SigningLayer) (canceled : Bool) (od : OrderAnswer)
    (trades : Option ℕ) : Task → Prop
  | .cancelling o =>
    od ≠ .terminal → trades = some 0 → o.side = .buy → o.nullifier ∉ s.finalized →
      (canceled = true ∨ od = .purged) ∧ ShowsAll s o trades
  | _ => True

/-- FAILED is not signed for what is merely not known, and a bet is not submitted a second time.
The marker covers the market orders of a bet under the spelling of its log. -/
def FailsSafely (s : SigningLayer) : Action → Prop
  | .handleBetRecord r =>
    TakesUp s r → (∀ p ∈ s.posts, ¬p.OpenBuy r.nullifier)
      ∧ (∀ t ∈ s.tasks, ∀ n ∈ t.failed?, n.bytes32 ≠ r.nullifier.bytes32)
      ∧ ∀ a ∈ s.attestations, a.reportType = .failed →
          a.nullifierOfBet.bytes32 ≠ r.nullifier.bytes32
  | .responded resp => s.listener.MissedTruly s resp
  | .cancelBet n =>
    KnowsNothing s n → (∀ p ∈ s.posts, p.side = .buy → p.nullifier.bytes32 = n.bytes32 →
      p.orderType ≠ .fak ∨ n.lowercase = false → p.state = .refused) ∧ s.listener.Avoids n
  | .marketClient i _ => ∀ t ∈ s.tasks[i]?, t.AgesSafely s
  | .cancelled i canceled od trades _ => ∀ t ∈ s.tasks[i]?, t.CancelsSafely s canceled od trades
  | .message i withOrderID withAssetId withSize =>
    ∀ p ∈ s.posts[i]?, ∀ o ∈ s.findTracked (p.message withOrderID withAssetId withSize),
      withSize = false ∨ p.matched = 0 → o.side = .buy → o.nullifier ∉ s.finalized →
        withSize = true ∧ p.orderID? = some o.orderID
  | .marketResolved c =>
    ∀ o ∈ s.byOrderId, sameMarket o.conditionId c → o.side = .buy → o.nullifier ∈ s.finalized
  | _ => True

/-! ### What stays unfilled -/

variable {s s' : SigningLayer} {n : Hex32}

theorem Post.matched_of_unfilled {p : Post} (h : p.unfilled) : p.matched = 0 := by
  unfold Post.unfilled at h
  unfold Post.matched
  split at h
  · simp [*]
  · simp_all
  · cases h

theorem Post.unfilled_of_refused {p : Post} (h : p.state = .refused) : p.unfilled := by
  simp [Post.unfilled, h]

theorem Post.unfilled_of_matched {p : Post} {id : OrderId} {taken made : ℕ}
    (h : p.state = .book id false taken made) (hm : p.matched = 0) : p.unfilled := by
  simp only [Post.matched, h] at hm
  simp [Post.unfilled, h, hm]

theorem PostMoves.not_unfilled {posts : List Post} {p : Post} {state : PostState}
    (hm : PostMoves posts p state) : p.unfilled = false := by
  cases hm with
  | accept hsent => simp [Post.unfilled, hsent]
  | refuse hsent => simp [Post.unfilled, hsent]
  | fill hbook => simp [Post.unfilled, hbook]
  | close hbook => simp [Post.unfilled, hbook]

theorem Unfilled.step {a : Action} (h : Sealed s n) (hs : machine.step s a = some s') :
    Unfilled s'.posts n := by
  cases bookStep hs with
  | same hposts => exact hposts ▸ h.orders
  | @buy e t size hl _ hposts =>
    intro p hp hside hn
    rw [hposts] at hp
    rcases List.mem_append.mp hp with hp | hp
    · exact h.orders p hp hside hn
    · rw [List.mem_singleton.mp hp] at hn
      exact absurd hn (h.listener e.nullifier (by rw [hl]; rfl))
  | @sell q hsell _ _ hposts _ =>
    intro p hp hside hn
    rw [hposts] at hp
    rcases List.mem_append.mp hp with hp | hp
    · exact h.orders p hp hside hn
    · rw [List.mem_singleton.mp hp, hsell] at hside
      cases hside
  | @move i q state hq hm _ hposts =>
    intro p hp hside hn
    rw [hposts] at hp
    rcases List.mem_or_eq_of_mem_set hp with hp | rfl
    · exact h.orders p hp hside hn
    · have hfilled := hm.not_unfilled
      rw [h.orders q (List.mem_of_getElem? hq) hside hn] at hfilled
      cases hfilled

theorem Sealed.step {a : Action} (h : Sealed s n) (hs : machine.step s a = some s')
    (htake : ∀ r, a = .handleBetRecord r → TakesUp s r → n.bytes32 ≠ r.nullifier.bytes32) :
    Sealed s' n := by
  refine ⟨.step h hs, fun m hm => ?_⟩
  rcases early_step hs with hnone | hsame | ⟨r, ha, ht, rfl⟩
  · rw [hnone] at hm
    cases hm
  · exact h.listener m (hsame ▸ hm)
  · obtain rfl := Option.some.inj hm
    exact (htake r ha ht).symm

/-! ### The marker of a market order -/

namespace SigningLayer

def Marked (s : SigningLayer) (n : Hex32) : Prop := ∃ sub ∈ s.marketSubmissions, sub.nullifier = n

theorem Marked.getMarketSubmission (h : s.Marked n) : (s.getMarketSubmission n).isSome = true := by
  obtain ⟨sub, hsub, hn⟩ := h
  exact List.find?_isSome.mpr ⟨sub, hsub, by simpa using hn⟩

theorem marked_markMarketSubmitting (s : SigningLayer) (n : Hex32) (c : ℕ) :
    (s.markMarketSubmitting n c).Marked n := by
  unfold markMarketSubmitting
  split
  case isTrue h =>
    obtain ⟨sub, hsub, hn⟩ := List.find?_isSome.mp h
    exact ⟨sub, hsub, by simpa using hn⟩
  case isFalse => exact ⟨_, List.mem_append_right _ (List.mem_singleton_self _), rfl⟩

theorem Marked.markMarketSubmitting (h : s.Marked n) (m : Hex32) (c : ℕ) :
    (s.markMarketSubmitting m c).Marked n := by
  unfold SigningLayer.markMarketSubmitting
  split
  · exact h
  · obtain ⟨sub, hsub, hn⟩ := h
    exact ⟨sub, List.mem_append_left _ hsub, hn⟩

theorem Marked.recordOrderId (h : s.Marked n) (m : Hex32) (id : Option OrderId) :
    (s.recordOrderId m id).Marked n := by
  cases id with
  | none => exact h
  | some id =>
    obtain ⟨sub, hsub, hn⟩ := h
    refine ⟨_, List.mem_map_of_mem hsub, ?_⟩
    split
    · exact hn
    · exact hn

theorem Marked.setListener (h : s.Marked n) (l : Listener) : (s.setListener l).Marked n := h

theorem Marked.quiet (h : s.Marked n) (hq : Quiet s s') : s'.Marked n := by
  rw [Marked, hq.marketSubmissions]
  exact h

end SigningLayer

theorem marked_step {a : Action} (h : s.Marked n) (hs : machine.step s a = some s') :
    s'.Marked n := by
  have hafter : ∀ (t : SigningLayer) after, t.Marked n → (t.afterAttest after).Marked n := by
    intro t after ht
    cases after <;> exact ht
  cases steps_of_step hs with
  | handleBetRecord =>
    rw [handleBetRecord_eq]
    split <;> exact h
  | @confirmed r =>
    unfold SigningLayer.confirmed
    split
    · exact h
    · unfold processBetEvent
      split
      · exact (Marked.quiet (s := s.setInFlight r.nullifier) h
          (Quiet.attestFailedFor _ _ _)).setListener _
      · exact h
  | confirmThrew => exact h
  | @funded e =>
    unfold SigningLayer.funded
    split
    · split
      · exact h.markMarketSubmitting e.nullifier e.conditionId
      · exact h
    · exact (h.quiet (Quiet.attestFailedFor s _ _)).setListener _
  | prepared =>
    unfold SigningLayer.prepared
    split <;> exact h
  | @fakResponded e _ p resp =>
    cases resp with
    | none => exact h
    | some resp =>
      have hrec := h.recordOrderId e.nullifier resp.orderID
      simp only [SigningLayer.fakResponded]
      split
      · exact hrec
      · exact (hrec.quiet (Quiet.attestTerminal _ _ _ _ _)).setListener _
  | limitResponded =>
    unfold SigningLayer.limitResponded
    split
    · exact h
    · split
      · split
        · exact h
        · exact (h.quiet (Quiet.attestFailedFor s _ _)).setListener _
      · split
        · exact h
        · exact (h.quiet (Quiet.trackOrder s _)).setListener _
  | crossed =>
    unfold SigningLayer.crossed
    split
    · exact h
    · exact (h.quiet (Quiet.trackOrder s _)).setListener _
  | limitOrder => exact h
  | cancelBet => exact h.quiet (Quiet.cancelBet s _)
  | closeRequest => exact h.quiet (Quiet.closeRequest s _ _)
  | @signed i input after signature =>
    exact hafter ((s.dropTask i).insertAttestation input signature) after h
  | @signThrew i input after => exact hafter (s.dropTask i) after h
  | @attested i after => exact hafter (s.dropTask i) after h
  | @cancelClient i => exact Marked.quiet (s := s.dropTask i) h (Quiet.cancelTrackedOrder _ _ _)
  | @cancelled i _ _ _ _ _ _ _ _ hc => exact Marked.quiet (s := s.dropTask i) h (Quiet.cancelled hc)
  | @reconciled i _ _ _ _ _ _ _ hc => exact Marked.quiet (s := s.dropTask i) h (Quiet.reconciled hc)
  | @marketClient i =>
    exact Marked.quiet (s := s.dropTask i) h (Quiet.reconcileMarketSubmission _ _ _ _)
  | @marketQueried i _ _ _ _ _ _ hc =>
    exact Marked.quiet (s := s.dropTask i) h (Quiet.marketQueried hc)
  | @sell i req t client resolved bestBid =>
    rcases Quiet.sell (s.dropTask i) req t client resolved bestBid with heq | ⟨hit, -, heq⟩
    · rw [heq]
      exact h
    · rw [heq]
      exact h
  | sellThrew => exact h
  | @marketSold i => exact Marked.quiet (s := s.dropTask i) h (Quiet.marketSold _ _ _ _ _ _)
  | @limitSellResponded i =>
    exact Marked.quiet (s := s.dropTask i) h (Quiet.limitSellResponded _ _ _ _ _ _)
  | @sellCrossed i => exact Marked.quiet (s := s.dropTask i) h (Quiet.trackOrder _ _)
  | sellCrossThrew => exact h
  | message => exact h.quiet (Quiet.handleOne s _)
  | reconcile => exact h.quiet (Quiet.reconcileOne s _)
  | marketResolved => exact h.quiet (Quiet.cancelOrdersForMarket s _)
  | restart =>
    rw [Marked, (restart_frame s).2.1]
    exact h
  | clob => exact h
  | authorizeBet => exact h
  | setBetStatus => exact h
  | tick => exact h

/-- The marker stands before the listener is ready to POST a market order. -/
theorem marking_step {a : Action} {e : BetAuthorizedEvent}
    (h : ∀ e, s.listener = .preparing e .fak → s.Marked e.nullifier)
    (hs : machine.step s a = some s') (hl' : s'.listener = .preparing e .fak) :
    s'.Marked e.nullifier := by
  cases listenerStep hs with
  | stay hstay => exact marked_step (h e (hstay ▸ hl')) hs
  | leave hearly =>
    rw [hl'] at hearly
    cases hearly
  | takeUp _ _ hs' =>
    rw [hs'] at hl'
    cases hl'
  | confirm _ hfund =>
    rw [hfund] at hl'
    cases hl'
  | fund _ hprep hs' =>
    obtain ⟨rfl, rfl⟩ := Listener.preparing.inj (hprep.symm.trans hl')
    rw [hs']
    exact marked_markMarketSubmitting s _ _
  | post _ hpost =>
    rw [hpost] at hl'
    cases hl'

/-! ### Who signs FAILED -/

theorem SigningLayer.finalized_finalize (s : SigningLayer) (o : TrackedOrder) (filled spent : ℕ) :
    s.finalized ⊆ (s.finalize o filled spent).finalized := by
  have hterminal : ∀ (t : SigningLayer) (bet : TerminalBet) after,
      (t.attestTerminal bet filled (adjSpent o spent) after).finalized = t.finalized := by
    intro t bet after
    unfold attestTerminal
    split
    · split
      · rfl
      · rw [signAndStoreAttestation_eq]
        rfl
    · rw [signAndStoreAttestation_eq]
      rfl
  unfold finalize
  split
  · exact List.Subset.refl _
  · rw [hterminal]
    exact List.subset_append_left _ _

/-- A FAILED that is being signed was before, or is of a bet in `P`. -/
def FailsOnly (P : Hex32 → Prop) (s s' : SigningLayer) : Prop :=
  ∀ t ∈ s'.tasks, t ∈ s.tasks ∨ ∀ n ∈ t.failed?, P n

namespace FailsOnly

variable {P : Hex32 → Prop} {s'' : SigningLayer}

theorem of_tasks (h : s'.tasks ⊆ s.tasks) : FailsOnly P s s' := fun _ ht => .inl (h ht)

theorem refl (s : SigningLayer) : FailsOnly P s s := of_tasks (List.Subset.refl _)

theorem trans (h : FailsOnly P s s') (h' : FailsOnly P s' s'') : FailsOnly P s s'' := by
  intro t ht
  rcases h' t ht with ht | hP
  · exact h t ht
  · exact .inr hP

theorem dropTask (s : SigningLayer) (i : ℕ) : FailsOnly P s (s.dropTask i) :=
  of_tasks List.eraseIdx_subset

theorem spawn (s : SigningLayer) {t : Task} (ht : ∀ n ∈ t.failed?, P n) :
    FailsOnly P s (s.spawn t) := by
  intro u hu
  rcases List.mem_append.mp hu with hu | hu
  · exact .inl hu
  · exact .inr (List.mem_singleton.mp hu ▸ ht)

theorem signAndStoreAttestation (s : SigningLayer) {input : AttestationInput}
    (after : AfterAttest) (h : input.reportType = .failed → P input.nullifierOfBet) :
    FailsOnly P s (s.signAndStoreAttestation input after) := by
  rw [signAndStoreAttestation_eq]
  refine spawn s fun n hn => ?_
  split at hn
  · cases hn
  · simp only [Task.failed?] at hn
    split at hn
    case isTrue hfailed =>
      obtain rfl := Option.some.inj hn
      exact h hfailed
    case isFalse => cases hn

theorem attestFailedFor (s : SigningLayer) (after : AfterAttest) (h : P n) :
    FailsOnly P s (s.attestFailedFor n after) := signAndStoreAttestation s after fun _ => h

theorem attestTerminal (s : SigningLayer) {bet : TerminalBet} {filled : ℕ} (spent : ℕ)
    (after : AfterAttest) (h : bet.side = .buy → filled = 0 → P bet.nullifier) :
    FailsOnly P s (s.attestTerminal bet filled spent after) := by
  unfold SigningLayer.attestTerminal
  split
  case h_1 =>
    split
    · exact spawn s fun n hn => by cases hn
    · exact signAndStoreAttestation s after fun hfailed => by cases hfailed
  case h_2 hbuy =>
    refine signAndStoreAttestation s after fun hfailed => ?_
    unfold outcomeInput at hfailed ⊢
    split at hfailed
    case isTrue h0 =>
      rw [if_pos h0]
      exact h hbuy h0
    case isFalse => split at hfailed <;> cases hfailed

theorem finalize (s : SigningLayer) {o : TrackedOrder} {filled : ℕ} (spent : ℕ)
    (h : o.side = .buy → o.nullifier ∉ s.finalized → filled = 0 → P o.nullifier) :
    FailsOnly P s (s.finalize o filled spent) := by
  unfold SigningLayer.finalize
  split
  · exact refl s
  · rename_i hopen
    have h₁ : FailsOnly P s (s.addFinalized o.nullifier) := of_tasks (List.Subset.refl _)
    exact h₁.trans (attestTerminal _ _ _ fun hbuy h0 => h hbuy hopen h0)

theorem reconcileOne (s : SigningLayer) (o : TrackedOrder) : FailsOnly P s (s.reconcileOne o) := by
  unfold SigningLayer.reconcileOne
  split
  · exact refl s
  · exact spawn s fun n hn => by cases hn

theorem trackOrder (s : SigningLayer) (o : TrackedOrder) : FailsOnly P s (s.trackOrder o) := by
  unfold SigningLayer.trackOrder
  split
  · exact refl s
  · have h₁ : FailsOnly P s ((s.persist o).setByOrderId o) := of_tasks (List.Subset.refl _)
    exact h₁.trans (reconcileOne _ o)

theorem cancelTrackedOrder (s : SigningLayer) (n : Hex32) (client : Bool) :
    FailsOnly P s (s.cancelTrackedOrder n client) := by
  unfold SigningLayer.cancelTrackedOrder
  split
  · exact refl s
  · split_ifs
    · exact refl s
    · exact spawn s fun m hm => by cases hm
    · exact reconcileOne s _

theorem afterAttest (s : SigningLayer) (after : AfterAttest) :
    FailsOnly P s (s.afterAttest after) := by
  cases after <;> exact of_tasks (List.Subset.refl _)

theorem reconciled {o : TrackedOrder} {od : OrderAnswer} {trades : Option ℕ} {spent : ℕ}
    (hs : s.reconciled o od trades spent = some s')
    (h : o.side = .buy → s.finalSize? o.orderID = some 0 → P o.nullifier) : FailsOnly P s s' := by
  obtain ⟨-, m, hm, rfl⟩ | ⟨-, -, m, -, hpos, rfl⟩ | ⟨-, rfl⟩ := reconciled_cases hs
  · exact finalize s _ fun hbuy _ h0 => h hbuy (h0 ▸ hm)
  · exact finalize s _ fun _ _ h0 => absurd h0 (by omega)
  · exact refl s'

theorem cancelled {o : TrackedOrder} {od : OrderAnswer} {trades : Option ℕ} {spent : ℕ}
    (hs : s.cancelled o od trades spent = some s')
    (h : o.side = .buy → s.finalSize? o.orderID = some 0 → P o.nullifier)
    (hblind : od ≠ .terminal → trades = some 0 → o.side = .buy → o.nullifier ∉ s.finalized →
      P o.nullifier) : FailsOnly P s s' := by
  obtain ⟨-, m, hm, rfl⟩ | ⟨hod, m, rfl, rfl⟩ | ⟨-, rfl⟩ := cancelled_cases hs
  · exact finalize s _ fun hbuy _ h0 => h hbuy (h0 ▸ hm)
  · exact finalize s _ fun hbuy hopen h0 => hblind hod (h0 ▸ rfl) hbuy hopen
  · exact reconcileOne s o

theorem cancelOrdersForMarket (s : SigningLayer) (c : ℕ)
    (h : ∀ o ∈ s.byOrderId, sameMarket o.conditionId c → o.side = .buy → o.nullifier ∉ s.finalized →
      P o.nullifier) : FailsOnly P s (s.cancelOrdersForMarket c) := by
  have key : ∀ (os : List TrackedOrder) (t : SigningLayer), (∀ o ∈ os, o ∈ s.byOrderId) →
      s.finalized ⊆ t.finalized → FailsOnly P t (os.foldl (cancelForMarket c) t) := by
    intro os
    induction os with
    | nil => exact fun t _ _ => refl t
    | cons o os ih =>
      intro t hos hfin
      have hhead : FailsOnly P t (cancelForMarket c t o) := by
        unfold cancelForMarket
        split
        · exact refl t
        · rename_i hopen
          simp only [not_or, Bool.not_eq_true] at hopen
          refine finalize t _ fun hbuy hnot _ => h o (hos o List.mem_cons_self) ?_ hbuy
            fun hmem => hnot (hfin hmem)
          simpa using hopen.2
      have hgrow : s.finalized ⊆ (cancelForMarket c t o).finalized := by
        unfold cancelForMarket
        split
        · exact hfin
        · exact fun m hm => finalized_finalize t o 0 0 (hfin hm)
      exact hhead.trans (ih _ (fun o' ho' => hos o' (List.mem_cons_of_mem _ ho')) hgrow)
  exact key _ s (fun _ ho => ho) (List.Subset.refl _)

theorem mono {Q : Hex32 → Prop} (h : FailsOnly P s s') (hPQ : ∀ n, P n → Q n) :
    FailsOnly Q s s' := fun t ht => (h t ht).imp_right fun hP n hn => hPQ n (hP n hn)

end FailsOnly

/-! ### The invariant -/

/-- Every FAILED that is stored or being signed is of a sealed bet. -/
structure FailedSealed (s : SigningLayer) : Prop where
  linked : Linked s
  single : SingleBuy s
  /-- The BUY the listener awaits is the only one of its bet that was not refused. -/
  alone : ∀ e t i, s.listener = .posting e t i → ∀ (j : ℕ) (q : Post), s.posts[j]? = some q →
    j ≠ i → ¬q.OpenBuy e.nullifier
  marked : ∀ p ∈ s.posts, p.side = .buy → p.orderType = .fak → s.Marked p.nullifier
  marking : ∀ e, s.listener = .preparing e .fak → s.Marked e.nullifier
  rows : ∀ a ∈ s.attestations, a.reportType = .failed → Sealed s a.nullifierOfBet
  signing : ∀ t ∈ s.tasks, ∀ n ∈ t.failed?, Sealed s n

theorem Listener.early_lowercase {l : Listener} {m : Hex32} (h : l.early? = some m) :
    m.lowercase = true := by
  unfold Listener.early? at h
  split at h
  · exact Option.some.inj h ▸ BetAuthorizedRecord.lowercase _
  · exact Option.some.inj h ▸ BetAuthorizedRecord.lowercase _
  · exact Option.some.inj h ▸ BetAuthorizedRecord.lowercase _
  · cases h

theorem unfilled_of_open (hl : Linked s) (hn : n.lowercase)
    (h : ∀ p ∈ s.posts, p.OpenBuy n → p.unfilled) : Unfilled s.posts n := by
  intro p hp hbuy hbytes
  by_cases hrefused : p.state = .refused
  · exact Post.unfilled_of_refused hrefused
  · exact h p hp ⟨hbuy, Hex32.lowercase_inj (hl.buys p hp hbuy) hn hbytes, hrefused⟩

theorem Sealed.congr (h : Sealed s n) (hposts : s'.posts = s.posts)
    (hl : s'.listener = s.listener) : Sealed s' n :=
  ⟨hposts ▸ h.orders, hl ▸ h.listener⟩

theorem unfilled_of_finalSize (hl : Linked s) {id : OrderId} (h : s.finalSize? id = some 0)
    {p : Post} (hp : p ∈ s.posts) (hid : p.orderID? = some id) : p.unfilled := by
  unfold finalSize? postOf at h
  obtain ⟨q, hq, hsize⟩ := Option.bind_eq_some_iff.mp h
  obtain rfl := hl.ids.eq hp (List.mem_of_find?_eq_some hq) hid (by simpa using List.find?_some hq)
  split at hsize
  · rename_i hstate
    exact Post.unfilled_of_matched hstate (by simpa [Post.matched, hstate] using hsize)
  · cases hsize

namespace FailedSealed

/-- The one order of a bet tells that the bet is sealed. -/
theorem sealed_of_order (h : FailedSealed s) {id : OrderId} (hk : Placed s.posts n .buy id)
    (hun : ∀ p ∈ s.posts, p.orderID? = some id → p.unfilled) : Sealed s n := by
  obtain ⟨p, hp, hid, hn, hbuy⟩ := hk
  have hopen : p.OpenBuy n := ⟨hbuy, hn, fun href => by simp [Post.orderID?, href] at hid⟩
  have hlower : n.lowercase = true := hn ▸ h.linked.buys p hp hbuy
  refine ⟨unfilled_of_open h.linked hlower fun q hq hqopen => ?_, fun m hm hbytes => ?_⟩
  · rw [h.single.eq hq hp hqopen hopen]
    exact hun p hp hid
  · obtain rfl := Hex32.lowercase_inj (Listener.early_lowercase hm) hlower hbytes
    exact h.single.early m hm p hp hopen

theorem sealed_of_tracked (h : FailedSealed s) {o : TrackedOrder} (hk : o.Known s.posts)
    (hbuy : o.side = .buy) (hun : OrderUnfilled s o) : Sealed s o.nullifier :=
  h.sealed_of_order (hbuy ▸ hk) hun

theorem unfilled_of_early (h : FailedSealed s) (hn : s.listener.early? = some n) :
    Unfilled s.posts n :=
  unfilled_of_open h.linked (Listener.early_lowercase hn) fun p hp hopen =>
    absurd hopen (h.single.early n hn p hp)

/-- The order whose response the listener has tells that the bet's orders are unfilled. -/
theorem unfilled_of_response (h : FailedSealed s) {e : BetAuthorizedEvent} {t : OrderType} {i : ℕ}
    {p : Post} (hl : s.listener = .posting e t i) (hp : s.posts[i]? = some p) (hun : p.unfilled) :
    Unfilled s.posts e.nullifier := by
  refine unfilled_of_open h.linked e.lowercase fun q hq hopen => ?_
  obtain ⟨j, hj⟩ := List.mem_iff_getElem?.mp hq
  by_cases hij : j = i
  · subst hij
    obtain rfl := Option.some.inj (hj.symm.trans hp)
    exact hun
  · exact absurd hopen (h.alone e t i hl j q hj hij)

end FailedSealed

/-! ### What each procedure signs FAILED for -/

theorem FailsOnly.quiet {t u : SigningLayer} (hf : FailsOnly (Sealed s) s u) (hq : Quiet t u)
    (hposts : t.posts = s.posts) (hl : t.listener = s.listener) : FailsOnly (Sealed u) s u :=
  hf.mono fun _ hn => hn.congr (hq.posts.trans hposts) (hq.listener.trans hl)

namespace FailedSealed

theorem failsOnly_confirmed (h : FailedSealed s) {r : BetAuthorizedRecord}
    (resolved : Option RegistryHit) (hl : s.listener = .confirming r) :
    FailsOnly (Sealed (s.confirmed r resolved)) s (s.confirmed r resolved) := by
  unfold SigningLayer.confirmed
  split
  · exact .of_tasks (List.Subset.refl _)
  · unfold processBetEvent
    split
    · -- The token was refused before anything was POSTed.
      refine FailsOnly.attestFailedFor (s.setInFlight r.nullifier) .listener
        ⟨?_, fun m hm => by cases hm⟩
      have hun := h.unfilled_of_early (n := r.nullifier) (by rw [hl]; rfl)
      have hq := Quiet.attestFailedFor (s.setInFlight r.nullifier) r.nullifier .listener
      intro p hp
      exact hun p (hq.posts ▸ hp)
    · exact .of_tasks (List.Subset.refl _)

theorem failsOnly_funded (h : FailedSealed s) {e : BetAuthorizedEvent} {t : OrderType} (ok : Bool)
    (hl : s.listener = .funding e t) :
    FailsOnly (Sealed (s.funded e t ok)) s (s.funded e t ok) := by
  unfold SigningLayer.funded
  split
  · split
    · refine .of_tasks ?_
      unfold markMarketSubmitting
      split <;> exact List.Subset.refl _
    · exact .of_tasks (List.Subset.refl _)
  · refine FailsOnly.attestFailedFor s .listener ⟨?_, fun m hm => by cases hm⟩
    have hun := h.unfilled_of_early (n := e.nullifier) (by rw [hl]; rfl)
    intro p hp
    exact hun p ((Quiet.attestFailedFor s e.nullifier .listener).posts ▸ hp)

theorem failsOnly_fakResponded (h : FailedSealed s) {e : BetAuthorizedEvent} {i : ℕ} {p : Post}
    {resp : Option ClobResponse} (hl : s.listener = .posting e .fak i)
    (hp : s.posts[i]? = some p) (hc : s.listener.MissedTruly s resp) :
    FailsOnly (Sealed (s.fakResponded e p.size resp)) s (s.fakResponded e p.size resp) := by
  cases resp with
  | none => exact .of_tasks (List.Subset.refl _)
  | some resp =>
    rw [hl] at hc
    have hrec : FailsOnly (fun _ => False) s (s.recordOrderId e.nullifier resp.orderID)
        ∧ (s.recordOrderId e.nullifier resp.orderID).posts = s.posts := by
      cases resp.orderID <;> exact ⟨.of_tasks (List.Subset.refl _), rfl⟩
    simp only [SigningLayer.fakResponded]
    split
    case isTrue => exact hrec.1.mono fun _ hf => hf.elim
    case isFalse hmiss =>
      refine (hrec.1.mono fun _ hf => hf.elim).trans ?_
      refine FailsOnly.attestTerminal _ _ _ fun _ h0 => ⟨?_, fun m hm => by cases hm⟩
      have hexplicit : resp.explicitMiss = true := by simpa [h0] using hmiss
      have hfails : resp.fails .fak = true := by simp [ClobResponse.fails, h0, hexplicit]
      have hun := h.unfilled_of_response hl hp (hc _ rfl hfails _ hp)
      intro q hq
      exact hun q (hrec.2 ▸ (Quiet.attestTerminal _ _ _ _ _).posts ▸ hq)

theorem failsOnly_limitResponded (h : FailedSealed s) {e : BetAuthorizedEvent} {t : OrderType}
    {i : ℕ} {p : Post} {resp : Option ClobResponse} (ht : t ≠ .fak)
    (hl : s.listener = .posting e t i) (hp : s.posts[i]? = some p)
    (hc : s.listener.MissedTruly s resp) :
    FailsOnly (Sealed (s.limitResponded e t resp)) s (s.limitResponded e t resp) := by
  rw [hl] at hc
  unfold SigningLayer.limitResponded
  split
  · exact .of_tasks (List.Subset.refl _)
  · rename_i resp
    split
    · rename_i hid
      split
      · exact .of_tasks (List.Subset.refl _)
      · rename_i hacc
        refine FailsOnly.attestFailedFor s .listener ⟨?_, fun m hm => by cases hm⟩
        have hfails : resp.fails t = true := by
          cases t with
          | fak => exact absurd rfl ht
          | _ => simp [ClobResponse.fails, hid, hacc]
        have hun := h.unfilled_of_response hl hp (hc _ rfl hfails _ hp)
        intro q hq
        exact hun q ((Quiet.attestFailedFor s e.nullifier .listener).posts ▸ hq)
    · split
      · exact .of_tasks (List.Subset.refl _)
      · exact (FailsOnly.trackOrder s _).trans (.of_tasks (List.Subset.refl _))

theorem failsOnly_cancelBet (h : FailedSealed s) (hc : FailsSafely s (.cancelBet n)) :
    FailsOnly (Sealed s) s (s.cancelBet n) := by
  unfold SigningLayer.cancelBet
  split_ifs with hatt htracked hactive
  · exact .refl s
  · exact .spawn s fun m hm => by cases hm
  · exact .refl s
  · split
    · exact .spawn s fun m hm => by cases hm
    · rename_i hnone
      refine .attestFailedFor s .done ?_
      have hknow : KnowsNothing s n := ⟨Bool.eq_false_of_not_eq_true hatt,
        Bool.eq_false_of_not_eq_true htracked, Bool.eq_false_of_not_eq_true hactive,
        by simp [hnone]⟩
      obtain ⟨horders, havoid⟩ := hc hknow
      refine ⟨fun p hp hbuy hbytes => ?_, havoid⟩
      by_cases hcase : p.orderType ≠ .fak ∨ n.lowercase = false
      · exact Post.unfilled_of_refused (horders p hp hbuy hbytes hcase)
      · -- A market order of this spelling left a marker.
        simp only [not_or, not_not, Bool.not_eq_false] at hcase
        have hn := Hex32.lowercase_inj (h.linked.buys p hp hbuy) hcase.2 hbytes
        have hmark := (h.marked p hp hbuy hcase.1).getMarketSubmission
        rw [hn, hnone] at hmark
        cases hmark

/-- A cancelled or purged order has left the book, and a complete history tells its size. -/
theorem orderUnfilled_of_shown (hl : Linked s) {o : TrackedOrder} {canceled : Bool}
    {od : OrderAnswer} (htrue : s.answersTruly o canceled od (some 0))
    (hgone : canceled = true ∨ od = .purged) (hall : ShowsAll s o (some 0)) :
    OrderUnfilled s o := by
  simp only [answersTruly, Bool.decide_and, Bool.and_eq_true, decide_eq_true_eq] at htrue
  obtain ⟨m, hm⟩ := Option.isSome_iff_exists.mp (htrue.1 hgone)
  intro p hp hid
  obtain rfl : m = 0 := by
    have hzero := hall p hp hid
    unfold finalSize? postOf at hm
    obtain ⟨q, hq, hsize⟩ := Option.bind_eq_some_iff.mp hm
    obtain rfl := hl.ids.eq hp (List.mem_of_find?_eq_some hq) hid
      (by simpa using List.find?_some hq)
    split at hsize
    · rename_i hstate
      rw [Post.matched, hstate] at hzero
      exact (Option.some.inj hsize).symm.trans (Option.some.inj hzero).symm
    · cases hsize
  exact unfilled_of_finalSize hl hm hp hid

theorem failsOnly_cancelled (h : FailedSealed s) {i : ℕ} {o : TrackedOrder} {canceled : Bool}
    {od : OrderAnswer} {trades : Option ℕ} {spent : ℕ} (ht : s.tasks[i]? = some (.cancelling o))
    (hc : Task.CancelsSafely s canceled od trades (.cancelling o))
    (htrue : s.answersTruly o canceled od trades)
    (hs : (s.dropTask i).cancelled o od trades spent = some s') :
    FailsOnly (Sealed s) s s' := by
  have hk : o.Known s.posts := h.linked.task ht o rfl
  refine (FailsOnly.dropTask s i).trans (.cancelled hs ?_ ?_)
  · intro hbuy h0
    exact h.sealed_of_tracked hk hbuy fun p hp hid => unfilled_of_finalSize h.linked h0 hp hid
  · intro hod htrades hbuy hopen
    obtain ⟨hgone, hall⟩ := hc hod htrades hbuy hopen
    subst htrades
    exact h.sealed_of_tracked hk hbuy (orderUnfilled_of_shown h.linked htrue hgone hall)

theorem failsOnly_reconciled (h : FailedSealed s) {i : ℕ} {o : TrackedOrder} {od : OrderAnswer}
    {trades : Option ℕ} {spent : ℕ} (ht : s.tasks[i]? = some (.reconciling o))
    (hs : (s.dropTask i).reconciled o od trades spent = some s') :
    FailsOnly (Sealed s) s s' := by
  have hk : o.Known s.posts := h.linked.task ht o rfl
  refine (FailsOnly.dropTask s i).trans (.reconciled hs ?_)
  intro hbuy h0
  exact h.sealed_of_tracked hk hbuy fun p hp hid => unfilled_of_finalSize h.linked h0 hp hid

theorem failsOnly_marketClient {i : ℕ} {sub : MarketSubmission} (client : Bool)
    (hc : Task.AgesSafely s (.marketClient n sub)) :
    FailsOnly (Sealed s) s ((s.dropTask i).reconcileMarketSubmission n sub client) := by
  refine (FailsOnly.dropTask s i).trans ?_
  unfold SigningLayer.reconcileMarketSubmission
  split
  · exact .refl _
  · rename_i hatt
    split
    · rename_i hid
      split
      · rename_i hage
        obtain ⟨horders, havoid⟩ := hc ⟨Bool.eq_false_of_not_eq_true hatt, hid, hage⟩
        refine .attestFailedFor _ .done ⟨fun p hp hbuy hbytes => ?_, havoid⟩
        exact Post.unfilled_of_refused (horders p hp hbuy hbytes)
      · exact .refl _
    · split
      · exact .spawn _ fun m hm => by cases hm
      · exact .refl _

theorem failsOnly_marketQueried (h : FailedSealed s) {i : ℕ} {id : OrderId} {od : OrderAnswer}
    {spent : ℕ} (ht : s.tasks[i]? = some (.marketQuery n id))
    (hs : (s.dropTask i).marketQueried n id od spent = some s') :
    FailsOnly (Sealed s) s s' := by
  refine (FailsOnly.dropTask s i).trans ?_
  have hplaced : Placed s.posts n .buy id := h.linked.task ht
  unfold SigningLayer.marketQueried at hs
  split at hs
  · obtain ⟨m, hm, rfl⟩ := Option.map_eq_some_iff.mp hs
    refine .attestTerminal _ _ _ fun _ h0 => h.sealed_of_order hplaced fun p hp hid => ?_
    exact unfilled_of_finalSize h.linked (h0 ▸ hm) hp hid
  · cases hs
    exact .refl _

theorem failsOnly_handleOne (h : FailedSealed s) {i : ℕ} {p : Post} {id : OrderId}
    {taken made : ℕ} {withOrderID withAssetId withSize : Bool} (hp : s.posts[i]? = some p)
    (hstate : p.state = .book id false taken made)
    (hc : FailsSafely s (.message i withOrderID withAssetId withSize)) :
    FailsOnly (Sealed s) s (s.handleOne (p.message withOrderID withAssetId withSize)) := by
  unfold SigningLayer.handleOne
  split
  · rename_i o ho
    have hk := h.linked.byOrderId o (findTracked_mem ho)
    refine .finalize s _ fun hbuy hopen h0 => h.sealed_of_tracked hk hbuy ?_
    have hcase : withSize = false ∨ p.matched = 0 := by
      cases withSize with
      | false => exact .inl rfl
      | true => exact .inr (by simpa [extractFill, Post.message] using h0)
    -- The message tells the size of this very order.
    obtain ⟨hsize, hid⟩ := hc p hp o ho hcase hbuy hopen
    have hmatched : p.matched = 0 := by simpa [hsize] using hcase
    intro q hq hqid
    rw [h.linked.ids.eq hq (List.mem_of_getElem? hp) hqid hid]
    exact Post.unfilled_of_matched hstate hmatched
  · exact .refl s

end FailedSealed

/-- A step signs FAILED only for bets that are sealed after it. -/
theorem failsOnly_step {a : Action} (h : FailedSealed s) (hc : FailsSafely s a)
    (hs : machine.step s a = some s') : FailsOnly (Sealed s') s s' := by
  have hdrop : ∀ {P : Hex32 → Prop} {i : ℕ} {u : SigningLayer}, FailsOnly P (s.dropTask i) u →
      FailsOnly P s u := fun hf => (FailsOnly.dropTask s _).trans hf
  cases steps_of_step hs with
  | handleBetRecord =>
    rw [handleBetRecord_eq]
    split <;> exact .of_tasks (List.Subset.refl _)
  | @confirmed r resolved hl => exact h.failsOnly_confirmed resolved hl
  | confirmThrew => exact .of_tasks (List.Subset.refl _)
  | @funded e t ok hl => exact h.failsOnly_funded ok hl
  | prepared =>
    unfold SigningLayer.prepared
    split <;> exact .of_tasks (List.Subset.refl _)
  | fakResponded hl hp => exact h.failsOnly_fakResponded hl hp hc
  | limitResponded ht hl hp => exact h.failsOnly_limitResponded ht hl hp hc
  | crossed =>
    unfold SigningLayer.crossed
    split
    · exact .of_tasks (List.Subset.refl _)
    · exact (FailsOnly.trackOrder s _).trans (.of_tasks (List.Subset.refl _))
  | limitOrder => exact .of_tasks (List.Subset.refl _)
  | cancelBet => exact (h.failsOnly_cancelBet hc).quiet (Quiet.cancelBet s _) rfl rfl
  | @closeRequest req t =>
    unfold SigningLayer.closeRequest
    split_ifs
    · exact .refl s
    · exact .refl s
    · exact .refl s
    · exact .spawn s fun m hm => by cases hm
  | @signed i input after signature =>
    have h₁ : FailsOnly
        (Sealed (((s.dropTask i).insertAttestation input signature).afterAttest after))
        s ((s.dropTask i).insertAttestation input signature) := .of_tasks List.eraseIdx_subset
    exact h₁.trans (.afterAttest _ after)
  | @signThrew i input after => exact hdrop (.afterAttest _ after)
  | @attested i after => exact hdrop (.afterAttest _ after)
  | @cancelClient i n client => exact hdrop (.cancelTrackedOrder _ n client)
  | cancelled ht htrue hcan =>
    exact (h.failsOnly_cancelled ht (hc _ ht) htrue hcan).quiet (Quiet.cancelled hcan) rfl rfl
  | reconciled ht _ hrec =>
    exact (h.failsOnly_reconciled ht hrec).quiet (Quiet.reconciled hrec) rfl rfl
  | @marketClient i n sub client ht =>
    have hq := Quiet.reconcileMarketSubmission (s.dropTask i) n sub client
    exact (FailedSealed.failsOnly_marketClient client (hc _ ht)).quiet hq rfl rfl
  | marketQueried ht hquery =>
    exact (h.failsOnly_marketQueried ht hquery).quiet (Quiet.marketQueried hquery) rfl rfl
  | @sell i req t client resolved bestBid =>
    rcases Quiet.sell (s.dropTask i) req t client resolved bestBid with heq | ⟨hit, -, heq⟩
    · rw [heq]
      exact .dropTask s i
    · rw [heq]
      refine hdrop (FailsOnly.trans (.of_tasks (List.Subset.refl _)) (.spawn _ fun m hm => ?_))
      cases hm
  | sellThrew => exact .dropTask s _
  | marketSold =>
    unfold SigningLayer.marketSold
    exact hdrop (.attestTerminal _ _ _ fun hbuy => by cases hbuy)
  | @limitSellResponded i =>
    refine hdrop (i := i) ?_
    unfold SigningLayer.limitSellResponded
    split
    · exact .refl _
    · split
      · exact .spawn _ fun m hm => by cases hm
      · exact .trackOrder _ _
  | sellCrossed => exact hdrop (.trackOrder _ _)
  | sellCrossThrew => exact .dropTask s _
  | message hp hstate =>
    exact (h.failsOnly_handleOne hp hstate hc).quiet (Quiet.handleOne s _) rfl rfl
  | reconcile => exact .reconcileOne s _
  | @marketResolved c =>
    refine FailsOnly.quiet (.cancelOrdersForMarket s c ?_) (Quiet.cancelOrdersForMarket s c) rfl rfl
    intro o ho hmarket hbuy hopen
    exact absurd (hc o ho hmarket hbuy) hopen
  | restart =>
    refine .of_tasks ?_
    rw [tasks_restart]
    exact List.nil_subset _
  | clob => exact .of_tasks (List.Subset.refl _)
  | authorizeBet => exact .of_tasks (List.Subset.refl _)
  | setBetStatus => exact .of_tasks (List.Subset.refl _)
  | tick => exact .of_tasks (List.Subset.refl _)

namespace FailedSealed

theorem initial : FailedSealed .initial where
  linked := .initial
  single := .initial
  alone := fun e t i hl => by cases hl
  marked := fun p hp => absurd hp List.not_mem_nil
  marking := fun e hl => by cases hl
  rows := fun a ha => absurd ha List.not_mem_nil
  signing := fun t ht => absurd ht List.not_mem_nil

/-- A FAILED that is stored or being signed keeps the bet from being picked up. -/
theorem sealed_step {a : Action} (h : FailedSealed s) (hc : FailsSafely s a)
    (hs : machine.step s a = some s')
    (hn : (∃ r ∈ s.attestations, r.reportType = .failed ∧ r.nullifierOfBet = n) ∨
      ∃ t ∈ s.tasks, n ∈ t.failed?) : Sealed s' n := by
  have hsealed : Sealed s n := by
    rcases hn with ⟨r, hr, hfailed, rfl⟩ | ⟨t, ht, hn⟩
    · exact h.rows r hr hfailed
    · exact h.signing t ht n hn
  refine hsealed.step hs fun r ha htake => ?_
  subst ha
  obtain ⟨-, hsigning, hrows⟩ := hc htake
  rcases hn with ⟨row, hr, hfailed, rfl⟩ | ⟨t, ht, hn⟩
  · exact hrows row hr hfailed
  · exact hsigning t ht n hn

theorem alone_step {a : Action} (h : FailedSealed s) (hs : machine.step s a = some s')
    {e : BetAuthorizedEvent} {t : OrderType} {i : ℕ} (hl' : s'.listener = .posting e t i) {j : ℕ}
    {q : Post} (hq : s'.posts[j]? = some q) (hji : j ≠ i) : ¬q.OpenBuy e.nullifier := by
  intro hopen
  -- The order was there before, apart from the one POSTed now.
  have hold : ∃ q', s.posts[j]? = some q' ∧ q'.OpenBuy e.nullifier := by
    cases bookStep hs with
    | same hposts => exact ⟨q, hposts ▸ hq, hopen⟩
    | @buy e' t' size hl hpost hposts =>
      obtain ⟨-, -, rfl⟩ := Listener.posting.inj (hpost.symm.trans hl')
      rw [hposts, List.getElem?_append] at hq
      split at hq
      · exact ⟨q, hq, hopen⟩
      · obtain ⟨hlt, -⟩ := List.getElem?_eq_some_iff.mp hq
        simp only [List.length_singleton] at hlt
        omega
    | @sell p hside _ _ hposts _ =>
      rw [hposts, List.getElem?_append] at hq
      split at hq
      · exact ⟨q, hq, hopen⟩
      · have hbuy := hopen.1
        rw [List.mem_singleton.mp (List.mem_of_getElem? hq), hside] at hbuy
        cases hbuy
    | @move k p state hp hm _ hposts =>
      rw [hposts] at hq
      rcases getElem?_setPost hp hq with ⟨rfl, rfl⟩ | ⟨-, hq⟩
      · exact ⟨p, hp, hm.openBuy hopen⟩
      · exact ⟨q, hq, hopen⟩
  obtain ⟨q', hq', hopen'⟩ := hold
  cases listenerStep hs with
  | stay hstay => exact h.alone e t i (hstay ▸ hl') j q' hq' hji hopen'
  | leave _ hpost => exact hpost e t i hl'
  | takeUp _ _ hs' =>
    rw [hs'] at hl'
    cases hl'
  | confirm _ hfund =>
    rw [hfund] at hl'
    cases hl'
  | fund _ hprep =>
    rw [hprep] at hl'
    cases hl'
  | post hl hpost =>
    obtain ⟨rfl, rfl, rfl⟩ := Listener.posting.inj (hpost.symm.trans hl')
    exact h.single.early _ (by rw [hl]; rfl) q' (List.mem_of_getElem? hq') hopen'

theorem marked_post_step {a : Action} (h : FailedSealed s) (hs : machine.step s a = some s')
    {p : Post} (hp : p ∈ s'.posts) (hbuy : p.side = .buy) (hfak : p.orderType = .fak) :
    s'.Marked p.nullifier := by
  refine marked_step ?_ hs
  cases bookStep hs with
  | same hposts => exact h.marked p (hposts ▸ hp) hbuy hfak
  | @buy e t size hl _ hposts =>
    rw [hposts] at hp
    rcases List.mem_append.mp hp with hp | hp
    · exact h.marked p hp hbuy hfak
    · obtain rfl := List.mem_singleton.mp hp
      obtain rfl : t = .fak := hfak
      exact h.marking e hl
  | sell hside _ _ hposts _ =>
    rw [hposts] at hp
    rcases List.mem_append.mp hp with hp | hp
    · exact h.marked p hp hbuy hfak
    · rw [List.mem_singleton.mp hp, hside] at hbuy
      cases hbuy
  | @move i q state hq hm _ hposts =>
    rw [hposts] at hp
    rcases List.mem_or_eq_of_mem_set hp with hp | rfl
    · exact h.marked p hp hbuy hfak
    · exact h.marked q (List.mem_of_getElem? hq) hbuy hfak

theorem step {a : Action} (h : FailedSealed s) (hc : FailsSafely s a)
    (hs : machine.step s a = some s') : FailedSealed s' where
  linked := h.linked.step hs
  single := by
    refine h.single.step hs fun r ha htake => ?_
    subst ha
    exact (hc htake).1
  alone := fun e t i hl' j q hq hji => h.alone_step hs hl' hq hji
  marked := fun p hp hbuy hfak => h.marked_post_step hs hp hbuy hfak
  marking := fun e hl' => marking_step h.marking hs hl'
  rows := by
    intro row hrow hfailed
    refine h.sealed_step hc hs ?_
    cases recordStep hs with
    | signed _ ht hrows _ =>
      rcases mem_insertRow (hrows ▸ hrow) with hrow | ⟨rfl, -⟩
      · exact .inl ⟨row, hrow, hfailed, rfl⟩
      · exact .inr ⟨_, List.mem_of_getElem? ht, by simp [Task.failed?, hfailed]⟩
    | same hrows _ => exact .inl ⟨row, hrows ▸ hrow, hfailed, rfl⟩
    | authorize _ hrows _ => exact .inl ⟨row, hrows ▸ hrow, hfailed, rfl⟩
    | setStatus _ hrows _ => exact .inl ⟨row, hrows ▸ hrow, hfailed, rfl⟩
  signing := by
    intro t ht n hn
    rcases failsOnly_step h hc hs t ht with ht | hsealed
    · exact h.sealed_step hc hs (.inr ⟨t, ht, hn⟩)
    · exact hsealed n hn

theorem of_run (h : machine.Run FailsSafely .initial s) : FailedSealed s :=
  h.invariant .initial fun _ _ _ hi hc hs => hi.step hc hs

end FailedSealed

/-- No BUY ever POSTed for a bet with a FAILED has a fill, if FAILED is only signed safely. -/
theorem failed_without_fill (h : machine.Run FailsSafely .initial s) {row : Attestation}
    (hrow : row ∈ s.attestations) (hfailed : row.reportType = .failed) {p : Post}
    (hp : p ∈ s.posts) (hbuy : p.side = .buy)
    (hbet : p.nullifier.bytes32 = row.nullifierOfBet.bytes32) : p.matched = 0 :=
  Post.matched_of_unfilled (((FailedSealed.of_run h).rows row hrow hfailed).orders p hp hbuy hbet)

instance (l : Listener) (n : Hex32) : Decidable (l.Avoids n) :=
  inferInstanceAs (Decidable (∀ m ∈ l.early?, m.bytes32 ≠ n.bytes32))

instance (posts : List Post) (n : Hex32) : Decidable (NeverTaken posts n) :=
  inferInstanceAs (Decidable (∀ p ∈ posts, _))

instance (s : SigningLayer) (n : Hex32) : Decidable (KnowsNothing s n) :=
  inferInstanceAs (Decidable (_ ∧ _))

instance (s : SigningLayer) (n : Hex32) (sub : MarketSubmission) : Decidable (GoesByAge s n sub) :=
  inferInstanceAs (Decidable (_ ∧ _))

instance (s : SigningLayer) (o : TrackedOrder) (trades : Option ℕ) :
    Decidable (ShowsAll s o trades) := inferInstanceAs (Decidable (∀ p ∈ s.posts, _))

instance (s : SigningLayer) (resp : Option ClobResponse) (l : Listener) :
    Decidable (l.MissedTruly s resp) := by
  unfold Listener.MissedTruly
  split <;> infer_instance

instance (s : SigningLayer) (t : Task) : Decidable (t.AgesSafely s) := by
  unfold Task.AgesSafely
  split <;> infer_instance

instance (s : SigningLayer) (canceled : Bool) (od : OrderAnswer) (trades : Option ℕ) (t : Task) :
    Decidable (t.CancelsSafely s canceled od trades) := by
  unfold Task.CancelsSafely
  split <;> infer_instance

instance (s : SigningLayer) (a : Action) : Decidable (FailsSafely s a) := by
  induction a using Action.casesOn <;> dsimp only [FailsSafely] <;> infer_instance

/-- A resting order is cancelled by the user and leaves the book without a fill. -/
def cancelledUnfilled : List Action :=
  .authorizeBet sampleChainBet :: submitSample .gtc
    ++ [.clobAccept 0 7 true 0, .responded (some ⟨some 7, .live, false, 0, false, false⟩),
      .cancelBet sampleBet, .cancelClient 1 true, .clobClose 0,
      .cancelled 1 true .terminal (some 0) 0,
      .signed 1 (some "failed"), .handleBetRecord sampleLog]

theorem failed_without_fill_cancelled_order :
    ∃ s, machine.Run FailsSafely .initial s ∧ ∃ row ∈ s.attestations, ∃ p ∈ s.posts,
      row.reportType = .failed ∧ p.side = .buy ∧ p.nullifier.bytes32 = row.nullifierOfBet.bytes32
        ∧ p.matched = 0 := by
  have hrun : ((machine.checkFrom FailsSafely .initial cancelledUnfilled).map
      fun s => (s.attestations, s.posts)) = some ([⟨⟨sampleBet, .failed, 0, 0⟩, "failed"⟩],
        [⟨sampleBet, .buy, .gtc, 1000000, 1, .book 7 false 0 0⟩]) := by
    decide +kernel
  obtain ⟨s, hs, heq⟩ := Option.map_eq_some_iff.mp hrun
  obtain ⟨hrows, hposts⟩ := Prod.mk.inj heq
  have h := Machine.run_of_checkFrom hs
  have hrow := hrows ▸ List.mem_singleton_self _
  have hp := hposts ▸ List.mem_singleton_self _
  exact ⟨s, h, _, hrow, _, hp, rfl, rfl, rfl, failed_without_fill h hrow rfl hp rfl rfl⟩

/-- The CLOB takes a resting order but its response carries no id, so that nothing records it. Two
minutes later `/cancel-bet` signs FAILED, and the order fills. -/
def cancelledUntracked : List Action :=
  .authorizeBet sampleChainBet :: submitSample .gtc
    ++ [.clobAccept 0 7 true 0, .responded (some ⟨none, .live, false, 0, false, false⟩),
      .tick 120000, .cancelBet sampleBet, .signed 0 (some "failed"), .clobFill 0 1000000 true]

theorem failed_with_fill_untracked_order :
    ¬∀ acts s, machine.runFrom .initial acts = some s → ∀ row ∈ s.attestations,
      row.reportType = .failed → ∀ p ∈ s.posts, p.side = .buy →
        p.nullifier.bytes32 = row.nullifierOfBet.bytes32 → p.matched = 0 := by
  intro h
  have hrun : ((machine.runFrom .initial cancelledUntracked).map
      fun s => (s.attestations, s.posts)) = some ([⟨⟨sampleBet, .failed, 0, 0⟩, "failed"⟩],
        [⟨sampleBet, .buy, .gtc, 1000000, 1, .book 7 true 0 1000000⟩]) := by
    decide +kernel
  obtain ⟨s, hs, heq⟩ := Option.map_eq_some_iff.mp hrun
  obtain ⟨hrows, hposts⟩ := Prod.mk.inj heq
  have hzero := h _ s hs _ (hrows ▸ List.mem_singleton_self _) rfl _
    (hposts ▸ List.mem_singleton_self _) rfl rfl
  exact absurd hzero (by decide)

end Polyshield.Signing

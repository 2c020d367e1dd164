import Polyshield.Signing.FailedBets

/-!
# The shares behind a SELL

The deposit wallet holds the shares of all bets together, so what a close may
sell is only known from the bet's own outcome. A close request does not look at
it. Once a request is within what its bet holds and has not committed to other
SELLs (`SellsSafely`), every later stage of it is: the POST, the tracked order,
and the SOLD that is signed for its fill.
-/

namespace Polyshield.Signing

open SigningLayer

/-- The bet is on the chain and not paid out, has not failed, and its outcome gives it this many
shares. -/
def Holds (s : SigningLayer) (bet k : ℕ) : Prop :=
  (∀ row ∈ s.attestations, row.reportType = .failed → row.nullifierOfBet.bytes32 ≠ bet)
    ∧ ∃ b ∈ s.bets, b.nullifier = bet ∧ b.terminallyCredited = false
      ∧ ∃ row ∈ s.attestations, row.nullifierOfBet.bytes32 = bet
        ∧ (row.reportType = .filled ∧ k ≤ b.expectedShares
          ∨ row.reportType = .partialFill ∧ k ≤ row.amountA)

/-- The shares of the bet a suspended procedure is about to sell. -/
def Task.committed (bet : ℕ) : Task → ℕ
  | .selling req _ => if req.nullifierOfBet.bytes32 = bet then req.soldShares else 0
  | _ => 0

/-- The shares of the bet that the order has sold or can still sell. -/
def Post.committed (bet : ℕ) (p : Post) : ℕ :=
  if p.side = .sell ∧ p.nullifier.bytes32 = bet then
    match p.state with
    | .sent | .book _ true _ _ => p.size
    | .refused => 0
    | .book _ false taken made => taken + made
  else 0

def committed (s : SigningLayer) (bet : ℕ) : ℕ :=
  (s.tasks.map (Task.committed bet)).sum + (s.posts.map (Post.committed bet)).sum

/-- The bet and the size a tracked order sells. -/
def TrackedOrder.closes? (o : TrackedOrder) : Option (Hex32 × ℕ) :=
  if o.side = .sell then some (o.nullifier, o.expectedShares) else none

/-- The bet and the size a suspended procedure sells or attests as sold. -/
def Task.closes? : Task → Option (Hex32 × ℕ)
  | .selling req _ | .sellPosted req _ _ _ _ _ | .sellFee req _ _ _ _ =>
    some (req.nullifierOfBet, req.soldShares)
  | .signing input _ =>
    if input.reportType = .sold then some (input.nullifierOfBet, input.amountA) else none
  | .cancelling o | .reconciling o => o.closes?
  | _ => none

def Closing (s : SigningLayer) (bet : ℕ) : Prop :=
  (∃ t ∈ s.tasks, ∃ c ∈ t.closes?, c.1.bytes32 = bet)
    ∨ ∃ o ∈ s.byOrderId ++ s.trackedOrders, ∃ c ∈ o.closes?, c.1.bytes32 = bet

/-- The checks a close request passes. -/
def GoesOn (s : SigningLayer) (req : CloseRequest) (t : OrderType) : Prop :=
  ¬(req.soldShares = 0 ∨ req.limitPrice = 0 ∨ 1000000 < req.limitPrice)
    ∧ (getAttestation s.attestations req.nullifierOfBet (some .sold)).isSome = false
    ∧ ¬(t ≠ .fak ∧ s.isOrderTracked req.nullifierOfBet = true)

/-- A request is within what its bet holds beyond its other SELLs, and while a SELL of a bet is
under way the bet is neither attested FAILED nor paid out. -/
def SellsSafely (s : SigningLayer) : Action → Prop
  | .closeRequest req t =>
    GoesOn s req t → Holds s req.nullifierOfBet.bytes32
      (committed s req.nullifierOfBet.bytes32 + req.soldShares)
  | .signed i (some _) => ∀ t ∈ s.tasks[i]?, ∀ n ∈ t.failed?, ¬Closing s n.bytes32
  | .setBetStatus n status =>
    ∀ b ∈ s.bets, b.nullifier = n → ({ b with status } : ChainBet).terminallyCredited = true →
      ¬Closing s n
  | _ => True

/-- The step signs SOLD for this many shares of the bet. -/
def SignsSold (s : SigningLayer) (a : Action) (bet k : ℕ) : Prop :=
  ∃ i signature input after, a = .signed i (some signature)
    ∧ s.tasks[i]? = some (.signing input after) ∧ input.reportType = .sold
    ∧ input.nullifierOfBet.bytes32 = bet ∧ input.amountA = k

/-- A SOLD is within what the bet holds, and so are its SELLs together when one is POSTed. -/
def SellBacked (s : SigningLayer) (a : Action) (s' : SigningLayer) : Prop :=
  (∀ bet k, SignsSold s a bet k → Holds s bet k)
    ∧ ∀ p, s'.posts = s.posts ++ [p] → p.side = .sell →
        Holds s p.nullifier.bytes32 (committed s' p.nullifier.bytes32)

variable {s s' : SigningLayer} {bet k : ℕ}

theorem closeRequest_eq (s : SigningLayer) (req : CloseRequest) (t : OrderType)
    [Decidable (GoesOn s req t)] :
    s.closeRequest req t = if GoesOn s req t then s.spawn (.selling req t) else s := by
  by_cases h : GoesOn s req t
  · obtain ⟨hreq, hsold, htracked⟩ := h
    rw [if_pos ⟨hreq, hsold, htracked⟩]
    simp only [closeRequest, if_neg hreq, hsold, Bool.false_eq_true, if_false, if_neg htracked]
  · rw [if_neg h]
    unfold closeRequest
    split_ifs with hreq hsold htracked
    · rfl
    · rfl
    · rfl
    · exact absurd ⟨hreq, Bool.eq_false_of_not_eq_true hsold, htracked⟩ h

theorem soldShares_le (expectedShares filled : ℕ) :
    soldShares expectedShares filled ≤ expectedShares := by
  unfold soldShares
  split
  · exact le_rfl
  · omega

/-! ### What a bet holds -/

theorem Holds.mono {j : ℕ} (h : Holds s bet k) (hjk : j ≤ k) : Holds s bet j := by
  obtain ⟨hfailed, b, hb, hbet, hopen, row, hrow, hn, hshares⟩ := h
  refine ⟨hfailed, b, hb, hbet, hopen, row, hrow, hn, ?_⟩
  exact hshares.imp (fun h => ⟨h.1, hjk.trans h.2⟩) fun h => ⟨h.1, hjk.trans h.2⟩

theorem Holds.congr (h : Holds s bet k) (hrows : s'.attestations = s.attestations)
    (hbets : s'.bets = s.bets) : Holds s' bet k := by
  unfold Holds
  rw [hrows, hbets]
  exact h

/-- A bet keeps its shares until it is attested FAILED or paid out. -/
theorem Holds.step {a : Action} (h : Holds s bet k) (hclosing : Closing s bet)
    (hc : SellsSafely s a) (hs : machine.step s a = some s') : Holds s' bet k := by
  obtain ⟨hfailed, b, hb, hbet, hopen, row, hrow, hn, hshares⟩ := h
  cases recordStep hs with
  | same hrows hbets =>
    exact Holds.congr ⟨hfailed, b, hb, hbet, hopen, row, hrow, hn, hshares⟩ hrows hbets
  | @signed i input after signature ha ht hrows hbets =>
    refine ⟨fun row' hrow' hfailed' => ?_, b, hbets ▸ hb, hbet, hopen, row, ?_, hn, hshares⟩
    · rcases mem_insertRow (hrows ▸ hrow') with hrow' | ⟨rfl, -⟩
      · exact hfailed row' hrow' hfailed'
      · subst ha
        rintro rfl
        exact hc _ ht row'.nullifierOfBet (by simp [Task.failed?, hfailed']) hclosing
    · obtain ⟨more, hmore⟩ := insertRow_eq s.attestations input signature
      rw [hrows, hmore]
      exact List.mem_append_left _ hrow
  | authorize _ hrows hbets =>
    refine ⟨hrows ▸ hfailed, b, ?_, hbet, hopen, row, hrows ▸ hrow, hn, hshares⟩
    rw [hbets]
    exact List.mem_append_left _ hb
  | @setStatus n status ha hrows hbets =>
    subst ha
    by_cases hbn : b.nullifier = n
    · have hopen' : ({ b with status } : ChainBet).terminallyCredited = false := by
        refine Bool.eq_false_of_not_eq_true fun hpaid => ?_
        exact hc b hb hbn hpaid (hbn ▸ hbet ▸ hclosing)
      refine ⟨hrows ▸ hfailed, { b with status }, ?_, hbet, hopen', row, hrows ▸ hrow, hn, hshares⟩
      rw [hbets]
      exact List.mem_map.mpr ⟨b, hb, if_pos hbn⟩
    · refine ⟨hrows ▸ hfailed, b, ?_, hbet, hopen, row, hrows ▸ hrow, hn, hshares⟩
      rw [hbets]
      exact List.mem_map.mpr ⟨b, hb, if_neg hbn⟩

theorem closing_of_task {t : Task} (ht : t ∈ s.tasks) {c : Hex32 × ℕ}
    (hclose : t.closes? = some c) : Closing s c.1.bytes32 := .inl ⟨t, ht, c, hclose, rfl⟩

theorem closing_of_order {o : TrackedOrder} (ho : o ∈ s.byOrderId ++ s.trackedOrders)
    {c : Hex32 × ℕ} (hclose : o.closes? = some c) : Closing s c.1.bytes32 :=
  .inr ⟨o, ho, c, hclose, rfl⟩

/-! ### What the handlers sell -/

/-- The SELLs that are new in `s'` are in `P`, and no more waits to be sold. -/
structure SellsOnly (P : Hex32 → ℕ → Prop) (s s' : SigningLayer) : Prop where
  tasks : ∀ t ∈ s'.tasks, t ∈ s.tasks ∨ ∀ c ∈ t.closes?, P c.1 c.2
  byOrderId : ∀ o ∈ s'.byOrderId, o ∈ s.byOrderId ∨ ∀ c ∈ o.closes?, P c.1 c.2
  trackedOrders : ∀ o ∈ s'.trackedOrders, o ∈ s.trackedOrders ∨ ∀ c ∈ o.closes?, P c.1 c.2
  waiting : ∀ req t, .selling req t ∈ s'.tasks → .selling req t ∈ s.tasks
  committed : ∀ bet,
    (s'.tasks.map (Task.committed bet)).sum ≤ (s.tasks.map (Task.committed bet)).sum

namespace SellsOnly

variable {P : Hex32 → ℕ → Prop} {s'' : SigningLayer}

theorem of_subset (htasks : s'.tasks = s.tasks) (hmap : s'.byOrderId ⊆ s.byOrderId)
    (hrows : s'.trackedOrders ⊆ s.trackedOrders) : SellsOnly P s s' where
  tasks := fun _ ht => .inl (htasks ▸ ht)
  byOrderId := fun _ ho => .inl (hmap ho)
  trackedOrders := fun _ ho => .inl (hrows ho)
  waiting := fun _ _ ht => htasks ▸ ht
  committed := fun _ => by rw [htasks]

theorem refl (s : SigningLayer) : SellsOnly P s s :=
  of_subset rfl (List.Subset.refl _) (List.Subset.refl _)

theorem trans (h : SellsOnly P s s') (h' : SellsOnly P s' s'') : SellsOnly P s s'' where
  tasks := fun t ht => (h'.tasks t ht).elim (h.tasks t) .inr
  byOrderId := fun o ho => (h'.byOrderId o ho).elim (h.byOrderId o) .inr
  trackedOrders := fun o ho => (h'.trackedOrders o ho).elim (h.trackedOrders o) .inr
  waiting := fun req t ht => h.waiting req t (h'.waiting req t ht)
  committed := fun bet => (h'.committed bet).trans (h.committed bet)

theorem sum_eraseIdx {α : Type*} (f : α → ℕ) {l : List α} {i : ℕ} {a : α} (h : l[i]? = some a) :
    ((l.eraseIdx i).map f).sum + f a = (l.map f).sum := by
  obtain ⟨hlt, rfl⟩ := List.getElem?_eq_some_iff.mp h
  have hperm := ((List.getElem_cons_eraseIdx_perm hlt).map f).sum_eq
  rw [← hperm, List.map_cons, List.sum_cons, Nat.add_comm]

theorem dropTask (s : SigningLayer) (i : ℕ) : SellsOnly P s (s.dropTask i) where
  tasks := fun _ ht => .inl (List.mem_of_mem_eraseIdx ht)
  byOrderId := fun _ ho => .inl ho
  trackedOrders := fun _ ho => .inl ho
  waiting := fun _ _ ht => List.mem_of_mem_eraseIdx ht
  committed := fun bet => by
    unfold SigningLayer.dropTask
    by_cases hi : i < s.tasks.length
    · have := sum_eraseIdx (Task.committed bet) (List.getElem?_eq_getElem hi)
      dsimp only
      omega
    · rw [List.eraseIdx_of_length_le (Nat.le_of_not_lt hi)]

/-- A new procedure that sells or attests what `P` allows, other than a fresh request. -/
theorem spawn (s : SigningLayer) {t : Task} (hne : ∀ req ty, t ≠ .selling req ty)
    (ht : ∀ c ∈ t.closes?, P c.1 c.2) : SellsOnly P s (s.spawn t) where
  tasks := by
    intro u hu
    rcases List.mem_append.mp hu with hu | hu
    · exact .inl hu
    · exact .inr (List.mem_singleton.mp hu ▸ ht)
  byOrderId := fun _ ho => .inl ho
  trackedOrders := fun _ ho => .inl ho
  waiting := by
    intro req ty hu
    rcases List.mem_append.mp hu with hu | hu
    · exact hu
    · exact absurd (List.mem_singleton.mp hu).symm (hne req ty)
  committed := fun bet => by
    have hzero : t.committed bet = 0 := by
      cases t with
      | selling req ty => exact absurd rfl (hne req ty)
      | _ => rfl
    simp [SigningLayer.spawn, hzero]

theorem signAndStoreAttestation (s : SigningLayer) {input : AttestationInput} (after : AfterAttest)
    (h : input.reportType = .sold → P input.nullifierOfBet input.amountA) :
    SellsOnly P s (s.signAndStoreAttestation input after) := by
  rw [signAndStoreAttestation_eq]
  split
  · exact spawn s (fun _ _ h => by cases h) fun c hc => by cases hc
  · refine spawn s (fun _ _ h => by cases h) fun c hc => ?_
    simp only [Task.closes?] at hc
    split at hc
    case isTrue hsold =>
      obtain rfl := Option.some.inj hc
      exact h hsold
    case isFalse => cases hc

/-- Only the fill of a SELL is attested as sold. -/
theorem attestTerminal (s : SigningLayer) {bet : TerminalBet} {filled : ℕ} (spent : ℕ)
    (after : AfterAttest)
    (h : bet.side = .sell → P bet.nullifier (soldShares bet.expectedShares filled)) :
    SellsOnly P s (s.attestTerminal bet filled spent after) := by
  unfold SigningLayer.attestTerminal
  split
  case h_1 hsell =>
    split
    · exact spawn s (fun _ _ h => by cases h) fun c hc => by cases hc
    · exact signAndStoreAttestation s after fun _ => h hsell
  case h_2 =>
    refine signAndStoreAttestation s after fun hsold => ?_
    have hout := (outcomeInput_spec bet filled spent).1
    rw [hsold] at hout
    cases hout

theorem finalize (s : SigningLayer) {o : TrackedOrder} {filled : ℕ} (spent : ℕ)
    (h : o.side = .sell → P o.nullifier (soldShares o.expectedShares filled)) :
    SellsOnly P s (s.finalize o filled spent) := by
  unfold SigningLayer.finalize
  split
  · exact refl s
  · have h₁ : SellsOnly P s (s.addFinalized o.nullifier) :=
      of_subset rfl (List.Subset.refl _) (List.Subset.refl _)
    exact h₁.trans (attestTerminal _ _ _ h)

theorem reconcileOne (s : SigningLayer) {o : TrackedOrder} (h : ∀ c ∈ o.closes?, P c.1 c.2) :
    SellsOnly P s (s.reconcileOne o) := by
  unfold SigningLayer.reconcileOne
  split
  · exact refl s
  · exact spawn s (fun _ _ h => by cases h) h

theorem setByOrderId (s : SigningLayer) {o : TrackedOrder} (h : ∀ c ∈ o.closes?, P c.1 c.2) :
    SellsOnly P s (s.setByOrderId o) :=
  { refl s with
    byOrderId := by
      intro o' ho'
      rcases List.mem_append.mp ho' with ho' | ho'
      · exact .inl (List.mem_of_mem_filter ho')
      · exact .inr (List.mem_singleton.mp ho' ▸ h) }

theorem persist (s : SigningLayer) {o : TrackedOrder} (h : ∀ c ∈ o.closes?, P c.1 c.2) :
    SellsOnly P s (s.persist o) :=
  { refl s with
    trackedOrders := by
      intro o' ho'
      rcases List.mem_append.mp ho' with ho' | ho'
      · exact .inl (List.mem_of_mem_filter ho')
      · exact .inr (List.mem_singleton.mp ho' ▸ h) }

theorem trackOrder (s : SigningLayer) {o : TrackedOrder} (h : ∀ c ∈ o.closes?, P c.1 c.2) :
    SellsOnly P s (s.trackOrder o) := by
  unfold SigningLayer.trackOrder
  split
  · exact refl s
  · exact ((persist s h).trans (setByOrderId _ h)).trans (reconcileOne _ h)

theorem cancelTrackedOrder (s : SigningLayer) (n : Hex32) (client : Bool)
    (h : ∀ o ∈ s.byOrderId, ∀ c ∈ o.closes?, P c.1 c.2) :
    SellsOnly P s (s.cancelTrackedOrder n client) := by
  unfold SigningLayer.cancelTrackedOrder
  split
  · exact refl s
  · rename_i o ho
    have ho := h o (getTrackedOrder_mem ho).2.1
    split_ifs
    · exact refl s
    · exact spawn s (fun _ _ h => by cases h) ho
    · exact reconcileOne s ho

theorem untrack (s : SigningLayer) (o : TrackedOrder) : SellsOnly P s (s.untrack o) :=
  of_subset rfl (List.filter_subset_self _) (List.filter_subset_self _)

theorem afterAttest (s : SigningLayer) (after : AfterAttest) :
    SellsOnly P s (s.afterAttest after) := by
  cases after with
  | untrack o => exact untrack s o
  | _ => exact of_subset rfl (List.Subset.refl _) (List.Subset.refl _)

theorem foldl {f : SigningLayer → TrackedOrder → SigningLayer} {os : List TrackedOrder}
    (hf : ∀ t, ∀ o ∈ os, SellsOnly P t (f t o)) (s : SigningLayer) :
    SellsOnly P s (os.foldl f s) := by
  induction os generalizing s with
  | nil => exact refl s
  | cons o os ih =>
    exact (hf s o List.mem_cons_self).trans
      (ih (fun t o' ho' => hf t o' (List.mem_cons_of_mem _ ho')) _)

theorem cancelOrdersForMarket (s : SigningLayer) (c : ℕ)
    (h : ∀ o ∈ s.byOrderId, ∀ c ∈ o.closes?, P c.1 (soldShares c.2 0)) :
    SellsOnly P s (s.cancelOrdersForMarket c) := by
  refine foldl (fun t o ho => ?_) s
  unfold cancelForMarket
  split
  · exact refl t
  · exact finalize t 0 fun hsell => h o ho (o.nullifier, o.expectedShares) (by
      simp [TrackedOrder.closes?, hsell])

theorem restart (s : SigningLayer) (h : ∀ o ∈ s.trackedOrders, ∀ c ∈ o.closes?, P c.1 c.2) :
    SellsOnly P s s.restart := by
  have hclear : SellsOnly P s s.clearMemory := {
    tasks := fun t ht => absurd ht List.not_mem_nil
    byOrderId := fun o ho => absurd ho List.not_mem_nil
    trackedOrders := fun o ho => .inl ho
    waiting := fun req t ht => absurd ht List.not_mem_nil
    committed := fun bet => Nat.zero_le _ }
  refine hclear.trans (foldl (fun t o ho => ?_) _)
  unfold resumeTracking
  split
  · exact of_subset rfl (List.Subset.refl _) (List.filter_subset_self _)
  · exact setByOrderId t (h o ho)

/-! The listener's handlers sell nothing. -/

theorem setListener (l : Listener) (h : SellsOnly P s s') : SellsOnly P s (s'.setListener l) :=
  h.trans (of_subset rfl (List.Subset.refl _) (List.Subset.refl _))

theorem attestFailedFor (s : SigningLayer) (n : Hex32) (after : AfterAttest) :
    SellsOnly P s (s.attestFailedFor n after) :=
  signAndStoreAttestation s after fun hsold => by cases hsold

theorem confirmed (s : SigningLayer) (r : BetAuthorizedRecord) (resolved : Option RegistryHit) :
    SellsOnly P s (s.confirmed r resolved) := by
  unfold SigningLayer.confirmed
  split
  · exact (refl s).setListener _
  · have hflight : SellsOnly P s (s.setInFlight r.nullifier) :=
      of_subset rfl (List.Subset.refl _) (List.Subset.refl _)
    unfold processBetEvent
    split
    · exact (hflight.trans (attestFailedFor _ _ _)).setListener _
    · exact hflight.setListener _

theorem funded (s : SigningLayer) (e : BetAuthorizedEvent) (t : OrderType) (ok : Bool) :
    SellsOnly P s (s.funded e t ok) := by
  unfold SigningLayer.funded
  split
  · split
    · unfold markMarketSubmitting
      split <;> exact of_subset rfl (List.Subset.refl _) (List.Subset.refl _)
    · exact (refl s).setListener _
  · exact (attestFailedFor s _ _).setListener _

theorem fakResponded (s : SigningLayer) (e : BetAuthorizedEvent) (size : ℕ)
    (resp : Option ClobResponse) : SellsOnly P s (s.fakResponded e size resp) := by
  cases resp with
  | none => exact (refl s).setListener _
  | some resp =>
    have hrec : SellsOnly P s (s.recordOrderId e.nullifier resp.orderID) := by
      cases resp.orderID <;> exact of_subset rfl (List.Subset.refl _) (List.Subset.refl _)
    simp only [SigningLayer.fakResponded]
    split
    · exact hrec.setListener _
    · apply setListener
      exact hrec.trans (attestTerminal _ _ _ fun hsell => by cases hsell)

theorem limitResponded (s : SigningLayer) (e : BetAuthorizedEvent) (t : OrderType)
    (resp : Option ClobResponse) : SellsOnly P s (s.limitResponded e t resp) := by
  unfold SigningLayer.limitResponded
  split
  · exact (refl s).setListener _
  · split
    · split
      · exact (refl s).setListener _
      · exact (attestFailedFor s _ _).setListener _
    · split
      · exact (refl s).setListener _
      · exact (trackOrder s fun c hc => by cases hc).setListener _

theorem crossed (s : SigningLayer) (e : BetAuthorizedEvent) (t : OrderType) (id : OrderId)
    (fee : Option ℕ) : SellsOnly P s (s.crossed e t id fee) := by
  unfold SigningLayer.crossed
  split
  · exact (refl s).setListener _
  · exact (trackOrder s fun c hc => by cases hc).setListener _

theorem cancelBet (s : SigningLayer) (n : Hex32) : SellsOnly P s (s.cancelBet n) := by
  unfold SigningLayer.cancelBet
  split_ifs
  · exact refl s
  · exact spawn s (fun _ _ h => by cases h) fun c hc => by cases hc
  · exact refl s
  · split
    · exact spawn s (fun _ _ h => by cases h) fun c hc => by cases hc
    · exact attestFailedFor s _ _

theorem reconcileMarketSubmission (s : SigningLayer) (n : Hex32) (sub : MarketSubmission)
    (client : Bool) : SellsOnly P s (s.reconcileMarketSubmission n sub client) := by
  unfold SigningLayer.reconcileMarketSubmission
  split
  · exact refl s
  · split
    · split
      · exact attestFailedFor s _ _
      · exact refl s
    · split
      · exact spawn s (fun _ _ h => by cases h) fun c hc => by cases hc
      · exact refl s

theorem marketQueried {n : Hex32} {id : OrderId} {od : OrderAnswer} {spent : ℕ}
    (h : s.marketQueried n id od spent = some s') : SellsOnly P s s' := by
  unfold SigningLayer.marketQueried at h
  split at h
  · obtain ⟨m, -, rfl⟩ := Option.map_eq_some_iff.mp h
    exact attestTerminal s _ _ fun hsell => by cases hsell
  · cases h
    exact refl s

/-! The procedures of a close sell what was requested. -/

theorem sell (s : SigningLayer) {req : CloseRequest} (t : OrderType) (client : Bool)
    (resolved : Option RegistryHit) (bestBid : ℕ) (h : P req.nullifierOfBet req.soldShares) :
    SellsOnly P s (s.sell req t client resolved bestBid) := by
  rcases Quiet.sell s req t client resolved bestBid with heq | ⟨hit, -, heq⟩
  · rw [heq]
    exact refl s
  · rw [heq]
    have hpost (p : Post) : SellsOnly P s (s.post p) :=
      of_subset rfl (List.Subset.refl _) (List.Subset.refl _)
    refine (hpost _).trans (spawn _ (fun _ _ h => by cases h) fun c hc => ?_)
    exact Option.some.inj hc ▸ h

theorem marketSold (s : SigningLayer) {req : CloseRequest} (price : ℕ) (r : ClobResponse)
    (confirmed : Bool) (fee : ℕ)
    (h : ∀ filled, P req.nullifierOfBet (soldShares req.soldShares filled)) :
    SellsOnly P s (s.marketSold req price r confirmed fee) := by
  unfold SigningLayer.marketSold
  exact attestTerminal s _ _ fun _ => h _

theorem limitSellResponded (s : SigningLayer) {req : CloseRequest} (t : OrderType) (c : ℕ)
    (k : TokenId) (r : ClobResponse) (h : P req.nullifierOfBet req.soldShares) :
    SellsOnly P s (s.limitSellResponded req t c k r) := by
  unfold SigningLayer.limitSellResponded
  split
  · exact refl s
  · split
    · refine spawn s (fun _ _ h => by cases h) fun c hc => ?_
      exact Option.some.inj hc ▸ h
    · refine trackOrder s fun c hc => ?_
      exact Option.some.inj hc ▸ h

end SellsOnly

/-! ### The invariant -/

/-- Each SELL under way is within what its bet holds, and so are all of a bet while one of them is
still to be POSTed. -/
structure Backed (s : SigningLayer) : Prop where
  linked : Linked s
  tasks : ∀ t ∈ s.tasks, ∀ c ∈ t.closes?, Holds s c.1.bytes32 c.2
  orders : ∀ o ∈ s.byOrderId ++ s.trackedOrders, ∀ c ∈ o.closes?, Holds s c.1.bytes32 c.2
  waiting : ∀ req t, .selling req t ∈ s.tasks →
    Holds s req.nullifierOfBet.bytes32 (committed s req.nullifierOfBet.bytes32)

/-- A SELL of a bet that has one under way and holds the shares. -/
def Backing (s : SigningLayer) (n : Hex32) (k : ℕ) : Prop :=
  Holds s n.bytes32 k ∧ Closing s n.bytes32

theorem Backing.mono {n : Hex32} {j : ℕ} (h : Backing s n k) (hjk : j ≤ k) : Backing s n j :=
  ⟨h.1.mono hjk, h.2⟩

namespace Backed

theorem task (h : Backed s) {i : ℕ} {t : Task} (ht : s.tasks[i]? = some t) {c : Hex32 × ℕ}
    (hc : t.closes? = some c) : Backing s c.1 c.2 :=
  have hmem := List.mem_of_getElem? ht
  ⟨h.tasks t hmem c hc, closing_of_task hmem hc⟩

theorem order (h : Backed s) {o : TrackedOrder} (ho : o ∈ s.byOrderId ++ s.trackedOrders) :
    ∀ c ∈ o.closes?, Backing s c.1 c.2 :=
  fun c hc => ⟨h.orders o ho c hc, closing_of_order ho hc⟩

theorem mapped (h : Backed s) {o : TrackedOrder} (ho : o ∈ s.byOrderId) :
    ∀ c ∈ o.closes?, Backing s c.1 c.2 := h.order (List.mem_append_left _ ho)

theorem sold {o : TrackedOrder} (h : ∀ c ∈ o.closes?, Backing s c.1 c.2) (filled : ℕ) :
    o.side = .sell → Backing s o.nullifier (soldShares o.expectedShares filled) :=
  fun hsell => (h (o.nullifier, o.expectedShares) (by simp [TrackedOrder.closes?, hsell])).mono
    (soldShares_le _ _)

end Backed

/-- Apart from a fresh request, a step only carries on with SELLs that are under way. -/
theorem sellsOnly_step {a : Action} (h : Backed s) (hne : ∀ req t, a ≠ .closeRequest req t)
    (hs : machine.step s a = some s') : SellsOnly (Backing s) s s' := by
  have hsame : ∀ u : SigningLayer, u.tasks = s.tasks → u.byOrderId = s.byOrderId →
      u.trackedOrders = s.trackedOrders → SellsOnly (Backing s) s u := fun u htasks hmap hrows =>
    .of_subset htasks (hmap ▸ List.Subset.refl _) (hrows ▸ List.Subset.refl _)
  have hdrop : ∀ {i : ℕ} {u : SigningLayer}, SellsOnly (Backing s) (s.dropTask i) u →
      SellsOnly (Backing s) s u := fun hu => (SellsOnly.dropTask s _).trans hu
  cases steps_of_step hs with
  | handleBetRecord =>
    rw [handleBetRecord_eq]
    split <;> exact hsame _ rfl rfl rfl
  | confirmed => exact .confirmed s _ _
  | confirmThrew => exact hsame _ rfl rfl rfl
  | funded => exact .funded s _ _ _
  | prepared =>
    unfold SigningLayer.prepared
    split <;> exact hsame _ rfl rfl rfl
  | fakResponded => exact .fakResponded s _ _ _
  | limitResponded => exact .limitResponded s _ _ _
  | crossed => exact .crossed s _ _ _ _
  | limitOrder => exact hsame _ rfl rfl rfl
  | cancelBet => exact .cancelBet s _
  | @closeRequest req t => exact absurd rfl (hne req t)
  | @signed i input after signature =>
    have hrow : SellsOnly (Backing s) (s.dropTask i)
        ((s.dropTask i).insertAttestation input signature) :=
      .of_subset rfl (List.Subset.refl _) (List.Subset.refl _)
    exact hdrop (hrow.trans (.afterAttest _ after))
  | @signThrew i input after => exact hdrop (.afterAttest _ after)
  | @attested i after => exact hdrop (.afterAttest _ after)
  | @cancelClient i n client =>
    exact hdrop (.cancelTrackedOrder _ n client fun o ho => h.mapped ho)
  | @cancelled i o canceled od trades spent _ ht _ hc =>
    have ho : ∀ c ∈ o.closes?, Backing s c.1 c.2 := fun c hclose => h.task ht hclose
    refine hdrop (i := i) ?_
    obtain ⟨-, m, -, rfl⟩ | ⟨-, m, -, rfl⟩ | ⟨-, rfl⟩ := cancelled_cases hc
    · exact .finalize _ _ (Backed.sold ho m)
    · exact .finalize _ _ (Backed.sold ho m)
    · exact .reconcileOne _ ho
  | @reconciled i o od trades spent _ ht _ hc =>
    have ho : ∀ c ∈ o.closes?, Backing s c.1 c.2 := fun c hclose => h.task ht hclose
    refine hdrop (i := i) ?_
    obtain ⟨-, m, -, rfl⟩ | ⟨-, -, m, -, -, rfl⟩ | ⟨-, rfl⟩ := reconciled_cases hc
    · exact .finalize _ _ (Backed.sold ho m)
    · exact .finalize _ _ (Backed.sold ho m)
    · exact .refl _
  | @marketClient i => exact hdrop (i := i) (.reconcileMarketSubmission _ _ _ _)
  | @marketQueried i n id od spent _ ht hc => exact hdrop (i := i) (.marketQueried hc)
  | @sell i req t client resolved bestBid ht =>
    have hreq := h.task ht (c := (req.nullifierOfBet, req.soldShares)) rfl
    exact hdrop (i := i) (.sell _ _ _ _ _ hreq)
  | sellThrew => exact .dropTask s _
  | @marketSold i req c k price j p r confirmed fee ht =>
    have hreq := h.task ht (c := (req.nullifierOfBet, req.soldShares)) rfl
    exact hdrop (i := i) (.marketSold _ _ _ _ _ fun _ => hreq.mono (soldShares_le _ _))
  | @limitSellResponded i req t c k price j p r confirmed fee _ ht =>
    have hreq := h.task ht (c := (req.nullifierOfBet, req.soldShares)) rfl
    exact hdrop (i := i) (.limitSellResponded _ _ _ _ _ hreq)
  | @sellCrossed i req t c k id fee ht =>
    have hreq := h.task ht (c := (req.nullifierOfBet, req.soldShares)) rfl
    refine hdrop (i := i) (.trackOrder _ fun c hc => ?_)
    exact Option.some.inj hc ▸ hreq
  | sellCrossThrew => exact .dropTask s _
  | message =>
    unfold SigningLayer.handleOne
    split
    · rename_i o ho
      exact .finalize s _ (Backed.sold (h.mapped (findTracked_mem ho)) _)
    · exact .refl s
  | reconcile ho => exact .reconcileOne s (h.mapped ho)
  | marketResolved =>
    refine .cancelOrdersForMarket s _ fun o ho c hc => ?_
    exact (h.mapped ho c hc).mono (soldShares_le _ _)
  | restart => exact .restart s fun o ho => h.order (List.mem_append_right _ ho)
  | clob => exact hsame _ rfl rfl rfl
  | authorizeBet => exact hsame _ rfl rfl rfl
  | setBetStatus => exact hsame _ rfl rfl rfl
  | tick => exact hsame _ rfl rfl rfl

/-! ### What is committed -/

theorem sum_map_set_le {α : Type*} (f : α → ℕ) {l : List α} {i : ℕ} {a b : α} (h : l[i]? = some a)
    (hle : f b ≤ f a) : ((l.set i b).map f).sum ≤ (l.map f).sum := by
  induction l generalizing i with
  | nil => cases h
  | cons c l ih =>
    cases i with
    | zero =>
      obtain rfl := Option.some.inj h
      simpa using hle
    | succ i => simpa using ih h

theorem PostMoves.committed_le {posts : List Post} {p : Post} {state : PostState}
    (hm : PostMoves posts p state) (hsize : p.matched ≤ p.size) :
    Post.committed bet { p with state } ≤ p.committed bet := by
  unfold Post.committed
  split
  · cases hm with
    | @accept id live taken hsent _ hle =>
      cases live
      · simpa [hsent] using hle
      · simp [hsent]
    | refuse => exact Nat.zero_le _
    | fill hbook => simp [hbook]
    | close hbook => simpa [hbook, Post.matched] using hsize
  · exact le_rfl

/-- Apart from a fresh request, no step commits more shares. -/
theorem committed_step {a : Action} (h : Backed s) (hne : ∀ req t, a ≠ .closeRequest req t)
    (hs : machine.step s a = some s') (bet : ℕ) : committed s' bet ≤ committed s bet := by
  have htasks := (sellsOnly_step h hne hs).committed bet
  unfold committed
  cases bookStep hs with
  | same hposts =>
    rw [hposts]
    exact Nat.add_le_add_right htasks _
  | buy _ _ hposts =>
    rw [hposts]
    simpa [Post.committed] using htasks
  | @sell p hside hstate _ hposts hfrom =>
    obtain ⟨i, req, t, c, k, price, ht, hn, hsize, htasks'⟩ := hfrom
    -- The size moves from the procedure to the order.
    have hsum := SellsOnly.sum_eraseIdx (Task.committed bet) ht
    have hp : p.committed bet = (Task.selling req t).committed bet := by
      simp [Post.committed, Task.committed, hside, hstate, hn, hsize]
    rw [hposts, htasks']
    simp only [List.map_append, List.sum_append, List.map_singleton, List.sum_singleton, hp,
      show (Task.sellPosted req t c k price s.posts.length).committed bet = 0 from rfl]
    omega
  | @move i p state hp hm _ hposts =>
    rw [hposts]
    exact Nat.add_le_add htasks
      (sum_map_set_le _ hp (hm.committed_le (h.linked.sizes p (List.mem_of_getElem? hp))))

namespace Backed

theorem initial : Backed .initial where
  linked := .initial
  tasks := fun _ ht => absurd ht List.not_mem_nil
  orders := fun _ ho => absurd ho List.not_mem_nil
  waiting := fun _ _ ht => absurd ht List.not_mem_nil

/-- A fresh request within what its bet holds. -/
theorem closeRequest (h : Backed s) (req : CloseRequest) (t : OrderType)
    (hc : SellsSafely s (.closeRequest req t)) (hl : Linked (s.closeRequest req t)) :
    Backed (s.closeRequest req t) := by
  classical
  rw [closeRequest_eq] at hl ⊢
  split
  case isFalse => exact h
  case isTrue hgo =>
    rw [if_pos hgo] at hl
    have hholds := hc hgo
    have hkeep : ∀ {bet k : ℕ}, Holds s bet k → Holds (s.spawn (.selling req t)) bet k :=
      fun hb => hb.congr rfl rfl
    have hsum : ∀ bet, committed (s.spawn (.selling req t)) bet
        = committed s bet + (Task.selling req t).committed bet := by
      intro bet
      simp only [committed, SigningLayer.spawn, List.map_append, List.sum_append,
        List.map_singleton, List.sum_singleton]
      omega
    refine ⟨hl, fun u hu c hclose => ?_, fun o ho c hclose => hkeep (h.orders o ho c hclose),
      fun req' t' hu => hkeep ?_⟩
    · rcases List.mem_append.mp hu with hu | hu
      · exact hkeep (h.tasks u hu c hclose)
      · obtain rfl := List.mem_singleton.mp hu
        obtain rfl := Option.some.inj hclose
        exact hkeep (hholds.mono (Nat.le_add_left _ _))
    · rw [hsum]
      simp only [Task.committed]
      split
      · rename_i hsame
        rw [← hsame]
        exact hholds
      · rename_i hother
        rcases List.mem_append.mp hu with hu | hu
        · exact h.waiting req' t' hu
        · cases List.mem_singleton.mp hu
          exact absurd rfl hother

theorem step {a : Action} (h : Backed s) (hc : SellsSafely s a) (hs : machine.step s a = some s') :
    Backed s' := by
  have hl := h.linked.step hs
  by_cases hreq : ∃ req t, a = .closeRequest req t
  · obtain ⟨req, t, rfl⟩ := hreq
    obtain rfl : s.closeRequest req t = s' := Option.some.inj hs
    exact h.closeRequest req t hc hl
  · have hne : ∀ req t, a ≠ .closeRequest req t := fun req t ha => hreq ⟨req, t, ha⟩
    have hsells := sellsOnly_step h hne hs
    have hkeep : ∀ {n : Hex32} {k : ℕ}, Backing s n k → Holds s' n.bytes32 k :=
      fun hb => hb.1.step hb.2 hc hs
    refine ⟨hl, fun t ht c hclose => ?_, fun o ho c hclose => ?_, fun req t ht => ?_⟩
    · rcases hsells.tasks t ht with ht | hnew
      · exact hkeep ⟨h.tasks t ht c hclose, closing_of_task ht hclose⟩
      · exact hkeep (hnew c hclose)
    · rcases List.mem_append.mp ho with ho | ho
      · exact (hsells.byOrderId o ho).elim (fun ho => hkeep (h.mapped ho c hclose))
          fun hnew => hkeep (hnew c hclose)
      · exact (hsells.trackedOrders o ho).elim
          (fun ho => hkeep (h.order (List.mem_append_right _ ho) c hclose))
          fun hnew => hkeep (hnew c hclose)
    · have hmem := hsells.waiting req t ht
      have hclosing := closing_of_task hmem (c := (req.nullifierOfBet, req.soldShares)) rfl
      exact ((h.waiting req t hmem).step hclosing hc hs).mono (committed_step h hne hs _)

theorem of_run (h : machine.Run SellsSafely .initial s) : Backed s :=
  h.invariant .initial fun _ _ _ hi hc hs => hi.step hc hs

end Backed

/-- Every SOLD and every SELL is backed by the bet's own shares, if every request was. -/
theorem sells_backed {a : Action} (h : machine.Run SellsSafely .initial s)
    (hs : machine.step s a = some s') : SellBacked s a s' := by
  have hb := Backed.of_run h
  refine ⟨fun bet k hsign => ?_, fun p hposts hsell => ?_⟩
  · obtain ⟨i, signature, input, after, -, ht, hsold, rfl, rfl⟩ := hsign
    exact (hb.task ht (c := (input.nullifierOfBet, input.amountA))
      (by simp [Task.closes?, hsold])).1
  · cases bookStep hs with
    | same heq =>
      have hlen := congrArg List.length (heq.symm.trans hposts)
      simp at hlen
    | buy _ _ heq =>
      obtain rfl := List.singleton_inj.mp (List.append_cancel_left (heq.symm.trans hposts))
      cases hsell
    | sell _ _ _ heq hfrom =>
      obtain rfl := List.singleton_inj.mp (List.append_cancel_left (heq.symm.trans hposts))
      obtain ⟨i, req, t, -, -, -, ht, hn, -, -⟩ := hfrom
      have hne : ∀ req t, a ≠ .closeRequest req t := by
        rintro req' t' rfl
        obtain rfl : s.closeRequest req' t' = s' := Option.some.inj hs
        have hlen := congrArg List.length ((Quiet.closeRequest s req' t').posts.symm.trans hposts)
        simp at hlen
      rw [hn]
      exact (hb.waiting req t (List.mem_of_getElem? ht)).mono (committed_step hb hne hs _)
    | move _ _ _ heq =>
      have hlen := congrArg List.length (heq.symm.trans hposts)
      simp at hlen

instance (s : SigningLayer) (bet k : ℕ) : Decidable (Holds s bet k) :=
  inferInstanceAs (Decidable (_ ∧ ∃ b ∈ s.bets, _))

instance (s : SigningLayer) (bet : ℕ) : Decidable (Closing s bet) :=
  inferInstanceAs (Decidable (_ ∨ _))

instance (s : SigningLayer) (req : CloseRequest) (t : OrderType) : Decidable (GoesOn s req t) :=
  inferInstanceAs (Decidable (_ ∧ _))

instance (s : SigningLayer) (a : Action) : Decidable (SellsSafely s a) := by
  induction a using Action.casesOn with
  | signed i e => induction e using Option.casesOn <;> dsimp only [SellsSafely] <;> infer_instance
  | _ =>
    dsimp only [SellsSafely]
    infer_instance

/-- A market order of the bet fills and is attested, and half of it is sold again. -/
def filledThenHalfSold : List Action :=
  .authorizeBet sampleChainBet :: submitSample .fak
    ++ [.clobAccept 0 7 false 1000000,
      .responded (some ⟨some 7, .matched, true, 1000000, false, false⟩),
      .signed 0 (some "filled"), .closeRequest ⟨sampleBet, 500000, 10000⟩ .fak,
      .sell 0 true (some ⟨1, 2⟩) 400000, .clobAccept 1 8 false 500000,
      .sellResponded 0 (some ⟨some 8, .matched, true, 500000, false, false⟩) false 0]

theorem sells_backed_half_sold :
    ∃ s s', machine.Run SellsSafely .initial s ∧ machine.step s (.signed 0 (some "sold")) = some s'
      ∧ SignsSold s (.signed 0 (some "sold")) 10 500000 ∧ Holds s 10 500000 := by
  have hrun : ((machine.checkFrom SellsSafely .initial filledThenHalfSold).map
      SigningLayer.tasks) = some [.signing ⟨sampleBet, .sold, 500000, 200000⟩ .done] := by
    decide +kernel
  obtain ⟨s, hs, htasks⟩ := Option.map_eq_some_iff.mp hrun
  have h := Machine.run_of_checkFrom hs
  have ht : s.tasks[0]? = some (.signing ⟨sampleBet, .sold, 500000, 200000⟩ .done) := by
    rw [htasks]
    rfl
  have hsign : SignsSold s (.signed 0 (some "sold")) 10 500000 :=
    ⟨0, "sold", _, _, rfl, ht, rfl, by decide +kernel, rfl⟩
  have hstep : machine.step s (.signed 0 (some "sold")) = some (((s.dropTask 0).insertAttestation
      ⟨sampleBet, .sold, 500000, 200000⟩ "sold").afterAttest .done) := by
    simp only [machine, step, ht]
  exact ⟨s, _, h, hstep, hsign, (sells_backed h hstep).1 10 500000 hsign⟩

/-- A close request for a bet whose order never went out: the SELL is POSTed, fills from the shares
of other bets, and leaves a SOLD to sign. -/
def unfilledSold : List Action :=
  [.authorizeBet sampleChainBet, .closeRequest ⟨sampleBet, 500000, 10000⟩ .fak,
    .sell 0 true (some ⟨1, 2⟩) 400000, .clobAccept 0 8 false 500000,
    .sellResponded 0 (some ⟨some 8, .matched, true, 500000, false, false⟩) false 0]

theorem sell_not_backed_unfilled_bet :
    ¬∀ acts s a s', machine.runFrom .initial acts = some s → machine.step s a = some s' →
      SellBacked s a s' := by
  intro h
  have hrun : ((machine.runFrom .initial unfilledSold).map fun s => (s.attestations, s.tasks))
      = some ([], [.signing ⟨sampleBet, .sold, 500000, 200000⟩ .done]) := by
    decide +kernel
  obtain ⟨s, hs, heq⟩ := Option.map_eq_some_iff.mp hrun
  obtain ⟨hrows, htasks⟩ := Prod.mk.inj heq
  have ht : s.tasks[0]? = some (.signing ⟨sampleBet, .sold, 500000, 200000⟩ .done) := by
    rw [htasks]
    rfl
  have hsign : SignsSold s (.signed 0 (some "sold")) 10 500000 :=
    ⟨0, "sold", _, _, rfl, ht, rfl, by decide +kernel, rfl⟩
  have hstep : machine.step s (.signed 0 (some "sold")) = some (((s.dropTask 0).insertAttestation
      ⟨sampleBet, .sold, 500000, 200000⟩ "sold").afterAttest .done) := by
    simp only [machine, step, ht]
  obtain ⟨-, b, -, -, -, row, hrow, -⟩ := (h _ s _ _ hs hstep).1 10 500000 hsign
  rw [hrows] at hrow
  cases hrow

end Polyshield.Signing

import Polyshield.Signing.Links

/-!
# What each part of the process leaves alone

The tracker and the attestation calls only touch the pool of suspended
procedures and the tracked orders (`Quiet`). From this, what a step does to the
order book (`BookStep`) and which bet the listener has picked up without having
POSTed an order for it yet (`early?`).
-/

namespace Polyshield.Signing

open SigningLayer

/-- Only the tracked orders differ, and more procedures may be suspended. -/
structure Quiet (s s' : SigningLayer) : Prop where
  attestations : s'.attestations = s.attestations
  marketSubmissions : s'.marketSubmissions = s.marketSubmissions
  inFlight : s'.inFlight = s.inFlight
  listener : s'.listener = s.listener
  posts : s'.posts = s.posts
  bets : s'.bets = s.bets
  tasks : s.tasks ⊆ s'.tasks

namespace Quiet

variable {s s' s'' : SigningLayer}

theorem refl (s : SigningLayer) : Quiet s s := ⟨rfl, rfl, rfl, rfl, rfl, rfl, fun _ h => h⟩

theorem trans (h : Quiet s s') (h' : Quiet s' s'') : Quiet s s'' where
  attestations := h'.attestations.trans h.attestations
  marketSubmissions := h'.marketSubmissions.trans h.marketSubmissions
  inFlight := h'.inFlight.trans h.inFlight
  listener := h'.listener.trans h.listener
  posts := h'.posts.trans h.posts
  bets := h'.bets.trans h.bets
  tasks := fun _ ht => h'.tasks (h.tasks ht)

theorem spawn (s : SigningLayer) (t : Task) : Quiet s (s.spawn t) :=
  ⟨rfl, rfl, rfl, rfl, rfl, rfl, List.subset_append_left _ _⟩

theorem signAndStoreAttestation (s : SigningLayer) (input : AttestationInput)
    (after : AfterAttest) : Quiet s (s.signAndStoreAttestation input after) := by
  rw [signAndStoreAttestation_eq]
  exact spawn s _

theorem attestFailedFor (s : SigningLayer) (n : Hex32) (after : AfterAttest) :
    Quiet s (s.attestFailedFor n after) := signAndStoreAttestation s _ after

theorem attestTerminal (s : SigningLayer) (bet : TerminalBet) (filled spent : ℕ)
    (after : AfterAttest) : Quiet s (s.attestTerminal bet filled spent after) := by
  unfold SigningLayer.attestTerminal
  split
  · split
    · exact spawn s _
    · exact signAndStoreAttestation s _ after
  · exact signAndStoreAttestation s _ after

theorem reconcileOne (s : SigningLayer) (o : TrackedOrder) : Quiet s (s.reconcileOne o) := by
  unfold SigningLayer.reconcileOne
  split
  · exact refl s
  · exact spawn s _

theorem trackOrder (s : SigningLayer) (o : TrackedOrder) : Quiet s (s.trackOrder o) := by
  unfold SigningLayer.trackOrder
  split
  · exact refl s
  · have hset : Quiet s ((s.persist o).setByOrderId o) :=
      ⟨rfl, rfl, rfl, rfl, rfl, rfl, fun _ h => h⟩
    exact hset.trans (reconcileOne _ o)

theorem finalize (s : SigningLayer) (o : TrackedOrder) (filled spent : ℕ) :
    Quiet s (s.finalize o filled spent) := by
  unfold SigningLayer.finalize
  split
  · exact refl s
  · have hadd : Quiet s (s.addFinalized o.nullifier) :=
      ⟨rfl, rfl, rfl, rfl, rfl, rfl, fun _ h => h⟩
    exact hadd.trans (attestTerminal _ _ _ _ _)

theorem untrack (s : SigningLayer) (o : TrackedOrder) : Quiet s (s.untrack o) :=
  ⟨rfl, rfl, rfl, rfl, rfl, rfl, fun _ h => h⟩

theorem foldl {f : SigningLayer → TrackedOrder → SigningLayer} (hf : ∀ s o, Quiet s (f s o))
    (os : List TrackedOrder) (s : SigningLayer) : Quiet s (os.foldl f s) := by
  induction os generalizing s with
  | nil => exact refl s
  | cons o os ih => exact (hf s o).trans (ih _)

theorem cancelOrdersForMarket (s : SigningLayer) (c : ℕ) : Quiet s (s.cancelOrdersForMarket c) := by
  refine foldl (fun s o => ?_) _ s
  unfold cancelForMarket
  split
  · exact refl s
  · exact finalize s o 0 0

theorem handleOne (s : SigningLayer) (m : UserChannelMsg) : Quiet s (s.handleOne m) := by
  unfold SigningLayer.handleOne
  split
  · exact finalize s _ _ _
  · exact refl s

theorem reconciled {o : TrackedOrder} {od : OrderAnswer} {trades : Option ℕ} {spent : ℕ}
    (h : s.reconciled o od trades spent = some s') : Quiet s s' := by
  obtain ⟨-, m, -, rfl⟩ | ⟨-, -, m, -, -, rfl⟩ | ⟨-, rfl⟩ := reconciled_cases h
  · exact finalize s o m spent
  · exact finalize s o m spent
  · exact refl s'

theorem cancelled {o : TrackedOrder} {od : OrderAnswer} {trades : Option ℕ} {spent : ℕ}
    (h : s.cancelled o od trades spent = some s') : Quiet s s' := by
  obtain ⟨-, m, -, rfl⟩ | ⟨-, m, -, rfl⟩ | ⟨-, rfl⟩ := cancelled_cases h
  · exact finalize s o m spent
  · exact finalize s o m spent
  · exact reconcileOne s o

theorem cancelTrackedOrder (s : SigningLayer) (n : Hex32) (client : Bool) :
    Quiet s (s.cancelTrackedOrder n client) := by
  unfold SigningLayer.cancelTrackedOrder
  split
  · exact refl s
  · split
    · exact refl s
    · split
      · exact spawn s _
      · exact reconcileOne s _

theorem cancelBet (s : SigningLayer) (n : Hex32) : Quiet s (s.cancelBet n) := by
  unfold SigningLayer.cancelBet
  split_ifs
  · exact refl s
  · exact spawn s _
  · exact refl s
  · split
    · exact spawn s _
    · exact attestFailedFor s n _

theorem reconcileMarketSubmission (s : SigningLayer) (n : Hex32) (sub : MarketSubmission)
    (client : Bool) : Quiet s (s.reconcileMarketSubmission n sub client) := by
  unfold SigningLayer.reconcileMarketSubmission
  split
  · exact refl s
  · split
    · split
      · exact attestFailedFor s n _
      · exact refl s
    · split
      · exact spawn s _
      · exact refl s

theorem marketQueried {n : Hex32} {id : OrderId} {od : OrderAnswer} {spent : ℕ}
    (h : s.marketQueried n id od spent = some s') : Quiet s s' := by
  unfold SigningLayer.marketQueried at h
  split at h
  · obtain ⟨m, -, rfl⟩ := Option.map_eq_some_iff.mp h
    exact attestTerminal s _ _ _ _
  · cases h
    exact refl s

theorem closeRequest (s : SigningLayer) (req : CloseRequest) (t : OrderType) :
    Quiet s (s.closeRequest req t) := by
  unfold SigningLayer.closeRequest
  split_ifs
  · exact refl s
  · exact refl s
  · exact refl s
  · exact spawn s _

theorem marketSold (s : SigningLayer) (req : CloseRequest) (price : ℕ) (r : ClobResponse)
    (confirmed : Bool) (fee : ℕ) : Quiet s (s.marketSold req price r confirmed fee) := by
  unfold SigningLayer.marketSold
  exact attestTerminal s _ _ _ _

theorem limitSellResponded (s : SigningLayer) (req : CloseRequest) (t : OrderType) (c : ℕ)
    (k : TokenId) (r : ClobResponse) : Quiet s (s.limitSellResponded req t c k r) := by
  unfold SigningLayer.limitSellResponded
  split
  · exact refl s
  · split
    · exact spawn s _
    · exact trackOrder s _

end Quiet

theorem restart_frame (s : SigningLayer) :
    s.restart.attestations = s.attestations ∧ s.restart.marketSubmissions = s.marketSubmissions
      ∧ s.restart.inFlight = [] ∧ s.restart.listener = .idle ∧ s.restart.posts = s.posts
      ∧ s.restart.bets = s.bets := by
  have h : Quiet s.clearMemory s.restart := by
    refine Quiet.foldl (fun s o => ?_) _ _
    unfold resumeTracking
    split <;> exact ⟨rfl, rfl, rfl, rfl, rfl, rfl, fun _ h => h⟩
  exact ⟨h.attestations, h.marketSubmissions, h.inFlight, h.listener, h.posts, h.bets⟩

theorem tasks_foldl_load (os : List TrackedOrder) (t : SigningLayer) :
    (os.foldl resumeTracking t).tasks = t.tasks := by
  induction os generalizing t with
  | nil => rfl
  | cons o os ih =>
    refine (ih _).trans ?_
    unfold resumeTracking
    split <;> rfl

theorem tasks_restart (s : SigningLayer) : s.restart.tasks = [] :=
  tasks_foldl_load s.clearMemory.trackedOrders s.clearMemory

def Listener.early? : Listener → Option Hex32
  | .confirming r => some r.nullifier
  | .funding e _ | .preparing e _ => some e.nullifier
  | _ => none

/-- `handleBetRecord` finds no reason to skip the record. -/
def TakesUp (s : SigningLayer) (r : BetAuthorizedRecord) : Prop :=
  (getAttestation s.attestations r.nullifier none).isSome = false
    ∧ (s.inFlight.any fun entry => entry.1 = r.nullifier) = false
    ∧ s.isOrderTracked r.nullifier = false

instance (s : SigningLayer) (r : BetAuthorizedRecord) : Decidable (TakesUp s r) :=
  inferInstanceAs (Decidable (_ ∧ _))

theorem handleBetRecord_eq (s : SigningLayer) (r : BetAuthorizedRecord) :
    s.handleBetRecord r = if TakesUp s r then s.setListener (.confirming r) else s := by
  by_cases h : TakesUp s r
  · obtain ⟨hatt, hflight, htracked⟩ := h
    rw [if_pos ⟨hatt, hflight, htracked⟩]
    simp only [handleBetRecord, hatt, hflight, htracked, Bool.false_eq_true, if_false]
  · rw [if_neg h]
    unfold handleBetRecord
    split_ifs with hatt hflight htracked
    · rfl
    · rfl
    · rfl
    · exact absurd ⟨Bool.eq_false_of_not_eq_true hatt, Bool.eq_false_of_not_eq_true hflight,
        Bool.eq_false_of_not_eq_true htracked⟩ h

inductive BookStep (s s' : SigningLayer) : Prop
  | same (hposts : s'.posts = s.posts)
  | buy {e : BetAuthorizedEvent} {t : OrderType} {size : ℕ} (hl : s.listener = .preparing e t)
      (hl' : s'.listener = .posting e t s.posts.length)
      (hposts : s'.posts = s.posts ++ [⟨e.nullifier, .buy, t, size, e.tokenId, .sent⟩])
  | sell {p : Post} (hside : p.side = .sell) (hstate : p.state = .sent)
      (hl' : s'.listener = s.listener) (hposts : s'.posts = s.posts ++ [p])
      (hfrom : ∃ i req t c k price, s.tasks[i]? = some (.selling req t)
        ∧ p.nullifier = req.nullifierOfBet ∧ p.size = req.soldShares
        ∧ s'.tasks = s.tasks.eraseIdx i ++ [.sellPosted req t c k price s.posts.length])
  | move {i : ℕ} {p : Post} {state : PostState} (hp : s.posts[i]? = some p)
      (hm : PostMoves s.posts p state) (hl' : s'.listener = s.listener)
      (hposts : s'.posts = s.posts.set i { p with state })

theorem Quiet.sell (s : SigningLayer) (req : CloseRequest) (t : OrderType) (client : Bool)
    (resolved : Option RegistryHit) (bestBid : ℕ) :
    s.sell req t client resolved bestBid = s ∨
      ∃ hit, s.resolveCloseToken req resolved = some hit ∧
        s.sell req t client resolved bestBid
          = (s.post ⟨req.nullifierOfBet, .sell, t, req.soldShares, hit.tokenId, .sent⟩).spawn
              (.sellPosted req t hit.conditionId hit.tokenId (sellPrice req t bestBid)
                s.posts.length) := by
  unfold SigningLayer.sell
  split
  · exact .inr ⟨_, ‹_›, rfl⟩
  · exact .inl rfl

theorem bookStep {s s' : SigningLayer} {a : Action} (hs : machine.step s a = some s') :
    BookStep s s' := by
  cases steps_of_step hs with
  | handleBetRecord =>
    rw [handleBetRecord_eq]
    split_ifs <;> exact .same rfl
  | @confirmed r =>
    unfold SigningLayer.confirmed
    split
    · exact .same rfl
    · unfold processBetEvent
      split
      · exact .same (Quiet.attestFailedFor (s.setInFlight r.nullifier) _ _).posts
      · exact .same rfl
  | confirmThrew => exact .same rfl
  | funded =>
    unfold SigningLayer.funded
    split
    · split
      · unfold markMarketSubmitting
        split <;> exact .same rfl
      · exact .same rfl
    · exact .same (Quiet.attestFailedFor s _ _).posts
  | prepared hl =>
    unfold SigningLayer.prepared
    split
    · exact .same rfl
    · exact .buy hl rfl rfl
  | @fakResponded e _ p resp =>
    cases resp with
    | none => exact .same rfl
    | some resp =>
      have hrec : (s.recordOrderId e.nullifier resp.orderID).posts = s.posts := by
        cases resp.orderID <;> rfl
      simp only [SigningLayer.fakResponded]
      split
      · exact .same hrec
      · exact .same ((Quiet.attestTerminal _ _ _ _ _).posts.trans hrec)
  | limitResponded =>
    unfold SigningLayer.limitResponded
    split
    · exact .same rfl
    · split
      · split
        · exact .same rfl
        · exact .same (Quiet.attestFailedFor s _ _).posts
      · split
        · exact .same rfl
        · exact .same (Quiet.trackOrder s _).posts
  | crossed =>
    unfold SigningLayer.crossed
    split
    · exact .same rfl
    · exact .same (Quiet.trackOrder s _).posts
  | limitOrder => exact .same rfl
  | cancelBet => exact .same (Quiet.cancelBet s _).posts
  | closeRequest => exact .same (Quiet.closeRequest s _ _).posts
  | @signed i input after => cases after <;> exact .same rfl
  | @signThrew i input after => cases after <;> exact .same rfl
  | @attested i after => cases after <;> exact .same rfl
  | cancelClient => exact .same (Quiet.cancelTrackedOrder _ _ _).posts
  | cancelled _ _ hc => exact .same (Quiet.cancelled hc).posts
  | reconciled _ _ hc => exact .same (Quiet.reconciled hc).posts
  | marketClient => exact .same (Quiet.reconcileMarketSubmission _ _ _ _).posts
  | marketQueried _ hc => exact .same (Quiet.marketQueried hc).posts
  | @sell i req t client resolved bestBid ht =>
    rcases Quiet.sell (s.dropTask i) req t client resolved bestBid with h | ⟨hit, -, h⟩
    · rw [h]
      exact .same rfl
    · rw [h]
      exact .sell (p := ⟨req.nullifierOfBet, .sell, t, req.soldShares, hit.tokenId, .sent⟩)
        rfl rfl rfl rfl ⟨i, req, t, _, _, _, ht, rfl, rfl, rfl⟩
  | sellThrew => exact .same rfl
  | marketSold => exact .same (Quiet.marketSold _ _ _ _ _ _).posts
  | limitSellResponded => exact .same (Quiet.limitSellResponded _ _ _ _ _ _).posts
  | sellCrossed => exact .same (Quiet.trackOrder _ _).posts
  | sellCrossThrew => exact .same rfl
  | message => exact .same (Quiet.handleOne s _).posts
  | reconcile => exact .same (Quiet.reconcileOne s _).posts
  | marketResolved => exact .same (Quiet.cancelOrdersForMarket s _).posts
  | restart => exact .same (restart_frame s).2.2.2.2.1
  | clob hp hm => exact .move hp hm rfl rfl
  | authorizeBet => exact .same rfl
  | setBetStatus => exact .same rfl
  | tick => exact .same rfl

inductive RecordStep (s s' : SigningLayer) (a : Action) : Prop
  | same (hrows : s'.attestations = s.attestations) (hbets : s'.bets = s.bets)
  | signed {i : ℕ} {input : AttestationInput} {after : AfterAttest} {signature : String}
      (ha : a = .signed i (some signature)) (ht : s.tasks[i]? = some (.signing input after))
      (hrows : s'.attestations = insertRow s.attestations input signature)
      (hbets : s'.bets = s.bets)
  | authorize {bet : ChainBet} (hnew : ∀ b ∈ s.bets, b.nullifier ≠ bet.nullifier)
      (hrows : s'.attestations = s.attestations) (hbets : s'.bets = s.bets ++ [bet])
  | setStatus {n : ℕ} {status : BetStatus} (ha : a = .setBetStatus n status)
      (hrows : s'.attestations = s.attestations)
      (hbets : s'.bets = s.bets.map fun b => if b.nullifier = n then { b with status } else b)

theorem recordStep {s s' : SigningLayer} {a : Action} (hs : machine.step s a = some s') :
    RecordStep s s' a := by
  have hquiet : ∀ {t u : SigningLayer}, Quiet t u → t.attestations = s.attestations →
      t.bets = s.bets → RecordStep s u a :=
    fun hq hrows hbets => .same (hq.attestations.trans hrows) (hq.bets.trans hbets)
  have hafter : ∀ (t : SigningLayer) after,
      (t.afterAttest after).attestations = t.attestations ∧
        (t.afterAttest after).bets = t.bets := by
    intro t after
    cases after <;> exact ⟨rfl, rfl⟩
  cases steps_of_step hs with
  | handleBetRecord =>
    rw [handleBetRecord_eq]
    split_ifs <;> exact .same rfl rfl
  | @confirmed r =>
    unfold SigningLayer.confirmed
    split
    · exact .same rfl rfl
    · unfold processBetEvent
      split
      · have hq := Quiet.attestFailedFor (s.setInFlight r.nullifier) r.nullifier .listener
        exact .same hq.attestations hq.bets
      · exact .same rfl rfl
  | confirmThrew => exact .same rfl rfl
  | @funded e =>
    unfold SigningLayer.funded
    split
    · split
      · unfold markMarketSubmitting
        split <;> exact .same rfl rfl
      · exact .same rfl rfl
    · have hq := Quiet.attestFailedFor s e.nullifier .listener
      exact .same hq.attestations hq.bets
  | prepared =>
    unfold SigningLayer.prepared
    split <;> exact .same rfl rfl
  | @fakResponded e _ p resp =>
    cases resp with
    | none => exact .same rfl rfl
    | some resp =>
      have hrec : (s.recordOrderId e.nullifier resp.orderID).attestations = s.attestations
          ∧ (s.recordOrderId e.nullifier resp.orderID).bets = s.bets := by
        cases resp.orderID <;> exact ⟨rfl, rfl⟩
      simp only [SigningLayer.fakResponded]
      split
      · exact .same hrec.1 hrec.2
      · have hq := fun bet filled spent => Quiet.attestTerminal
          (s.recordOrderId e.nullifier resp.orderID) bet filled spent .listener
        exact .same ((hq _ _ _).attestations.trans hrec.1) ((hq _ _ _).bets.trans hrec.2)
  | @limitResponded e t =>
    unfold SigningLayer.limitResponded
    split
    · exact .same rfl rfl
    · split
      · split
        · exact .same rfl rfl
        · have hq := Quiet.attestFailedFor s e.nullifier .listener
          exact .same hq.attestations hq.bets
      · split
        · exact .same rfl rfl
        · rename_i id _ _
          have hq := Quiet.trackOrder s (limitTracked e t id 0)
          exact .same hq.attestations hq.bets
  | @crossed e t id =>
    unfold SigningLayer.crossed
    split
    · exact .same rfl rfl
    · rename_i fee
      have hq := Quiet.trackOrder s (limitTracked e t id fee)
      exact .same hq.attestations hq.bets
  | limitOrder => exact .same rfl rfl
  | cancelBet => exact hquiet (Quiet.cancelBet s _) rfl rfl
  | closeRequest => exact hquiet (Quiet.closeRequest s _ _) rfl rfl
  | @signed i input after signature ht => exact .signed rfl ht (hafter _ _).1 (hafter _ _).2
  | signThrew => exact .same (hafter _ _).1 (hafter _ _).2
  | attested => exact .same (hafter _ _).1 (hafter _ _).2
  | cancelClient => exact hquiet (Quiet.cancelTrackedOrder _ _ _) rfl rfl
  | cancelled _ _ hc => exact hquiet (Quiet.cancelled hc) rfl rfl
  | reconciled _ _ hc => exact hquiet (Quiet.reconciled hc) rfl rfl
  | marketClient => exact hquiet (Quiet.reconcileMarketSubmission _ _ _ _) rfl rfl
  | marketQueried _ hc => exact hquiet (Quiet.marketQueried hc) rfl rfl
  | @sell i req t client resolved bestBid =>
    rcases Quiet.sell (s.dropTask i) req t client resolved bestBid with h | ⟨hit, -, h⟩
    · exact .same (by rw [h]; rfl) (by rw [h]; rfl)
    · exact .same (by rw [h]; rfl) (by rw [h]; rfl)
  | sellThrew => exact .same rfl rfl
  | marketSold => exact hquiet (Quiet.marketSold _ _ _ _ _ _) rfl rfl
  | limitSellResponded => exact hquiet (Quiet.limitSellResponded _ _ _ _ _ _) rfl rfl
  | sellCrossed => exact hquiet (Quiet.trackOrder _ _) rfl rfl
  | sellCrossThrew => exact .same rfl rfl
  | message => exact hquiet (Quiet.handleOne s _) rfl rfl
  | reconcile => exact hquiet (Quiet.reconcileOne s _) rfl rfl
  | marketResolved => exact hquiet (Quiet.cancelOrdersForMarket s _) rfl rfl
  | restart => exact .same (restart_frame s).1 (restart_frame s).2.2.2.2.2
  | clob => exact .same rfl rfl
  | authorizeBet hnew => exact .authorize hnew rfl rfl
  | setBetStatus => exact .setStatus rfl rfl rfl
  | tick => exact .same rfl rfl

inductive ListenerStep (s s' : SigningLayer) (a : Action) : Prop
  | stay (hl' : s'.listener = s.listener)
  /-- It is done with its bet, or has the answer to its POST. -/
  | leave (hearly : s'.listener.early? = none) (hpost : ∀ e t i, s'.listener ≠ .posting e t i)
  | takeUp {r : BetAuthorizedRecord} (ha : a = .handleBetRecord r) (ht : TakesUp s r)
      (hs' : s' = s.setListener (.confirming r))
  | confirm {r : BetAuthorizedRecord} {e : BetAuthorizedEvent} {t : OrderType}
      (hl : s.listener = .confirming r) (hl' : s'.listener = .funding e t)
      (he : e.nullifier = r.nullifier)
  | fund {e : BetAuthorizedEvent} {t : OrderType} (hl : s.listener = .funding e t)
      (hl' : s'.listener = .preparing e t) (hs' : s' = s.funded e t true)
  | post {e : BetAuthorizedEvent} {t : OrderType} (hl : s.listener = .preparing e t)
      (hl' : s'.listener = .posting e t s.posts.length)

theorem listenerStep {s s' : SigningLayer} {a : Action} (hs : machine.step s a = some s') :
    ListenerStep s s' a := by
  have hquiet : ∀ {t u : SigningLayer}, Quiet t u → t.listener = s.listener → ListenerStep s u a :=
    fun hq ht => .stay (by rw [hq.listener, ht])
  have hidle : ∀ t : SigningLayer, ListenerStep s (t.setListener .idle) a :=
    fun t => .leave rfl fun _ _ _ h => by cases h
  have hattesting : ∀ t : SigningLayer, ListenerStep s (t.setListener .attesting) a :=
    fun t => .leave rfl fun _ _ _ h => by cases h
  have hafter : ∀ (t : SigningLayer) after, t.listener = s.listener →
      ListenerStep s (t.afterAttest after) a := by
    intro t after ht
    cases after with
    | done => exact .stay ht
    | listener => exact hidle t
    | untrack o => exact hquiet (Quiet.untrack t o) ht
  cases steps_of_step hs with
  | handleBetRecord =>
    rw [handleBetRecord_eq]
    split
    · exact .takeUp rfl ‹_› rfl
    · exact .stay rfl
  | @confirmed r resolved hl =>
    unfold SigningLayer.confirmed
    split
    · exact hidle s
    · unfold processBetEvent
      split
      · exact hattesting _
      · exact .confirm hl rfl rfl
  | confirmThrew => exact hidle s
  | @funded e t ok hl =>
    cases ok with
    | true => cases t <;> exact .fund hl rfl rfl
    | false => exact hattesting _
  | prepared hl =>
    unfold SigningLayer.prepared
    split
    · exact hidle s
    · exact .post hl rfl
  | fakResponded =>
    unfold SigningLayer.fakResponded
    split
    · exact hidle s
    · split
      · exact hidle _
      · exact hattesting _
  | limitResponded =>
    unfold SigningLayer.limitResponded
    split
    · exact hidle s
    · split
      · split
        · exact hidle s
        · exact hattesting _
      · split
        · exact .leave rfl fun _ _ _ h => by cases h
        · exact hidle _
  | crossed =>
    unfold SigningLayer.crossed
    split
    · exact hidle s
    · exact hidle _
  | limitOrder => exact .stay rfl
  | cancelBet => exact hquiet (Quiet.cancelBet s _) rfl
  | closeRequest => exact hquiet (Quiet.closeRequest s _ _) rfl
  | @signed i input after signature =>
    exact hafter ((s.dropTask i).insertAttestation input signature) after rfl
  | @signThrew i input after => exact hafter (s.dropTask i) after rfl
  | @attested i after => exact hafter (s.dropTask i) after rfl
  | cancelClient => exact hquiet (Quiet.cancelTrackedOrder _ _ _) rfl
  | cancelled _ _ hc => exact hquiet (Quiet.cancelled hc) rfl
  | reconciled _ _ hc => exact hquiet (Quiet.reconciled hc) rfl
  | marketClient => exact hquiet (Quiet.reconcileMarketSubmission _ _ _ _) rfl
  | marketQueried _ hc => exact hquiet (Quiet.marketQueried hc) rfl
  | @sell i req t client resolved bestBid =>
    rcases Quiet.sell (s.dropTask i) req t client resolved bestBid with h | ⟨hit, -, h⟩
    · exact .stay (by rw [h]; rfl)
    · exact .stay (by rw [h]; rfl)
  | sellThrew => exact .stay rfl
  | marketSold => exact hquiet (Quiet.marketSold _ _ _ _ _ _) rfl
  | limitSellResponded => exact hquiet (Quiet.limitSellResponded _ _ _ _ _ _) rfl
  | sellCrossed => exact hquiet (Quiet.trackOrder _ _) rfl
  | sellCrossThrew => exact .stay rfl
  | message => exact hquiet (Quiet.handleOne s _) rfl
  | reconcile => exact hquiet (Quiet.reconcileOne s _) rfl
  | marketResolved => exact hquiet (Quiet.cancelOrdersForMarket s _) rfl
  | restart =>
    have hl := (restart_frame s).2.2.2.1
    exact .leave (by rw [hl]; rfl) fun _ _ _ h => by rw [hl] at h; cases h
  | clob => exact .stay rfl
  | authorizeBet => exact .stay rfl
  | setBetStatus => exact .stay rfl
  | tick => exact .stay rfl

/-- The listener goes on with its bet, leaves it, or picks one up. -/
theorem early_step {s s' : SigningLayer} {a : Action} (hs : machine.step s a = some s') :
    s'.listener.early? = none ∨ s'.listener.early? = s.listener.early?
      ∨ ∃ r, a = .handleBetRecord r ∧ TakesUp s r ∧ s' = s.setListener (.confirming r) := by
  cases listenerStep hs with
  | stay hl' => exact .inr (.inl (by rw [hl']))
  | leave hearly => exact .inl hearly
  | @takeUp r ha ht hs' => exact .inr (.inr ⟨r, ha, ht, hs'⟩)
  | confirm hl hl' he => exact .inr (.inl (by rw [hl, hl']; exact congrArg some he))
  | fund hl hl' => exact .inr (.inl (by rw [hl, hl']; rfl))
  | post _ hl' => exact .inl (by rw [hl']; rfl)

/-- A BUY of the bet that the CLOB has not refused. -/
def Post.OpenBuy (p : Post) (n : Hex32) : Prop :=
  p.side = .buy ∧ p.nullifier = n ∧ p.state ≠ .refused

instance (p : Post) (n : Hex32) : Decidable (p.OpenBuy n) := inferInstanceAs (Decidable (_ ∧ _))

/-- An order that moves was not refused. -/
theorem PostMoves.openBuy {posts : List Post} {p : Post} {state : PostState} {n : Hex32}
    (hm : PostMoves posts p state) (h : Post.OpenBuy { p with state } n) : p.OpenBuy n := by
  refine ⟨h.1, h.2.1, fun hrefused => ?_⟩
  cases hm with
  | accept hsent => rw [hsent] at hrefused; cases hrefused
  | refuse hsent => rw [hsent] at hrefused; cases hrefused
  | fill hbook => rw [hbook] at hrefused; cases hrefused
  | close hbook => rw [hbook] at hrefused; cases hrefused

/-- A bet has one open BUY, and none while the listener is on its way to POST it. -/
structure SingleBuy (s : SigningLayer) : Prop where
  unique : ∀ (i j : ℕ) (p q : Post) (n : Hex32), s.posts[i]? = some p → s.posts[j]? = some q →
    p.OpenBuy n → q.OpenBuy n → i = j
  early : ∀ n, s.listener.early? = some n → ∀ p ∈ s.posts, ¬p.OpenBuy n

namespace SingleBuy

theorem initial : SingleBuy .initial where
  unique := fun i j p q n hp => by simp [SigningLayer.initial] at hp
  early := fun n hn => by cases hn

/-- One open BUY is kept by every step, but for a bet picked up with an open BUY already made. -/
theorem step {s s' : SigningLayer} {a : Action} (h : SingleBuy s)
    (hs : machine.step s a = some s')
    (htake : ∀ r, a = .handleBetRecord r → TakesUp s r → ∀ p ∈ s.posts, ¬p.OpenBuy r.nullifier) :
    SingleBuy s' := by
  -- The listener's bet, for a step that leaves the listener or keeps its bet.
  have hearly : (∀ n, s.listener.early? = some n → ∀ p ∈ s'.posts, ¬p.OpenBuy n) →
      s'.posts = s.posts ∨ s'.listener = s.listener ∨ s'.listener.early? = none →
      ∀ n, s'.listener.early? = some n → ∀ p ∈ s'.posts, ¬p.OpenBuy n := by
    intro hkeep hcase n hn
    rcases hcase with hposts | hl | hl
    · rcases early_step hs with hnone | hsame | ⟨r, ha, ht, rfl⟩
      · rw [hnone] at hn
        cases hn
      · exact hkeep n (hsame ▸ hn)
      · obtain rfl := Option.some.inj hn
        exact htake r ha ht
    · exact hkeep n (hl ▸ hn)
    · rw [hl] at hn
      cases hn
  cases bookStep hs with
  | same hposts =>
    refine ⟨?_, hearly ?_ (.inl hposts)⟩
    · rw [hposts]
      exact h.unique
    · rw [hposts]
      exact h.early
  | @buy e t size hl hl' hposts =>
    have hfresh := h.early e.nullifier (by rw [hl]; rfl)
    -- The new order is the only open one of its bet.
    have hnew : ∀ (j : ℕ) (q : Post) (n : Hex32), s'.posts[j]? = some q → q.OpenBuy n →
        s.posts[j]? = some q ∧ n ≠ e.nullifier ∨ j = s.posts.length ∧ n = e.nullifier := by
      intro j q n hq hopen
      rw [hposts, List.getElem?_append] at hq
      split at hq
      · refine .inl ⟨hq, fun hn => hfresh q (List.mem_of_getElem? hq) (hn ▸ hopen)⟩
      · rename_i hj
        obtain ⟨hlt, rfl⟩ := List.getElem?_eq_some_iff.mp hq
        simp only [List.length_singleton] at hlt
        refine .inr ⟨by omega, ?_⟩
        have hn := hopen.2.1
        simp only [List.getElem_singleton] at hn
        exact hn.symm
    refine ⟨fun i j p q n hp hq hpo hqo => ?_, fun n hn => ?_⟩
    · rcases hnew i p n hp hpo with ⟨hp, hne⟩ | ⟨rfl, rfl⟩
      · rcases hnew j q n hq hqo with ⟨hq, -⟩ | ⟨-, heq⟩
        · exact h.unique i j p q n hp hq hpo hqo
        · exact absurd heq hne
      · rcases hnew j q _ hq hqo with ⟨-, hne⟩ | ⟨rfl, -⟩
        · exact absurd rfl hne
        · rfl
    · rw [hl'] at hn
      cases hn
  | @sell p hside hstate hl' hposts _ =>
    have hold : ∀ (j : ℕ) (q : Post) (n : Hex32), s'.posts[j]? = some q → q.OpenBuy n →
        s.posts[j]? = some q := by
      intro j q n hq hopen
      rw [hposts, List.getElem?_append] at hq
      split at hq
      · exact hq
      · have hside' := hopen.1
        rw [List.mem_singleton.mp (List.mem_of_getElem? hq), hside] at hside'
        cases hside'
    refine ⟨fun i j q r n hq hr hqo hro => ?_, hearly (fun n hn q hq hopen => ?_) (.inr (.inl hl'))⟩
    · exact h.unique i j q r n (hold i q n hq hqo) (hold j r n hr hro) hqo hro
    · obtain ⟨j, hj⟩ := List.mem_iff_getElem?.mp hq
      exact h.early n hn q (List.mem_of_getElem? (hold j q n hj hopen)) hopen
  | @move i p state hp hm hl' hposts =>
    have hold : ∀ (j : ℕ) (q : Post) (n : Hex32), s'.posts[j]? = some q → q.OpenBuy n →
        ∃ q', s.posts[j]? = some q' ∧ q'.OpenBuy n := by
      intro j q n hq hopen
      rw [hposts] at hq
      rcases getElem?_setPost hp hq with ⟨rfl, rfl⟩ | ⟨-, hq⟩
      · exact ⟨p, hp, hm.openBuy hopen⟩
      · exact ⟨q, hq, hopen⟩
    refine ⟨fun j k q r n hq hr hqo hro => ?_, hearly (fun n hn q hq hopen => ?_) (.inr (.inl hl'))⟩
    · obtain ⟨q', hq', hqo'⟩ := hold j q n hq hqo
      obtain ⟨r', hr', hro'⟩ := hold k r n hr hro
      exact h.unique j k q' r' n hq' hr' hqo' hro'
    · obtain ⟨j, hj⟩ := List.mem_iff_getElem?.mp hq
      obtain ⟨q', hq', hqo'⟩ := hold j q n hj hopen
      exact h.early n hn q' (List.mem_of_getElem? hq') hqo'

theorem eq {s : SigningLayer} (h : SingleBuy s) {p q : Post} {n : Hex32} (hp : p ∈ s.posts)
    (hq : q ∈ s.posts) (hpo : p.OpenBuy n) (hqo : q.OpenBuy n) : p = q := by
  obtain ⟨i, hi⟩ := List.mem_iff_getElem?.mp hp
  obtain ⟨j, hj⟩ := List.mem_iff_getElem?.mp hq
  obtain rfl := h.unique i j p q n hi hj hpo hqo
  exact Option.some.inj (hi.symm.trans hj)

end SingleBuy

end Polyshield.Signing

import Polyshield.Signing.Steps

/-!
# The orders the process knows

Every order the process tracks, asks about or waits for is one the CLOB took
from it for the same bet and side, under an id that no other order has
(`Linked`). This holds on every run.
-/

namespace Polyshield.Signing

/-- The CLOB has an order of this bet and side under this id. -/
def Placed (posts : List Post) (n : Hex32) (side : Side) (id : OrderId) : Prop :=
  ∃ p ∈ posts, p.orderID? = some id ∧ p.nullifier = n ∧ p.side = side

def TrackedOrder.Known (posts : List Post) (o : TrackedOrder) : Prop :=
  Placed posts o.nullifier o.side o.orderID

def MarketSubmission.Linked (posts : List Post) (sub : MarketSubmission) : Prop :=
  sub.nullifier.lowercase ∧ ∀ id, sub.orderId = some id → Placed posts sub.nullifier .buy id

/-- The post at this index is an order of this bet, side and type. -/
def PostAt (posts : List Post) (i : ℕ) (n : Hex32) (side : Side) (t : OrderType) : Prop :=
  ∃ p : Post, posts[i]? = some p ∧ p.nullifier = n ∧ p.side = side ∧ p.orderType = t

def Task.untracks? : Task → Option TrackedOrder
  | .signing _ (.untrack o) | .attested (.untrack o) => some o
  | _ => none

def Task.order? : Task → Option TrackedOrder
  | .cancelling o | .reconciling o => some o
  | t => t.untracks?

def Task.Linked (posts : List Post) : Task → Prop
  | .marketClient n sub => sub.nullifier = n ∧ sub.Linked posts
  | .marketQuery n id => Placed posts n .buy id
  | .sellPosted req t _ _ _ j => PostAt posts j req.nullifierOfBet .sell t
  | .sellFee req _ _ _ id => Placed posts req.nullifierOfBet .sell id
  | t => ∀ o, t.order? = some o → o.Known posts

def Listener.Linked (posts : List Post) : Listener → Prop
  | .posting e t i => PostAt posts i e.nullifier .buy t
  | .crossing e _ id => Placed posts e.nullifier .buy id
  | _ => True

def UniqueIds (posts : List Post) : Prop :=
  ∀ (i j : ℕ) (p q : Post) (id : OrderId), posts[i]? = some p → posts[j]? = some q →
    p.orderID? = some id → q.orderID? = some id → i = j

structure Linked (s : SigningLayer) : Prop where
  ids : UniqueIds s.posts
  buys : ∀ p ∈ s.posts, p.side = .buy → p.nullifier.lowercase
  sizes : ∀ p ∈ s.posts, p.matched ≤ p.size
  byOrderId : ∀ o ∈ s.byOrderId, o.Known s.posts
  trackedOrders : ∀ o ∈ s.trackedOrders, o.Known s.posts
  onePerBet : s.trackedOrders.Pairwise fun o o' => o.nullifier ≠ o'.nullifier
  submissions : ∀ sub ∈ s.marketSubmissions, sub.Linked s.posts
  tasks : ∀ t ∈ s.tasks, t.Linked s.posts
  untracking : ∀ t ∈ s.tasks, ∀ o, t.untracks? = some o → o.nullifier ∈ s.finalized
  listener : s.listener.Linked s.posts

/-- Orders are only added and keep what they are. -/
def PostsGrow (posts posts' : List Post) : Prop :=
  ∀ (i : ℕ) (p : Post), posts[i]? = some p →
    ∃ p' : Post, posts'[i]? = some p' ∧ p'.nullifier = p.nullifier
      ∧ p'.side = p.side ∧ p'.orderType = p.orderType ∧ p'.size = p.size
    ∧ ∀ id, p.orderID? = some id → p'.orderID? = some id

section Grow

variable {posts posts' : List Post}

theorem Placed.grow {n : Hex32} {side : Side} {id : OrderId} (h : Placed posts n side id)
    (hg : PostsGrow posts posts') : Placed posts' n side id := by
  obtain ⟨p, hp, hid, hn, hs⟩ := h
  obtain ⟨i, hi⟩ := List.mem_iff_getElem?.mp hp
  obtain ⟨p', hi', hn', hs', -, -, hid'⟩ := hg i p hi
  exact ⟨p', List.mem_of_getElem? hi', hid' id hid, hn'.trans hn, hs'.trans hs⟩

theorem PostAt.grow {i : ℕ} {n : Hex32} {side : Side} {t : OrderType}
    (h : PostAt posts i n side t) (hg : PostsGrow posts posts') : PostAt posts' i n side t := by
  obtain ⟨p, hp, hn, hs, ht⟩ := h
  obtain ⟨p', hp', hn', hs', ht', -, -⟩ := hg i p hp
  exact ⟨p', hp', hn'.trans hn, hs'.trans hs, ht'.trans ht⟩

theorem MarketSubmission.Linked.grow {sub : MarketSubmission} (h : sub.Linked posts)
    (hg : PostsGrow posts posts') : sub.Linked posts' :=
  ⟨h.1, fun id hid => (h.2 id hid).grow hg⟩

theorem Task.Linked.grow {t : Task} (h : t.Linked posts) (hg : PostsGrow posts posts') :
    t.Linked posts' := by
  cases t with
  | marketClient n sub => exact ⟨h.1, h.2.grow hg⟩
  | marketQuery n id => exact Placed.grow h hg
  | sellPosted => exact PostAt.grow h hg
  | sellFee => exact Placed.grow h hg
  | _ => exact fun o ho => Placed.grow (h o ho) hg

theorem Listener.Linked.grow {l : Listener} (h : l.Linked posts) (hg : PostsGrow posts posts') :
    l.Linked posts' := by
  cases l with
  | posting => exact PostAt.grow h hg
  | crossing => exact Placed.grow h hg
  | _ => trivial

theorem postsGrow_append (p : Post) : PostsGrow posts (posts ++ [p]) := by
  intro i q hq
  have hlt : i < posts.length := (List.getElem?_eq_some_iff.mp hq).1
  exact ⟨q, by rw [List.getElem?_append_left hlt, hq], rfl, rfl, rfl, rfl, fun _ h => h⟩

end Grow

theorem PostMoves.orderID? {posts : List Post} {p : Post} {state : PostState}
    (h : PostMoves posts p state) {id : OrderId} (hid : p.orderID? = some id) :
    Post.orderID? { p with state } = some id := by
  cases h with
  | accept hsent => simp [Post.orderID?, hsent] at hid
  | refuse hsent => simp [Post.orderID?, hsent] at hid
  | fill hbook => simpa [Post.orderID?, hbook] using hid
  | close hbook => simpa [Post.orderID?, hbook] using hid

theorem PostMoves.fresh {posts : List Post} {p : Post} {state : PostState}
    (h : PostMoves posts p state) {id : OrderId} (hid : Post.orderID? { p with state } = some id) :
    p.orderID? = some id ∨ ∀ q ∈ posts, q.orderID? ≠ some id := by
  cases h with
  | accept hsent hfresh =>
    simp only [Post.orderID?, Option.some.injEq] at hid
    exact .inr (hid ▸ hfresh)
  | refuse hsent => simp [Post.orderID?] at hid
  | fill hbook => exact .inl (by simpa [Post.orderID?, hbook] using hid)
  | close hbook => exact .inl (by simpa [Post.orderID?, hbook] using hid)

theorem postsGrow_set {posts : List Post} {i : ℕ} {p : Post} {state : PostState}
    (hp : posts[i]? = some p) (hm : PostMoves posts p state) :
    PostsGrow posts (posts.set i { p with state }) := by
  intro j q hq
  by_cases hij : i = j
  · subst hij
    have hlt : i < posts.length := (List.getElem?_eq_some_iff.mp hp).1
    obtain rfl : p = q := Option.some.inj (hp.symm.trans hq)
    exact ⟨_, List.getElem?_set_self hlt, rfl, rfl, rfl, rfl, fun id => hm.orderID?⟩
  · exact ⟨q, by rw [List.getElem?_set_ne hij, hq], rfl, rfl, rfl, rfl, fun _ h => h⟩

/-- An entry of the book after a move: the moved one or an old one. -/
theorem getElem?_setPost {posts : List Post} {i j : ℕ} {p q : Post} {state : PostState}
    (hp : posts[i]? = some p) (hq : (posts.set i { p with state })[j]? = some q) :
    i = j ∧ q = { p with state } ∨ i ≠ j ∧ posts[j]? = some q := by
  have hlt : i < posts.length := (List.getElem?_eq_some_iff.mp hp).1
  by_cases hij : i = j
  · subst hij
    rw [List.getElem?_set_self hlt] at hq
    exact .inl ⟨rfl, (Option.some.inj hq).symm⟩
  · rw [List.getElem?_set_ne hij] at hq
    exact .inr ⟨hij, hq⟩

theorem UniqueIds.eq {posts : List Post} (h : UniqueIds posts) {p q : Post} {id : OrderId}
    (hp : p ∈ posts) (hq : q ∈ posts) (hpid : p.orderID? = some id) (hqid : q.orderID? = some id) :
    p = q := by
  obtain ⟨i, hi⟩ := List.mem_iff_getElem?.mp hp
  obtain ⟨j, hj⟩ := List.mem_iff_getElem?.mp hq
  obtain rfl := h i j p q id hi hj hpid hqid
  exact Option.some.inj (hi.symm.trans hj)

namespace Linked

open SigningLayer

variable {s : SigningLayer}

theorem initial : Linked .initial where
  ids := fun i j p q id hp => by simp [SigningLayer.initial] at hp
  buys := fun p hp => absurd hp List.not_mem_nil
  sizes := fun p hp => absurd hp List.not_mem_nil
  byOrderId := fun o ho => absurd ho List.not_mem_nil
  trackedOrders := fun o ho => absurd ho List.not_mem_nil
  onePerBet := .nil
  submissions := fun sub hsub => absurd hsub List.not_mem_nil
  tasks := fun t ht => absurd ht List.not_mem_nil
  untracking := fun t ht => absurd ht List.not_mem_nil
  listener := trivial

/-! ### Operations -/

theorem setListener (h : Linked s) {l : Listener} (hl : l.Linked s.posts) :
    Linked (s.setListener l) := { h with listener := hl }

theorem spawn (h : Linked s) {t : Task} (ht : t.Linked s.posts)
    (hu : ∀ o, t.untracks? = some o → o.nullifier ∈ s.finalized) : Linked (s.spawn t) :=
  { h with
    tasks := by
      intro u hu
      rcases List.mem_append.mp hu with hu | hu
      · exact h.tasks u hu
      · exact List.mem_singleton.mp hu ▸ ht
    untracking := by
      intro u hu'
      rcases List.mem_append.mp hu' with hu' | hu'
      · exact h.untracking u hu'
      · exact List.mem_singleton.mp hu' ▸ hu }

/-- A procedure that works on no order can always be suspended. -/
theorem spawn_plain (h : Linked s) {t : Task} (ht : t.Linked s.posts) (hu : t.untracks? = none) :
    Linked (s.spawn t) := h.spawn ht fun o ho => by rw [hu] at ho; cases ho

theorem dropTask (h : Linked s) (i : ℕ) : Linked (s.dropTask i) :=
  { h with
    tasks := fun t ht => h.tasks t (List.mem_of_mem_eraseIdx ht)
    untracking := fun t ht => h.untracking t (List.mem_of_mem_eraseIdx ht) }

theorem task (h : Linked s) {i : ℕ} {t : Task} (ht : s.tasks[i]? = some t) : t.Linked s.posts :=
  h.tasks t (List.mem_of_getElem? ht)

theorem addFinalized (h : Linked s) (n : Hex32) : Linked (s.addFinalized n) :=
  { h with untracking := fun t ht o ho => List.mem_append_left _ (h.untracking t ht o ho) }

theorem setByOrderId (h : Linked s) {o : TrackedOrder} (ho : o.Known s.posts) :
    Linked (s.setByOrderId o) :=
  { h with
    byOrderId := by
      intro o' ho'
      rcases List.mem_append.mp ho' with ho' | ho'
      · exact h.byOrderId o' (List.mem_of_mem_filter ho')
      · exact List.mem_singleton.mp ho' ▸ ho }

theorem persist (h : Linked s) {o : TrackedOrder} (ho : o.Known s.posts) :
    Linked (s.persist o) :=
  { h with
    trackedOrders := by
      intro o' ho'
      rcases List.mem_append.mp ho' with ho' | ho'
      · exact h.trackedOrders o' (List.mem_of_mem_filter ho')
      · exact List.mem_singleton.mp ho' ▸ ho
    onePerBet := by
      refine List.pairwise_append.mpr ⟨h.onePerBet.filter _, List.pairwise_singleton _ _, ?_⟩
      intro o' ho' o'' ho''
      rw [List.mem_singleton.mp ho'']
      simpa using (List.mem_filter.mp ho').2 }

theorem unpersist (h : Linked s) (n : Hex32) : Linked (s.unpersist n) :=
  { h with
    trackedOrders := fun o ho => h.trackedOrders o (List.mem_of_mem_filter ho)
    onePerBet := h.onePerBet.filter _ }

theorem untrack (h : Linked s) (o : TrackedOrder) : Linked (s.untrack o) := by
  have h' : Linked { s with byOrderId := s.byOrderId.filter fun t => t.orderID ≠ o.orderID } :=
    { h with byOrderId := fun o' ho' => h.byOrderId o' (List.mem_of_mem_filter ho') }
  exact h'.unpersist o.nullifier

theorem signAndStoreAttestation (h : Linked s) (input : AttestationInput) {after : AfterAttest}
    (ha : ∀ o, after = .untrack o → o.Known s.posts ∧ o.nullifier ∈ s.finalized) :
    Linked (s.signAndStoreAttestation input after) := by
  rw [signAndStoreAttestation_eq]
  cases after with
  | untrack o =>
    obtain ⟨hk, hf⟩ := ha o rfl
    split
    all_goals
      refine h.spawn (fun o' ho' => ?_) fun o' ho' => ?_
      · exact Option.some.inj ho' ▸ hk
      · exact Option.some.inj ho' ▸ hf
  | _ =>
    split
    all_goals exact h.spawn_plain (fun o' ho' => by cases ho') rfl

theorem attestFailedFor (h : Linked s) (n : Hex32) {after : AfterAttest}
    (ha : ∀ o, after ≠ .untrack o) : Linked (s.attestFailedFor n after) :=
  h.signAndStoreAttestation _ fun o ho => absurd ho (ha o)

theorem attestTerminal (h : Linked s) (bet : TerminalBet) (filled spent : ℕ) {after : AfterAttest}
    (ha : ∀ o, after = .untrack o → o.Known s.posts ∧ o.nullifier ∈ s.finalized) :
    Linked (s.attestTerminal bet filled spent after) := by
  unfold SigningLayer.attestTerminal
  split
  · split
    · cases after with
      | untrack o =>
        obtain ⟨hk, hf⟩ := ha o rfl
        refine h.spawn (fun o' ho' => ?_) fun o' ho' => ?_
        · exact Option.some.inj ho' ▸ hk
        · exact Option.some.inj ho' ▸ hf
      | _ => exact h.spawn_plain (fun o' ho' => by cases ho') rfl
    · exact h.signAndStoreAttestation _ ha
  · exact h.signAndStoreAttestation _ ha

theorem finalize (h : Linked s) {o : TrackedOrder} (ho : o.Known s.posts) (filled spent : ℕ) :
    Linked (s.finalize o filled spent) := by
  unfold SigningLayer.finalize
  split
  · exact h
  · refine (h.addFinalized _).attestTerminal _ _ _ fun o' ho' => ?_
    cases ho'
    exact ⟨ho, List.mem_append_right _ (List.mem_singleton_self _)⟩

theorem reconcileOne (h : Linked s) {o : TrackedOrder} (ho : o.Known s.posts) :
    Linked (s.reconcileOne o) := by
  unfold SigningLayer.reconcileOne
  split
  · exact h
  · exact h.spawn_plain (fun o' ho' => Option.some.inj ho' ▸ ho) rfl

theorem trackOrder (h : Linked s) {o : TrackedOrder} (ho : o.Known s.posts) :
    Linked (s.trackOrder o) := by
  unfold SigningLayer.trackOrder
  split
  · exact h
  · exact ((h.persist ho).setByOrderId ho).reconcileOne ho

theorem markMarketSubmitting (h : Linked s) {n : Hex32} (hn : n.lowercase) (c : ℕ) :
    Linked (s.markMarketSubmitting n c) := by
  unfold SigningLayer.markMarketSubmitting
  split
  · exact h
  · refine { h with submissions := ?_ }
    intro sub hsub
    rcases List.mem_append.mp hsub with hsub | hsub
    · exact h.submissions sub hsub
    · rw [List.mem_singleton.mp hsub]
      exact ⟨hn, fun id hid => by cases hid⟩

theorem setMarketOrderId (h : Linked s) {n : Hex32} {id : OrderId}
    (hid : Placed s.posts n .buy id) : Linked (s.setMarketOrderId n id) := by
  refine { h with submissions := ?_ }
  intro sub hsub
  obtain ⟨sub', hsub', rfl⟩ := List.mem_map.mp hsub
  split
  case isTrue hn =>
    refine ⟨(h.submissions sub' hsub').1, fun id' hid' => ?_⟩
    cases hid'
    exact hn ▸ hid
  case isFalse => exact h.submissions sub' hsub'

theorem post (h : Linked s) {p : Post} (hp : p.state = .sent)
    (hbuy : p.side = .buy → p.nullifier.lowercase) : Linked (s.post p) := by
  have hg : PostsGrow s.posts (s.posts ++ [p]) := postsGrow_append p
  have hno : p.orderID? = none := by simp [Post.orderID?, hp]
  constructor
  case ids =>
    intro i j q q' id hq hq' hqid hqid'
    have hold : ∀ (k : ℕ) (r : Post), (s.posts ++ [p])[k]? = some r → r.orderID? = some id →
        s.posts[k]? = some r := by
      intro k r hr hrid
      rw [List.getElem?_append] at hr
      split at hr
      · exact hr
      · have := List.mem_of_getElem? hr
        rw [List.mem_singleton.mp this, hno] at hrid
        cases hrid
    exact h.ids i j q q' id (hold i q hq hqid) (hold j q' hq' hqid') hqid hqid'
  case buys =>
    intro q hq
    rcases List.mem_append.mp hq with hq | hq
    · exact h.buys q hq
    · exact List.mem_singleton.mp hq ▸ hbuy
  case sizes =>
    intro q hq
    rcases List.mem_append.mp hq with hq | hq
    · exact h.sizes q hq
    · rw [List.mem_singleton.mp hq]
      simp [Post.matched, hp]
  case byOrderId => exact fun o ho => (h.byOrderId o ho).grow hg
  case trackedOrders => exact fun o ho => (h.trackedOrders o ho).grow hg
  case onePerBet => exact h.onePerBet
  case submissions => exact fun sub hsub => (h.submissions sub hsub).grow hg
  case tasks => exact fun t ht => (h.tasks t ht).grow hg
  case untracking => exact h.untracking
  case listener => exact h.listener.grow hg

theorem setPost (h : Linked s) {i : ℕ} {p : Post} {state : PostState} (hp : s.posts[i]? = some p)
    (hm : PostMoves s.posts p state) : Linked (s.setPost i { p with state }) := by
  have hg := postsGrow_set hp hm
  constructor
  case ids =>
    -- An id of the moved order is its old one or new to the book.
    have hmoved : ∀ j q id, s.posts[j]? = some q → q.orderID? = some id →
        Post.orderID? { p with state } = some id → i = j := by
      intro j q id hq hqid hid
      rcases hm.fresh hid with hid | hid
      · exact h.ids i j p q id hp hq hid hqid
      · exact absurd hqid (hid q (List.mem_of_getElem? hq))
    intro j k q r id hq hr hqid hrid
    rcases getElem?_setPost hp hq with ⟨rfl, rfl⟩ | ⟨-, hq⟩
    · rcases getElem?_setPost hp hr with ⟨rfl, rfl⟩ | ⟨-, hr⟩
      · rfl
      · exact hmoved k r id hr hrid hqid
    · rcases getElem?_setPost hp hr with ⟨rfl, rfl⟩ | ⟨-, hr⟩
      · exact (hmoved j q id hq hqid hrid).symm
      · exact h.ids j k q r id hq hr hqid hrid
  case buys =>
    intro q hq
    rcases List.mem_or_eq_of_mem_set hq with hq | rfl
    · exact h.buys q hq
    · exact h.buys p (List.mem_of_getElem? hp)
  case sizes =>
    intro q hq
    rcases List.mem_or_eq_of_mem_set hq with hq | rfl
    · exact h.sizes q hq
    · have hsize := h.sizes p (List.mem_of_getElem? hp)
      cases hm with
      | accept _ _ hle => simpa [Post.matched] using hle
      | refuse => exact Nat.zero_le _
      | fill _ _ _ hle => simpa [Post.matched] using hle
      | close hbook => simpa [Post.matched, hbook] using hsize
  case byOrderId => exact fun o ho => (h.byOrderId o ho).grow hg
  case trackedOrders => exact fun o ho => (h.trackedOrders o ho).grow hg
  case onePerBet => exact h.onePerBet
  case submissions => exact fun sub hsub => (h.submissions sub hsub).grow hg
  case tasks => exact fun t ht => (h.tasks t ht).grow hg
  case untracking => exact h.untracking
  case listener => exact h.listener.grow hg

/-! ### Steps -/

theorem posts_finalize (s : SigningLayer) (o : TrackedOrder) (filled spent : ℕ) :
    (s.finalize o filled spent).posts = s.posts := by
  simp only [SigningLayer.finalize, SigningLayer.attestTerminal, signAndStoreAttestation_eq,
    SigningLayer.spawn, SigningLayer.addFinalized]
  split
  · rfl
  · split
    · split <;> rfl
    · rfl

/-- A loop over known orders, each iteration of which keeps the posts. -/
theorem foldl {f : SigningLayer → TrackedOrder → SigningLayer}
    (hf : ∀ s o, Linked s → o.Known s.posts → Linked (f s o) ∧ (f s o).posts = s.posts)
    (h : Linked s) {os : List TrackedOrder} (hos : ∀ o ∈ os, o.Known s.posts) :
    Linked (os.foldl f s) := by
  induction os generalizing s with
  | nil => exact h
  | cons o os ih =>
    obtain ⟨h', hposts⟩ := hf s o h (hos o List.mem_cons_self)
    exact ih h' fun o' ho' => hposts ▸ hos o' (List.mem_cons_of_mem _ ho')

theorem cancelOrdersForMarket (h : Linked s) (c : ℕ) : Linked (s.cancelOrdersForMarket c) := by
  refine foldl (fun s o hs ho => ?_) h h.byOrderId
  unfold cancelForMarket
  split
  · exact ⟨hs, rfl⟩
  · exact ⟨hs.finalize ho 0 0, posts_finalize s o 0 0⟩

theorem restart (h : Linked s) : Linked s.restart := by
  have h' : Linked s.clearMemory :=
    { h with
      byOrderId := fun o ho => absurd ho List.not_mem_nil
      tasks := fun t ht => absurd ht List.not_mem_nil
      untracking := fun t ht => absurd ht List.not_mem_nil
      listener := trivial }
  refine foldl (fun s o hs ho => ?_) h' h.trackedOrders
  unfold resumeTracking
  split
  · exact ⟨(hs.unpersist _).addFinalized _, rfl⟩
  · exact ⟨hs.setByOrderId ho, rfl⟩

theorem afterAttest (h : Linked s) (after : AfterAttest) : Linked (s.afterAttest after) := by
  cases after with
  | done => exact h
  | listener => exact h.setListener trivial
  | untrack o => exact h.untrack o

theorem reconciled (h : Linked s) {o : TrackedOrder} {od : OrderAnswer} {trades : Option ℕ}
    {spent : ℕ} {s' : SigningLayer} (ho : o.Known s.posts)
    (hs : s.reconciled o od trades spent = some s') : Linked s' := by
  obtain ⟨-, m, -, rfl⟩ | ⟨-, -, m, -, -, rfl⟩ | ⟨-, rfl⟩ := reconciled_cases hs
  · exact h.finalize ho m spent
  · exact h.finalize ho m spent
  · exact h

theorem cancelled (h : Linked s) {o : TrackedOrder} {od : OrderAnswer} {trades : Option ℕ}
    {spent : ℕ} {s' : SigningLayer} (ho : o.Known s.posts)
    (hs : s.cancelled o od trades spent = some s') : Linked s' := by
  obtain ⟨-, m, -, rfl⟩ | ⟨-, m, -, rfl⟩ | ⟨-, rfl⟩ := cancelled_cases hs
  · exact h.finalize ho m spent
  · exact h.finalize ho m spent
  · exact h.reconcileOne ho

end Linked

open SigningLayer

variable {s : SigningLayer}

theorem getTrackedOrder_mem {n : Hex32} {o : TrackedOrder} (ho : s.getTrackedOrder n = some o) :
    n ∉ s.finalized ∧ o ∈ s.byOrderId ∧ o.nullifier = n := by
  unfold getTrackedOrder at ho
  split at ho
  case isTrue => cases ho
  case isFalse hn =>
    have hp := List.find?_some ho
    exact ⟨hn, List.mem_of_find?_eq_some ho, by simpa using hp⟩

theorem findTracked_mem {m : UserChannelMsg} {o : TrackedOrder} (ho : s.findTracked m = some o) :
    o ∈ s.byOrderId := by
  unfold findTracked at ho
  rcases Option.or_eq_some_iff.mp ho with ho | ⟨-, ho⟩
  all_goals
    obtain ⟨x, -, hx⟩ := Option.bind_eq_some_iff.mp ho
    exact List.mem_of_find?_eq_some hx

theorem orderID?_of_truthful {p : Post} {r : ClobResponse} {id : OrderId}
    (htrue : r.truthful p) (hid : r.orderID = some id) : p.orderID? = some id := by
  have h : some id = p.orderID? ∧ r.filledShares ≤ p.matched := by
    simpa [ClobResponse.truthful, hid] using htrue
  exact h.1.symm

theorem truthful_placed {posts : List Post} {i : ℕ} {p : Post} {r : ClobResponse} {n : Hex32}
    {side : Side} {t : OrderType} {id : OrderId} (hpost : PostAt posts i n side t)
    (hp : posts[i]? = some p) (htrue : r.truthful p) (hid : r.orderID = some id) :
    Placed posts n side id := by
  obtain ⟨q, hq, hn, hs, -⟩ := hpost
  obtain rfl : p = q := Option.some.inj (hp.symm.trans hq)
  exact ⟨p, List.mem_of_getElem? hp, orderID?_of_truthful htrue hid, hn, hs⟩

section Handlers

variable {s s' : SigningLayer}

theorem Linked.confirmed (h : Linked s) (r : BetAuthorizedRecord) (resolved : Option RegistryHit) :
    Linked (s.confirmed r resolved) := by
  unfold SigningLayer.confirmed
  split
  · exact h.setListener trivial
  · have h' : Linked (s.setInFlight r.nullifier) := { h with }
    unfold processBetEvent
    split
    · exact (h'.attestFailedFor _ (by simp)).setListener trivial
    · exact h'.setListener trivial

theorem Linked.funded (h : Linked s) (e : BetAuthorizedEvent) (t : OrderType) (ok : Bool) :
    Linked (s.funded e t ok) := by
  unfold SigningLayer.funded
  split
  · split
    · exact (h.markMarketSubmitting e.lowercase _).setListener trivial
    · exact h.setListener trivial
  · exact (h.attestFailedFor _ (by simp)).setListener trivial

theorem Linked.fakResponded (h : Linked s) {e : BetAuthorizedEvent} {i : ℕ} {p : Post}
    {resp : Option ClobResponse} (hpost : PostAt s.posts i e.nullifier .buy .fak)
    (hp : s.posts[i]? = some p) (htrue : ∀ r ∈ resp, r.truthful p) :
    Linked (s.fakResponded e p.size resp) := by
  cases resp with
  | none => exact h.setListener trivial
  | some resp =>
    have hrec : Linked (s.recordOrderId e.nullifier resp.orderID) := by
      unfold recordOrderId
      split
      · exact h.setMarketOrderId (truthful_placed hpost hp (htrue _ rfl) ‹_›)
      · exact h
    simp only [SigningLayer.fakResponded]
    split
    · exact hrec.setListener trivial
    · exact (hrec.attestTerminal _ _ _ (by simp)).setListener trivial

theorem Linked.limitResponded (h : Linked s) {e : BetAuthorizedEvent} {t : OrderType} {i : ℕ}
    {p : Post} {resp : Option ClobResponse} (hpost : PostAt s.posts i e.nullifier .buy t)
    (hp : s.posts[i]? = some p) (htrue : ∀ r ∈ resp, r.truthful p) :
    Linked (s.limitResponded e t resp) := by
  unfold SigningLayer.limitResponded
  split
  · exact h.setListener trivial
  · rename_i resp
    split
    · split
      · exact h.setListener trivial
      · exact (h.attestFailedFor _ (by simp)).setListener trivial
    · rename_i id hid
      have hplaced := truthful_placed hpost hp (htrue _ rfl) hid
      split
      · exact h.setListener hplaced
      · exact (h.trackOrder (o := limitTracked e t id 0) hplaced).setListener trivial

theorem Linked.crossed (h : Linked s) {e : BetAuthorizedEvent} (t : OrderType) {id : OrderId}
    (fee : Option ℕ) (hp : Placed s.posts e.nullifier .buy id) : Linked (s.crossed e t id fee) := by
  unfold SigningLayer.crossed
  split
  · exact h.setListener trivial
  · rename_i fee
    exact (h.trackOrder (o := limitTracked e t id fee) hp).setListener trivial

theorem Linked.cancelBet (h : Linked s) (n : Hex32) : Linked (s.cancelBet n) := by
  unfold SigningLayer.cancelBet
  split_ifs
  · exact h
  · exact h.spawn_plain (fun o ho => by cases ho) rfl
  · exact h
  · split
    · rename_i sub hsub
      have hmem := List.mem_of_find?_eq_some hsub
      have hn : sub.nullifier = n := by simpa using List.find?_some hsub
      exact h.spawn_plain ⟨hn, h.submissions sub hmem⟩ rfl
    · exact h.attestFailedFor _ (by simp)

theorem Linked.cancelTrackedOrder (h : Linked s) (n : Hex32) (client : Bool) :
    Linked (s.cancelTrackedOrder n client) := by
  unfold SigningLayer.cancelTrackedOrder
  split
  · exact h
  · rename_i o ho
    have hk := h.byOrderId o (getTrackedOrder_mem ho).2.1
    split_ifs
    · exact h
    · exact h.spawn_plain (fun o' ho' => Option.some.inj ho' ▸ hk) rfl
    · exact h.reconcileOne hk

theorem Linked.reconcileMarketSubmission (h : Linked s) {n : Hex32} {sub : MarketSubmission}
    (client : Bool) (hn : sub.nullifier = n) (hsub : sub.Linked s.posts) :
    Linked (s.reconcileMarketSubmission n sub client) := by
  unfold SigningLayer.reconcileMarketSubmission
  split
  · exact h
  · split
    · split
      · exact h.attestFailedFor _ (by simp)
      · exact h
    · split
      · exact h.spawn_plain (t := .marketQuery n _) (hn ▸ hsub.2 _ ‹_›) rfl
      · exact h

theorem Linked.marketQueried (h : Linked s) {n : Hex32} {id : OrderId} {od : OrderAnswer}
    {spent : ℕ} (hc : s.marketQueried n id od spent = some s') : Linked s' := by
  unfold SigningLayer.marketQueried at hc
  split at hc
  · obtain ⟨m, -, rfl⟩ := Option.map_eq_some_iff.mp hc
    exact h.attestTerminal _ _ _ (by simp)
  · cases hc
    exact h

theorem Linked.sell (h : Linked s) (req : CloseRequest) (t : OrderType) (client : Bool)
    (resolved : Option RegistryHit) (bestBid : ℕ) :
    Linked (s.sell req t client resolved bestBid) := by
  unfold SigningLayer.sell
  split
  · refine (h.post rfl (by simp)).spawn_plain ?_ rfl
    exact ⟨_, List.getElem?_concat_length, rfl, rfl, rfl⟩
  · exact h

theorem Linked.limitSellResponded (h : Linked s) {req : CloseRequest} {t : OrderType} {c : ℕ}
    {k : TokenId} {j : ℕ} {p : Post} {r : ClobResponse}
    (hpost : PostAt s.posts j req.nullifierOfBet .sell t) (hp : s.posts[j]? = some p)
    (htrue : r.truthful p) : Linked (s.limitSellResponded req t c k r) := by
  unfold SigningLayer.limitSellResponded
  split
  · exact h
  · rename_i id hid
    have hplaced := truthful_placed hpost hp htrue hid
    split
    · exact h.spawn_plain (t := .sellFee req t c k id) hplaced rfl
    · exact h.trackOrder hplaced

end Handlers

theorem Linked.step {s s' : SigningLayer} {a : Action} (h : Linked s)
    (hs : machine.step s a = some s') : Linked s' := by
  have hlistener {l : Listener} (hl : s.listener = l) : l.Linked s.posts := hl ▸ h.listener
  cases steps_of_step hs with
  | handleBetRecord =>
    unfold handleBetRecord
    split_ifs
    · exact h
    · exact h
    · exact h
    · exact h.setListener trivial
  | confirmed => exact h.confirmed _ _
  | confirmThrew => exact h.setListener trivial
  | funded => exact h.funded _ _ _
  | @prepared e t size hl =>
    unfold prepared
    split
    · exact h.setListener trivial
    · refine (h.post rfl fun _ => e.lowercase).setListener ?_
      exact ⟨_, List.getElem?_concat_length, rfl, rfl, rfl⟩
  | fakResponded hl hp htrue => exact h.fakResponded (hlistener hl) hp htrue
  | limitResponded ht hl hp htrue => exact h.limitResponded (hlistener hl) hp htrue
  | crossed hl => exact h.crossed _ _ (hlistener hl)
  | limitOrder => exact { h with }
  | cancelBet => exact h.cancelBet _
  | closeRequest =>
    unfold closeRequest
    split_ifs
    · exact h
    · exact h
    · exact h
    · exact h.spawn_plain (fun o ho => by cases ho) rfl
  | @signed i input after signature ht =>
    have h' : Linked ((s.dropTask i).insertAttestation input signature) := { h.dropTask i with }
    exact h'.afterAttest after
  | @signThrew i input after ht => exact (h.dropTask i).afterAttest after
  | @attested i after ht => exact (h.dropTask i).afterAttest after
  | @cancelClient i => exact (h.dropTask i).cancelTrackedOrder _ _
  | @cancelled i o _ _ _ _ _ ht _ hc => exact (h.dropTask i).cancelled (h.task ht o rfl) hc
  | @reconciled i o _ _ _ _ ht _ hc => exact (h.dropTask i).reconciled (h.task ht o rfl) hc
  | @marketClient i n sub client ht =>
    obtain ⟨hn, hsub⟩ := h.task ht
    exact (h.dropTask i).reconcileMarketSubmission client hn hsub
  | @marketQueried i _ _ _ _ _ _ hc => exact (h.dropTask i).marketQueried hc
  | @sell i => exact (h.dropTask i).sell _ _ _ _ _
  | @sellThrew i => exact h.dropTask i
  | @marketSold i =>
    unfold marketSold
    exact (h.dropTask i).attestTerminal _ _ _ (by simp)
  | @limitSellResponded i _ _ _ _ _ _ _ _ _ _ _ ht hp htrue =>
    exact (h.dropTask i).limitSellResponded (h.task ht) hp htrue
  | @sellCrossed i req t c k id fee ht =>
    have hplaced : Placed s.posts req.nullifierOfBet .sell id := h.task ht
    exact (h.dropTask i).trackOrder hplaced
  | @sellCrossThrew i => exact h.dropTask i
  | message =>
    unfold handleOne
    split
    · exact h.finalize (h.byOrderId _ (findTracked_mem ‹_›)) _ _
    · exact h
  | reconcile ho => exact h.reconcileOne (h.byOrderId _ ho)
  | marketResolved => exact h.cancelOrdersForMarket _
  | restart => exact h.restart
  | clob hp hm => exact h.setPost hp hm
  | authorizeBet => exact { h with }
  | setBetStatus => exact { h with }
  | tick => exact { h with }

theorem Linked.of_run {cond : SigningLayer → Action → Prop} {s : SigningLayer}
    (h : machine.Run cond .initial s) : Linked s :=
  h.invariant .initial fun _ _ _ hi _ hs => hi.step hs

end Polyshield.Signing

import Polyshield.Signing.FailedBets
import Polyshield.Signing.SingleOrder
import Polyshield.Signing.Registry

/-!
# What is announced as finalized is off the book

A bet is announced when `finalize` has removed one of its orders, or when
`/cancel-bet` answers `finalized` or `already-finalized`. The runs of the signing
layer are kept with each announcement, the orders POSTed by then, and the orders
that an answer of the CLOB has reported over (`tells`). Such an order is over and
stays so (`over_step`). What the code takes for granted is that the CLOB has
reported every order of the bet it announces (`AnnouncesSafely`).
-/

namespace Polyshield.Signing

open SigningLayer

/-- Shares of the order can still be matched. -/
def Post.open (p : Post) : Bool :=
  match p.state with
  | .sent => true
  | .refused => false
  | .book _ live _ _ => live

/-- No further share of the order can be matched: it has left the book, or is matched whole. -/
def Post.over (p : Post) : Bool :=
  match p.state with
  | .sent => false
  | .refused => true
  | .book _ live taken made => !live || p.size ≤ taken + made

/-- The market order whose response, or the confirmation of it, tells a fill or a miss. -/
def marketOutcome (s : SigningLayer) : Action → Option Post
  | .responded (some r) =>
    match s.listener with
    | .posting _ .fak i => if 0 < r.filledShares ∨ r.explicitMiss then s.posts[i]? else none
    | _ => none
  | .sellResponded i (some r) confirmed _ =>
    match s.tasks[i]? with
    | some (.sellPosted _ .fak _ _ _ j) =>
      if 0 < r.filledShares ∨ r.explicitMiss ∨ confirmed then s.posts[j]? else none
    | _ => none
  | _ => none

/-- The trade history shows the whole size of the order. -/
def showsWhole (s : SigningLayer) (o : TrackedOrder) (trades : Option ℕ) : Bool :=
  (s.postOf o.orderID).any fun p => trades.any fun shown => p.size ≤ shown

/-- The order has left the book, by `getOrder`. -/
def OrderAnswer.ends (od : OrderAnswer) : Bool := od = .purged ∨ od = .terminal

/-- The orders that the answers at a step report over. -/
def tells (s : SigningLayer) (a : Action) : List OrderId :=
  match a with
  | .cancelled i canceled od trades _ =>
    match s.tasks[i]? with
    | some (.cancelling o) =>
      if canceled ∨ od.ends ∨ showsWhole s o trades then [o.orderID] else []
    | _ => []
  | .reconciled i od trades _ =>
    match s.tasks[i]? with
    | some (.reconciling o) => if od.ends ∨ showsWhole s o trades then [o.orderID] else []
    | _ => []
  | .marketQueried i .terminal _ =>
    match s.tasks[i]? with
    | some (.marketQuery _ id) => [id]
    | _ => []
  | .message i _ _ _ => ((s.posts[i]?).bind Post.orderID?).toList
  | _ => ((marketOutcome s a).bind Post.orderID?).toList

/-- The order whose cancellation a step leaves to `reconcileOne`. -/
def waits (s : SigningLayer) : Action → Option TrackedOrder
  | .cancelClient i false =>
    match s.tasks[i]? with
    | some (.cancelClient n) =>
      (s.getTrackedOrder n).filter fun o => ¬s.alreadyAttested o.side n
    | _ => none
  | .cancelled i _ od none _ =>
    match s.tasks[i]? with
    | some (.cancelling o) => if od = .terminal then none else some o
    | _ => none
  | _ => none

/-- The bet whose market order a step attests before it answers. -/
def answers (s : SigningLayer) : Action → Option Hex32
  | .marketClient i _ =>
    match s.tasks[i]? with
    | some (.marketClient n sub) =>
      if sub.orderId = none ∧ staleSubmissionSec < s.now / 1000 - sub.submittedAt then some n
      else none
    | _ => none
  | .marketQueried i .terminal _ =>
    match s.tasks[i]? with
    | some (.marketQuery n _) => some n
    | _ => none
  | _ => none

/-- The signing layer with the orders that were reported over, the answers of `/cancel-bet` that are
waited for, and the bets announced with the orders POSTed by then. -/
structure Announcing where
  layer : SigningLayer
  told : List OrderId
  waiting : List TrackedOrder
  answering : List Hex32
  announced : List (Hex32 × List Post)

namespace Announcing

def initial : Announcing := ⟨.initial, [], [], [], []⟩

/-- The bet a step announces: `finalize` has returned and the order is removed, or `/cancel-bet`
answers. -/
def announces (g : Announcing) (a : Action) : Option Hex32 :=
  let s := g.layer
  match a with
  | .cancelBet n => if (getAttestation s.attestations n none).isSome then some n else none
  | .cancelClient i _ =>
    match s.tasks[i]? with
    | some (.cancelClient n) =>
      match s.getTrackedOrder n with
      | none => some n
      | some o => if s.alreadyAttested o.side n then some n else none
    | _ => none
  | .cancelled i _ _ _ _ =>
    match s.tasks[i]? with
    | some (.cancelling o) => if o.nullifier ∈ s.finalized then some o.nullifier else none
    | _ => none
  | .reconciled i _ _ _ =>
    match s.tasks[i]? with
    | some (.reconciling o) =>
      if o ∈ g.waiting ∧ (o.nullifier ∈ s.finalized ∨
          finalizing s a = none ∧ s.alreadyAttested o.side o.nullifier) then some o.nullifier
      else none
    | _ => none
  | .marketClient i _ =>
    match s.tasks[i]? with
    | some (.marketClient n _) =>
      if (getAttestation s.attestations n none).isSome then some n else none
    | _ => none
  | .marketQueried i .terminal _ =>
    match s.tasks[i]? with
    | some (.marketQuery n _) =>
      if (getAttestation s.attestations n none).isSome then some n else none
    | _ => none
  | .signed i _ | .attested i =>
    match s.tasks[i]? with
    | some (.signing input .done) =>
      if input.reportType.isBetOutcome ∧ input.nullifierOfBet ∈ g.answering then
        some input.nullifierOfBet
      else none
    | some t => t.untracks?.map TrackedOrder.nullifier
    | none => none
  | _ => none

end Announcing

/-- What is waited for dies with the process. -/
def announcing : Machine Announcing Action where
  step g a := (machine.step g.layer a).map fun s' =>
    { layer := s'
      told := g.told ++ tells g.layer a
      waiting := if a = .restart then [] else g.waiting ++ (waits g.layer a).toList
      answering := if a = .restart then [] else g.answering ++ (answers g.layer a).toList
      announced := g.announced ++ (g.announces a).toList.map fun n => (n, g.layer.posts) }

/-- A market order is killed with the fill or the miss its response tells, and a bet is announced
only when each of its orders was refused by the CLOB or has been reported over. -/
def AnnouncesSafely (g : Announcing) (a : Action) : Prop :=
  (∀ p ∈ marketOutcome g.layer a, p.open = false) ∧
    ∀ n ∈ g.announces a, ∀ p ∈ g.layer.posts, p.nullifier.bytes32 = n.bytes32 →
      p.state = .refused ∨ ∃ id ∈ g.told ++ tells g.layer a, p.orderID? = some id

/-! ## An order that is over -/

variable {s s' : SigningLayer} {a : Action}

theorem PostMoves.open {posts : List Post} {p : Post} {state : PostState}
    (hm : PostMoves posts p state) : p.open = true := by
  cases hm with
  | accept hsent => simp [Post.open, hsent]
  | refuse hsent => simp [Post.open, hsent]
  | fill hbook => simp [Post.open, hbook]
  | close hbook => simp [Post.open, hbook]

theorem off_step {i : ℕ} {p : Post} (hp : s.posts[i]? = some p) (hoff : p.open = false)
    (hs : machine.step s a = some s') : s'.posts[i]? = some p := by
  have hlt : i < s.posts.length := (List.getElem?_eq_some_iff.mp hp).1
  cases bookStep hs with
  | same hposts => rw [hposts, hp]
  | buy _ _ hposts => rw [hposts, List.getElem?_append_left hlt, hp]
  | sell _ _ _ hposts => rw [hposts, List.getElem?_append_left hlt, hp]
  | @move j q state hq hm _ hposts =>
    have hne : j ≠ i := fun e => by
      subst e
      obtain rfl := Option.some.inj (hp.symm.trans hq)
      rw [hm.open] at hoff
      cases hoff
    rw [hposts, List.getElem?_set_ne hne, hp]

theorem Post.over_of_off {p : Post} (h : p.open = false) : p.over = true := by
  unfold Post.open at h
  unfold Post.over
  split at h <;> simp_all

/-- What an order that is over can still do is leave the book. -/
theorem PostMoves.keeps_over {posts : List Post} {p : Post} {state : PostState}
    (hm : PostMoves posts p state) (hover : p.over = true) :
    ({ p with state } : Post).over = true ∧ ({ p with state } : Post).matched = p.matched
      ∧ ({ p with state } : Post).orderID? = p.orderID? := by
  cases hm with
  | accept hsent => simp [Post.over, hsent] at hover
  | refuse hsent => simp [Post.over, hsent] at hover
  | @fill id taken made taken' made' hbook htaken hmade hsize =>
    have hwhole : p.size ≤ taken + made := by simpa [Post.over, hbook] using hover
    have heq : taken' + made' = taken + made := by omega
    exact ⟨by simpa [Post.over, heq] using hwhole, by simp [Post.matched, hbook, heq],
      by simp [Post.orderID?, hbook]⟩
  | close hbook =>
    exact ⟨rfl, by simp [Post.matched, hbook], by simp [Post.orderID?, hbook]⟩

theorem over_step {i : ℕ} {p : Post} (hp : s.posts[i]? = some p) (hover : p.over = true)
    (hs : machine.step s a = some s') :
    ∃ q ∈ s'.posts[i]?, q.over = true ∧ q.matched = p.matched ∧ q.orderID? = p.orderID? := by
  have hlt : i < s.posts.length := (List.getElem?_eq_some_iff.mp hp).1
  cases bookStep hs with
  | same hposts => exact ⟨p, by rw [hposts, hp]; rfl, hover, rfl, rfl⟩
  | buy _ _ hposts =>
    exact ⟨p, by rw [hposts, List.getElem?_append_left hlt, hp]; rfl, hover, rfl, rfl⟩
  | sell _ _ _ hposts =>
    exact ⟨p, by rw [hposts, List.getElem?_append_left hlt, hp]; rfl, hover, rfl, rfl⟩
  | @move j q state hq hm _ hposts =>
    by_cases hij : j = i
    · subst hij
      obtain rfl := Option.some.inj (hp.symm.trans hq)
      obtain ⟨hover', hmatched, hid⟩ := hm.keeps_over hover
      exact ⟨{ p with state }, by rw [hposts, List.getElem?_set_self hlt]; rfl, hover', hmatched,
        hid⟩
    · exact ⟨p, by rw [hposts, List.getElem?_set_ne hij, hp]; rfl, hover, rfl, rfl⟩

/-- The CLOB has an order under this id, and it is over. -/
def Over (s : SigningLayer) (id : OrderId) : Prop :=
  ∃ p ∈ s.posts, p.orderID? = some id ∧ p.over = true

theorem Over.step {id : OrderId} (h : Over s id) (hs : machine.step s a = some s') :
    Over s' id := by
  obtain ⟨p, hp, hid, hover⟩ := h
  obtain ⟨i, hi⟩ := List.mem_iff_getElem?.mp hp
  obtain ⟨q, hq, hover', -, hid'⟩ := over_step hi hover hs
  exact ⟨q, List.mem_of_getElem? hq, hid'.trans hid, hover'⟩

theorem over_of_finalSize {id : OrderId} (h : (s.finalSize? id).isSome) : Over s id := by
  obtain ⟨m, hm⟩ := Option.isSome_iff_exists.mp h
  unfold finalSize? postOf at hm
  obtain ⟨p, hp, hsize⟩ := Option.bind_eq_some_iff.mp hm
  refine ⟨p, List.mem_of_find?_eq_some hp, by simpa using List.find?_some hp, ?_⟩
  split at hsize
  · rename_i hstate
    simp [Post.over, hstate]
  · cases hsize

theorem over_of_showsWhole {o : TrackedOrder} {canceled : Bool} {od : OrderAnswer}
    {trades : Option ℕ} (htrue : s.answersTruly o canceled od trades)
    (h : showsWhole s o trades = true) : Over s o.orderID := by
  simp only [answersTruly, Bool.decide_and, Bool.and_eq_true, decide_eq_true_eq] at htrue
  obtain ⟨p, hp, hshown⟩ := Option.any_eq_true _ _ |>.mp h
  obtain ⟨shown, hmem, hsize⟩ := Option.any_eq_true _ _ |>.mp hshown
  have hid : p.orderID? = some o.orderID := by simpa using List.find?_some hp
  have hmade := htrue.2.2 shown hmem
  simp only [makerSize, hp, Option.map_some] at hmade
  refine ⟨p, List.mem_of_find?_eq_some hp, hid, ?_⟩
  cases hstate : p.state with
  | book id live taken made =>
    simp only [hstate] at hmade
    simp only [Post.over, hstate, Bool.or_eq_true, decide_eq_true_eq]
    simp only [decide_eq_true_eq] at hsize
    exact .inr (by omega)
  | sent => simp [Post.orderID?, hstate] at hid
  | refused => simp [Post.orderID?, hstate] at hid

/-- An order is over when its cancellation took effect, when `getOrder` reports it off the book, or
when the trade history shows it whole. -/
theorem over_of_answers {o : TrackedOrder} {canceled : Bool} {od : OrderAnswer}
    {trades : Option ℕ} (htrue : s.answersTruly o canceled od trades)
    (hsize : od = .terminal → (s.finalSize? o.orderID).isSome)
    (h : canceled = true ∨ od.ends = true ∨ showsWhole s o trades = true) : Over s o.orderID := by
  rcases h with hcanceled | hends | hwhole
  · simp only [answersTruly, Bool.decide_and, Bool.and_eq_true, decide_eq_true_eq] at htrue
    exact over_of_finalSize (htrue.1 (.inl hcanceled))
  · simp only [answersTruly, Bool.decide_and, Bool.and_eq_true, decide_eq_true_eq] at htrue
    rcases of_decide_eq_true hends with rfl | rfl
    · exact over_of_finalSize (htrue.1 (.inr rfl))
    · exact over_of_finalSize (hsize rfl)
  · exact over_of_showsWhole htrue hwhole

theorem over_of_tells (hs : machine.step s a = some s')
    (hkill : ∀ p ∈ marketOutcome s a, p.open = false) {id : OrderId} (hid : id ∈ tells s a) :
    Over s id := by
  have hmarket : ∀ i : ℕ, (∀ p, marketOutcome s a = some p → s.posts[i]? = some p) →
      id ∈ ((marketOutcome s a).bind Post.orderID?).toList → Over s id := by
    intro i hi hmem
    obtain ⟨p, hp, hpid⟩ := Option.bind_eq_some_iff.mp (Option.mem_toList.mp hmem)
    exact ⟨p, List.mem_of_getElem? (hi p hp), hpid, Post.over_of_off (hkill p hp)⟩
  cases steps_of_step hs with
  | @cancelled i o canceled od trades spent _ ht htrue hc =>
    simp only [tells, ht] at hid
    split at hid
    · rename_i h
      obtain rfl := List.mem_singleton.mp hid
      refine over_of_answers htrue (fun hod => ?_) h
      obtain ⟨-, m, hm, -⟩ | ⟨hod', -⟩ | ⟨hod', -⟩ := cancelled_cases hc
      · exact Option.isSome_iff_exists.mpr ⟨m, hm⟩
      · exact absurd hod hod'
      · exact absurd hod hod'
    · cases hid
  | @reconciled i o od trades spent _ ht htrue hc =>
    simp only [tells, ht] at hid
    split at hid
    · rename_i h
      obtain rfl := List.mem_singleton.mp hid
      refine over_of_answers htrue (fun hod => ?_) (.inr h)
      obtain ⟨-, m, hm, -⟩ | ⟨hod', -⟩ | ⟨hod', -⟩ := reconciled_cases hc
      · exact Option.isSome_iff_exists.mpr ⟨m, hm⟩
      · exact absurd hod hod'
      · exact absurd hod hod'
    · cases hid
  | @marketQueried i n id' od spent _ ht hc =>
    cases od with
    | terminal =>
      simp only [tells, ht] at hid
      obtain rfl := List.mem_singleton.mp hid
      obtain ⟨m, hm, -⟩ := Option.map_eq_some_iff.mp hc
      exact over_of_finalSize (Option.isSome_iff_exists.mpr ⟨m, hm⟩)
    | _ => simp [tells, marketOutcome] at hid
  | @message i p id' taken made _ _ _ hp hstate =>
    simp only [tells, hp, Option.bind_some] at hid
    exact ⟨p, List.mem_of_getElem? hp, Option.mem_toList.mp hid, by simp [Post.over, hstate]⟩
  | @fakResponded e i p resp hl hp =>
    refine hmarket i (fun q hq => ?_) (by cases resp <;> exact hid)
    cases resp with
    | none => cases hq
    | some r =>
      simp only [marketOutcome, hl] at hq
      split at hq
      · exact hq
      · cases hq
  | @marketSold i req c k price j p r confirmed fee ht hp =>
    refine hmarket j (fun q hq => ?_) hid
    simp only [marketOutcome, ht] at hq
    split at hq
    · exact hq
    · cases hq
  | @limitResponded e t i p resp htype hl =>
    cases resp <;> cases t <;> simp_all [tells, marketOutcome]
  | @limitSellResponded i req t c k price j p r confirmed fee hfak ht =>
    cases t <;> simp_all [tells, marketOutcome]
  | clob hp hm ha => cases a <;> cases ha <;> simp [tells, marketOutcome] at hid
  | _ => simp [tells, marketOutcome] at hid

/-! ## What is announced -/

/-- The orders of the bet among these were over then, and none has matched a share since. -/
def StaysOff (s : SigningLayer) (n : Hex32) (posts : List Post) : Prop :=
  ∀ (i : ℕ) (p : Post), posts[i]? = some p → p.nullifier.bytes32 = n.bytes32 →
    p.over = true ∧ ∃ q ∈ s.posts[i]?, q.over = true ∧ q.matched = p.matched

theorem StaysOff.step {n : Hex32} {posts : List Post} (h : StaysOff s n posts)
    (hs : machine.step s a = some s') : StaysOff s' n posts := by
  intro i p hp hn
  obtain ⟨hover, q, hq, hover', hmatched⟩ := h i p hp hn
  obtain ⟨q', hq', hover'', hmatched', -⟩ := over_step hq hover' hs
  exact ⟨hover, q', hq', hover'', hmatched'.trans hmatched⟩

structure OffBook (g : Announcing) : Prop where
  linked : Linked g.layer
  told : ∀ id ∈ g.told, Over g.layer id
  announced : ∀ x ∈ g.announced, StaysOff g.layer x.1 x.2

namespace OffBook

variable {g g' : Announcing}

theorem initial : OffBook .initial where
  linked := .initial
  told := fun _ hid => absurd hid List.not_mem_nil
  announced := fun _ hx => absurd hx List.not_mem_nil

/-- A bet whose orders were refused or reported over has none left. -/
theorem staysOff (h : OffBook g) (hsafe : AnnouncesSafely g a)
    (hs : machine.step g.layer a = some s') {n : Hex32} (hn : g.announces a = some n) :
    StaysOff g.layer n g.layer.posts := by
  intro i p hp hbytes
  have hmem := List.mem_of_getElem? hp
  have hover : p.over = true := by
    rcases hsafe.2 n hn p hmem hbytes with hrefused | ⟨id, hid, hpid⟩
    · simp [Post.over, hrefused]
    · obtain ⟨q, hq, hqid, hover⟩ : Over g.layer id := by
        rcases List.mem_append.mp hid with hid | hid
        · exact h.told id hid
        · exact over_of_tells hs hsafe.1 hid
      exact h.linked.ids.eq hmem hq hpid hqid ▸ hover
  exact ⟨hover, p, hp, hover, rfl⟩

theorem step (h : OffBook g) (hsafe : AnnouncesSafely g a) (hg : announcing.step g a = some g') :
    OffBook g' := by
  obtain ⟨s', hs, rfl⟩ := Option.map_eq_some_iff.mp hg
  refine ⟨h.linked.step hs, fun id hid => ?_, fun x hx => ?_⟩
  · rcases List.mem_append.mp hid with hid | hid
    · exact (h.told id hid).step hs
    · exact (over_of_tells hs hsafe.1 hid).step hs
  · rcases List.mem_append.mp hx with hx | hx
    · exact (h.announced x hx).step hs
    · obtain ⟨n, hann, rfl⟩ := List.mem_map.mp hx
      exact (h.staysOff hsafe hs (Option.mem_toList.mp hann)).step hs

end OffBook

instance (g : Announcing) (a : Action) : Decidable (AnnouncesSafely g a) := by
  unfold AnnouncesSafely
  infer_instance

end Polyshield.Signing

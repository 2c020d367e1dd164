import Polyshield.Signing.Sales

/-!
# Each SELL is followed to its SOLD

One lemma for each part of `SalesInv`, over one step other than a restart, then
the restart, and `SalesRight` of every run. The parts meet in `accounted_step`: a
SELL is handed from the POST to the tracker or the signature, and dropped by
neither.
-/

namespace Polyshield.Signing

open SigningLayer

variable {s s' : SigningLayer} {a : Action} {bet : ℕ} {p : Post}

/-! ## The order book -/

theorem postsGrow_step (hs : machine.step s a = some s') : PostsGrow s.posts s'.posts := by
  cases bookStep hs with
  | same hposts => exact hposts ▸ fun i p hp => ⟨p, hp, rfl, rfl, rfl, rfl, fun _ h => h⟩
  | buy _ _ hposts => exact hposts ▸ postsGrow_append _
  | sell _ _ _ hposts => exact hposts ▸ postsGrow_append _
  | move hp hm _ hposts => exact hposts ▸ postsGrow_set hp hm

theorem SizedAt.step {id : OrderId} {k : ℕ} (h : SizedAt s.posts id k)
    (hs : machine.step s a = some s') : SizedAt s'.posts id k := by
  obtain ⟨p, hp, hid, hk⟩ := h
  obtain ⟨i, hi⟩ := List.mem_iff_getElem?.mp hp
  obtain ⟨p', hp', -, -, -, hk', hid'⟩ := postsGrow_step hs i p hi
  exact ⟨p', List.mem_of_getElem? hp', hid' id hid, hk'.trans hk⟩

theorem TrackedOrder.Sized.step {o : TrackedOrder} (h : o.Sized s.posts)
    (hs : machine.step s a = some s') : o.Sized s'.posts := fun hsell => (h hsell).step hs

theorem SoldFor.step {input : AttestationInput} (h : SoldFor s.posts input)
    (hs : machine.step s a = some s') : SoldFor s'.posts input := by
  obtain ⟨p, hp, hside, hn, hoff, hpos, hamount⟩ := h
  obtain ⟨i, hi⟩ := List.mem_iff_getElem?.mp hp
  exact ⟨p, List.mem_of_getElem? (off_step hi hoff hs), hside, hn, hoff, hpos, hamount⟩

theorem acquired_step (hs : machine.step s a = some s') (bet : ℕ) :
    acquired s bet ≤ acquired s' bet := by
  unfold acquired
  cases bookStep hs with
  | same hposts => rw [hposts]
  | buy _ _ hposts =>
    rw [hposts, List.map_append, List.sum_append]
    exact Nat.le_add_right _ _
  | sell _ _ _ hposts =>
    rw [hposts, List.map_append, List.sum_append]
    exact Nat.le_add_right _ _
  | @move i p state hp hm _ hposts =>
    have hle : p.bought bet ≤ Post.bought bet { p with state } := by
      unfold Post.bought
      split
      · cases hm with
        | accept hsent => simp [Post.matched, hsent]
        | refuse hsent => simp [Post.matched, hsent]
        | fill hbook htaken hmade => simpa [Post.matched, hbook] using Nat.add_le_add htaken hmade
        | close hbook => simp [Post.matched, hbook]
      · exact le_rfl
    have hlt : i < s.posts.length := (List.getElem?_eq_some_iff.mp hp).1
    have hback : (s.posts.set i { p with state }).set i p = s.posts := by
      obtain ⟨hlt, rfl⟩ := List.getElem?_eq_some_iff.mp hp
      rw [List.set_set, List.set_getElem_self]
    rw [hposts]
    have := sum_map_set_le (Post.bought bet) (List.getElem?_set_self hlt) hle
    rwa [hback] at this

/-- An order that has a fill or can still match is an old one of which this held, or it is
being POSTed for a request. -/
theorem offer_step (hs : machine.step s a = some s') {j : ℕ} (hp : s'.posts[j]? = some p)
    (hside : p.side = .sell) (hun : p.unfilled = false) :
    (∃ q, s.posts[j]? = some q ∧ q.side = .sell ∧ q.unfilled = false
        ∧ q.nullifier = p.nullifier ∧ q.size = p.size
        ∧ (∀ id, q.orderID? = some id → p.orderID? = some id) ∧ (q.open = false → p = q)) ∨
      ∃ i req t c k price, s.tasks[i]? = some (.selling req t) ∧ p.nullifier = req.nullifierOfBet
        ∧ p.size = req.soldShares
        ∧ s'.tasks = s.tasks.eraseIdx i ++ [.sellPosted req t c k price j]
        ∧ s'.posts = s.posts ++ [p] := by
  have hold : ∀ q : Post, s.posts[j]? = some q → q = p →
      ∃ q, s.posts[j]? = some q ∧ q.side = .sell ∧ q.unfilled = false
        ∧ q.nullifier = p.nullifier ∧ q.size = p.size
        ∧ (∀ id, q.orderID? = some id → p.orderID? = some id) ∧ (q.open = false → p = q) := by
    rintro q hq rfl
    exact ⟨q, hq, hside, hun, rfl, rfl, fun _ h => h, fun _ => rfl⟩
  cases bookStep hs with
  | same hposts => exact .inl (hold p (hposts ▸ hp) rfl)
  | buy _ _ hposts =>
    rw [hposts, List.getElem?_append] at hp
    split at hp
    · exact .inl (hold p hp rfl)
    · rw [List.mem_singleton.mp (List.mem_of_getElem? hp)] at hside
      cases hside
  | @sell p' _ _ _ hposts hfrom =>
    rw [hposts, List.getElem?_append] at hp
    split at hp
    · exact .inl (hold p hp rfl)
    · rename_i hge
      have hlt := (List.getElem?_eq_some_iff.mp hp).1
      rw [List.length_singleton] at hlt
      obtain rfl : j = s.posts.length := by omega
      obtain rfl := List.mem_singleton.mp (List.mem_of_getElem? hp)
      obtain ⟨i, req, t, c, k, price, ht, hn, hsize, htasks⟩ := hfrom
      exact .inr ⟨i, req, t, c, k, price, ht, hn, hsize, htasks, hposts⟩
  | @move i q state hq hm _ hposts =>
    rw [hposts] at hp
    rcases getElem?_setPost hq hp with ⟨rfl, rfl⟩ | ⟨_, hp⟩
    · refine .inl ⟨q, hq, hside, hm.not_unfilled, rfl, rfl, fun id => hm.orderID?, fun hoff => ?_⟩
      rw [hm.open] at hoff
      cases hoff
    · exact .inl (hold p hp rfl)

/-! ## The procedures -/

theorem mem_of_takenUp {t : Task} (ht : t ∈ (takenUp s a).tasks) : t ∈ s.tasks := by
  unfold takenUp at ht
  split at ht
  · exact List.mem_of_mem_eraseIdx ht
  · exact ht

theorem mem_step_or_taken (hs : machine.step s a = some s') (hrestart : a ≠ .restart) {t : Task}
    (ht : t ∈ s.tasks) : t ∈ s'.tasks ∨ ∃ i, a.task? = some i ∧ s.tasks[i]? = some t := by
  obtain ⟨new, heq, -⟩ := task_origin hs hrestart
  have hmem : t ∈ (takenUp s a).tasks ∨ ∃ i, a.task? = some i ∧ s.tasks[i]? = some t := by
    unfold takenUp
    split
    · rename_i i hi
      obtain ⟨j, hj⟩ := List.mem_iff_getElem?.mp ht
      by_cases hij : j = i
      · exact .inr ⟨i, hi, hij ▸ hj⟩
      · exact .inl (List.mem_eraseIdx_iff_getElem?.mpr ⟨j, hij, hj⟩)
    · exact .inl ht
  exact hmem.imp_left fun hmem => heq ▸ List.mem_append_left _ hmem

theorem mem_or_origin (hs : machine.step s a = some s') (hrestart : a ≠ .restart) {t : Task}
    (ht : t ∈ s'.tasks) : t ∈ s.tasks ∨ TaskOrigin s s'.posts a t := by
  obtain ⟨new, heq, hnew⟩ := task_origin hs hrestart
  rw [heq] at ht
  exact (List.mem_append.mp ht).imp mem_of_takenUp (hnew t)

theorem HasSold.step (h : HasSold s bet) (hs : machine.step s a = some s') : HasSold s' bet := by
  obtain ⟨row, hrow, hsold⟩ := h
  obtain ⟨more, heq⟩ := rows_grow hs
  exact ⟨row, heq ▸ List.mem_append_left _ hrow, hsold⟩

namespace SalesInv

/-! ## One SELL at a time -/

theorem one_step (h : SalesInv s) (hs : machine.step s a = some s') (bet : ℕ) :
    AtMostOne (Post.OnOffer bet) s'.posts := by
  cases bookStep hs with
  | same hposts => exact hposts ▸ h.one bet
  | buy _ _ hposts =>
    rw [hposts]
    exact (h.one bet).append_singleton fun hp => by cases hp.1.1
  | @sell p hside _ _ hposts hfrom =>
    obtain ⟨i, req, t, -, -, -, ht, hn, -, -⟩ := hfrom
    rw [hposts]
    refine (h.one bet).append_singleton fun hp q hq hq' => ?_
    have hunsold := (h.waiting req t (List.mem_of_getElem? ht)).2
    have := hunsold q hq ⟨hq'.1.1, by rw [hq'.1.2, ← hp.1.2, hn]⟩
    rw [hq'.2] at this
    cases this
  | @move i p state hp hm _ hposts =>
    rw [hposts]
    exact (h.one bet).set hp fun hq => ⟨hq.1, hm.not_unfilled⟩

theorem asked_step (h : SalesInv s) (hs : machine.step s a = some s') :
    ∀ p ∈ s'.posts, p.side = .sell → p.size ≤ acquired s' p.nullifier.bytes32 := by
  intro p hp hside
  refine le_trans ?_ (acquired_step hs _)
  cases bookStep hs with
  | same hposts => exact h.asked p (hposts ▸ hp) hside
  | buy _ _ hposts =>
    rcases List.mem_append.mp (hposts ▸ hp) with hp | hp
    · exact h.asked p hp hside
    · rw [List.mem_singleton.mp hp] at hside
      cases hside
  | sell _ _ _ hposts hfrom =>
    rcases List.mem_append.mp (hposts ▸ hp) with hp | hp
    · exact h.asked p hp hside
    · obtain ⟨i, req, t, -, -, -, ht, hn, hsize, -⟩ := hfrom
      rw [List.mem_singleton.mp hp, hn, hsize]
      exact (h.waiting req t (List.mem_of_getElem? ht)).1
  | @move i q state hq _ _ hposts =>
    rw [hposts] at hp
    rcases List.mem_or_eq_of_mem_set hp with hp | rfl
    · exact h.asked p hp hside
    · exact h.asked q (List.mem_of_getElem? hq) hside

theorem waiting_step (h : SalesInv s) (hc : SellsOnce s a) (hs : machine.step s a = some s')
    (hrestart : a ≠ .restart) (req : CloseRequest) (t : OrderType)
    (ht : .selling req t ∈ s'.tasks) :
    req.soldShares ≤ acquired s' req.nullifierOfBet.bytes32 ∧
      Unsold s' req.nullifierOfBet.bytes32 := by
  have hbefore : req.soldShares ≤ acquired s req.nullifierOfBet.bytes32 ∧
      Unsold s req.nullifierOfBet.bytes32 := by
    rcases mem_or_origin hs hrestart ht with ht | horigin
    · exact h.waiting req t ht
    · obtain ⟨rfl, hgo⟩ := horigin.of_closes (by simp [Task.closes?]) rfl
      exact ⟨(hc.2 hgo).1, (hc.2 hgo).2.1⟩
  refine ⟨hbefore.1.trans (acquired_step hs _), fun p hp hsells => ?_⟩
  by_contra hun
  obtain ⟨j, hj⟩ := List.mem_iff_getElem?.mp hp
  rcases offer_step hs hj hsells.1 (Bool.eq_false_of_not_eq_true hun) with
    ⟨q, hq, hside, hun', hn, -⟩ | ⟨i, req', t', c, k, price, ht', hn, -, htasks, -⟩
  · have := hbefore.2 q (List.mem_of_getElem? hq) ⟨hside, by rw [hn, hsells.2]⟩
    rw [hun'] at this
    cases this
  · -- The request being POSTed is the only one of the bet.
    have hmem : Task.selling req t ∈ s.tasks.eraseIdx i := by
      rw [htasks] at ht
      rcases List.mem_append.mp ht with ht | ht
      · exact ht
      · cases List.mem_singleton.mp ht
    exact (h.single req.nullifierOfBet.bytes32).none_eraseIdx ht'
      (show req'.nullifierOfBet.bytes32 = _ by rw [← hn, hsells.2]) _ hmem rfl

theorem single_step (h : SalesInv s) (hc : SellsOnce s a) (hs : machine.step s a = some s')
    (hrestart : a ≠ .restart) (bet : ℕ) : AtMostOne (Task.Waits bet) s'.tasks := by
  by_cases hreq : ∃ req t, a = .closeRequest req t
  · classical
    obtain ⟨req, t, rfl⟩ := hreq
    obtain rfl : s.closeRequest req t = s' := Option.some.inj hs
    rw [closeRequest_eq]
    split
    · rename_i hgo
      refine (h.single bet).append_singleton fun hwaits u hu hu' => ?_
      obtain rfl : req.nullifierOfBet.bytes32 = bet := hwaits
      exact (hc.2 hgo).2.2 u hu hu'
    · exact h.single bet
  · obtain ⟨new, heq, hnew⟩ := task_origin hs hrestart
    have htaken : AtMostOne (Task.Waits bet) (takenUp s a).tasks := by
      unfold takenUp
      split
      · exact (h.single bet).eraseIdx _
      · exact h.single bet
    rw [heq]
    refine htaken.append fun u hu hwaits => ?_
    cases u with
    | selling req t => exact hreq ⟨req, t, ((hnew _ hu).of_closes (by simp [Task.closes?]) rfl).1⟩
    | _ => exact hwaits

/-! ## The size of a SELL -/

theorem posted_step (h : SalesInv s) (hs : machine.step s a = some s') (hrestart : a ≠ .restart)
    (req : CloseRequest) (t : OrderType) (c : ℕ) (k : TokenId) (price j : ℕ)
    (ht : .sellPosted req t c k price j ∈ s'.tasks) :
    ∃ p : Post, s'.posts[j]? = some p ∧ p.size = req.soldShares := by
  rcases mem_or_origin hs hrestart ht with ht | horigin
  · obtain ⟨p, hp, hsize⟩ := h.posted req t c k price j ht
    obtain ⟨p', hp', -, -, -, hsize', -⟩ := postsGrow_step hs j p hp
    exact ⟨p', hp', hsize'.trans hsize⟩
  · obtain ⟨rfl, hposts⟩ := horigin.of_closes (by simp [Task.closes?]) rfl
    exact ⟨_, by rw [hposts, List.getElem?_concat_length], rfl⟩

theorem sizedAt_of_posted (h : SalesInv s) {req : CloseRequest} {t : OrderType} {c : ℕ}
    {k : TokenId} {price j : ℕ} {id : OrderId} (ht : .sellPosted req t c k price j ∈ s.tasks)
    (hp : s.posts[j]? = some p) (hid : p.orderID? = some id) :
    SizedAt s.posts id req.soldShares := by
  obtain ⟨q, hq, hsize⟩ := h.posted req t c k price j ht
  obtain rfl := Option.some.inj (hp.symm.trans hq)
  exact ⟨p, List.mem_of_getElem? hp, hid, hsize⟩

theorem crossing_step (h : SalesInv s) (hs : machine.step s a = some s') (hrestart : a ≠ .restart)
    (req : CloseRequest) (t : OrderType) (c : ℕ) (k : TokenId) (id : OrderId)
    (ht : .sellFee req t c k id ∈ s'.tasks) : SizedAt s'.posts id req.soldShares := by
  refine SizedAt.step ?_ hs
  rcases mem_or_origin hs hrestart ht with ht | horigin
  · exact h.crossing req t c k id ht
  · obtain ⟨price, j, p, ht, hp, hid⟩ := horigin.of_closes (by simp [Task.closes?]) rfl
    exact h.sizedAt_of_posted ht hp hid

theorem handed_sized (h : SalesInv s) (hs : machine.step s a = some s') {o : TrackedOrder}
    (ho : handed s a = some o) : o.Sized s.posts := by
  intro hsell
  unfold handed at ho
  split at ho
  case h_1 =>
    split at ho
    · split_ifs at ho
      obtain ⟨id, -, rfl⟩ := Option.map_eq_some_iff.mp ho
      cases hsell
    · cases ho
  case h_2 =>
    split at ho
    · obtain rfl := Option.some.inj ho
      cases hsell
    · cases ho
  case h_3 i resp confirmed fee =>
    split at ho
    · rename_i req t c k price j ht
      split_ifs at ho
      obtain ⟨id, hid, rfl⟩ := Option.map_eq_some_iff.mp ho
      simp only [machine, step, ht] at hs
      split at hs
      · rename_i hr
        cases hr
      · rename_i p r hp hr
        obtain rfl := Option.some.inj hr
        split_ifs at hs with htrue
        exact h.sizedAt_of_posted (List.mem_of_getElem? ht) hp (orderID?_of_truthful htrue hid)
      · cases hs
    · cases ho
  case h_4 =>
    split at ho
    · rename_i req t c k id ht
      obtain rfl := Option.some.inj ho
      exact h.crossing req t c k id (List.mem_of_getElem? ht)
    · cases ho
  case h_5 => cases ho

theorem mapped_step (h : SalesInv s) (hs : machine.step s a = some s') (hrestart : a ≠ .restart) :
    ∀ o ∈ s'.byOrderId ++ s'.trackedOrders, o.Sized s'.posts := by
  intro o ho
  have hsame : s'.byOrderId = s.byOrderId → s'.trackedOrders = s.trackedOrders →
      o.Sized s'.posts := fun hmap htable =>
    (h.mapped o (hmap ▸ htable ▸ ho)).step hs
  cases trackerStep hs with
  | quiet hq => exact hsame hq.byOrderId hq.trackedOrders
  | finalize _ hf => exact hsame hf.byOrderId hf.trackedOrders
  | @market c _ hs' =>
    subst hs'
    exact hsame (finalizes_market s c).byOrderId (finalizes_market s c).trackedOrders
  | restart ha => exact absurd ha hrestart
  | returned _ _ hmap htable =>
    refine (h.mapped o ?_).step hs
    rw [hmap, htable] at ho
    exact List.mem_append.mpr ((List.mem_append.mp ho).imp List.mem_of_mem_filter
      List.mem_of_mem_filter)
  | @track o' hhanded ht =>
    cases ht with
    | dropped _ hq => exact hsame hq.byOrderId hq.trackedOrders
    | registered _ _ hmap htable =>
      rw [hmap, htable] at ho
      have hcases : o ∈ s.byOrderId ++ s.trackedOrders ∨ o = o' := by
        simp only [List.mem_append, List.mem_filter, List.mem_singleton] at ho ⊢
        tauto
      rcases hcases with ho | rfl
      · exact (h.mapped o ho).step hs
      · exact (h.handed_sized hs hhanded).step hs

theorem mayFinalize_from {o : TrackedOrder} {filled : ℕ} (hmay : MayFinalize s a o filled) :
    o ∈ s.byOrderId ∨ ∃ t ∈ s.tasks, t.order? = some o := by
  rcases hmay with hfin | ⟨c, -, ho, -⟩
  · unfold finalizing at hfin
    split at hfin
    case h_1 =>
      obtain ⟨p, -, hfin⟩ := Option.bind_eq_some_iff.mp hfin
      obtain ⟨o', ho', heq⟩ := Option.map_eq_some_iff.mp hfin
      obtain ⟨rfl, -⟩ := Prod.mk.inj heq
      exact .inl (findTracked_mem ho')
    case h_2 =>
      split at hfin
      · rename_i o' ht
        have heq : o' = o := by
          split at hfin
          · obtain ⟨_, -, heq⟩ := Option.map_eq_some_iff.mp hfin
            exact (Prod.mk.inj heq).1
          · obtain ⟨_, -, heq⟩ := Option.map_eq_some_iff.mp hfin
            exact (Prod.mk.inj heq).1
        exact .inr ⟨_, List.mem_of_getElem? ht, heq ▸ rfl⟩
      · cases hfin
    case h_3 =>
      split at hfin
      · rename_i o' ht
        have heq : o' = o := by
          split at hfin
          · obtain ⟨_, -, heq⟩ := Option.map_eq_some_iff.mp hfin
            exact (Prod.mk.inj heq).1
          · cases hfin
          · obtain ⟨_, -, heq⟩ := Option.map_eq_some_iff.mp hfin
            exact (Prod.mk.inj heq).1
        exact .inr ⟨_, List.mem_of_getElem? ht, heq ▸ rfl⟩
      · cases hfin
    case h_4 => cases hfin
  · exact .inl ho

theorem mayFinalize_sized (h : SalesInv s) {o : TrackedOrder} {filled : ℕ}
    (hmay : MayFinalize s a o filled) : o.Sized s.posts := by
  rcases mayFinalize_from hmay with ho | ⟨t, ht, ho⟩
  · exact h.mapped o (List.mem_append_left _ ho)
  · exact h.working t ht o ho

theorem working_step (h : SalesInv s) (hs : machine.step s a = some s') (hrestart : a ≠ .restart) :
    ∀ t ∈ s'.tasks, ∀ o, t.order? = some o → o.Sized s'.posts := by
  intro t ht o ho
  refine TrackedOrder.Sized.step ?_ hs
  rcases mem_or_origin hs hrestart ht with ht | horigin
  · exact h.working t ht o ho
  · rcases horigin.of_order ho with ho | ho | ⟨u, hu, ho⟩ | ⟨filled, hmay⟩
    · exact h.mapped o (List.mem_append_left _ ho)
    · exact h.handed_sized hs ho
    · exact h.working u hu o ho
    · exact h.mayFinalize_sized hmay

/-! ## The fill of a SELL -/

theorem mayFinalize_known (hl : Linked s) {o : TrackedOrder} {filled : ℕ}
    (hmay : MayFinalize s a o filled) : o.Known s.posts := by
  rcases mayFinalize_from hmay with ho | ⟨t, ht, ho⟩
  · exact hl.byOrderId o ho
  · have hlinked := hl.tasks t ht
    cases t with
    | cancelling => exact hlinked o ho
    | reconciling => exact hlinked o ho
    | signing => exact hlinked o ho
    | attested => exact hlinked o ho
    | _ => cases ho

theorem fill_of_finalSize (hl : Linked s) {id : OrderId} {m : ℕ} (h : s.finalSize? id = some m) :
    ∀ p ∈ s.posts, p.orderID? = some id → p.open = false ∧ p.matched = m := by
  intro p hp hid
  unfold finalSize? postOf at h
  obtain ⟨q, hq, hsize⟩ := Option.bind_eq_some_iff.mp h
  obtain rfl := hl.ids.eq hp (List.mem_of_find?_eq_some hq) hid (by simpa using List.find?_some hq)
  split at hsize
  · rename_i hstate
    obtain rfl := Option.some.inj hsize
    exact ⟨by rw [Post.open, hstate], by rw [Post.matched, hstate]⟩
  · cases hsize

theorem fill_of_tells (hl : Linked s) (hs : machine.step s a = some s') {o : TrackedOrder}
    {filled : ℕ} (hfin : finalizing s a = some (o, filled)) (htells : TellsFill s o a) :
    ∀ p ∈ s.posts, p.orderID? = some o.orderID → p.open = false ∧ p.matched = filled := by
  cases a with
  | cancelled i canceled od trades spent =>
    obtain rfl : od = .terminal := htells
    simp only [finalizing] at hfin
    split at hfin
    · obtain ⟨m, hsize, heq⟩ := Option.map_eq_some_iff.mp hfin
      obtain ⟨rfl, rfl⟩ := Prod.mk.inj heq
      exact fill_of_finalSize hl hsize
    · cases hfin
  | reconciled i od trades spent =>
    obtain rfl : od = .terminal := htells
    simp only [finalizing] at hfin
    split at hfin
    · obtain ⟨m, hsize, heq⟩ := Option.map_eq_some_iff.mp hfin
      obtain ⟨rfl, rfl⟩ := Prod.mk.inj heq
      exact fill_of_finalSize hl hsize
    · cases hfin
  | message i withOrderID withAssetId withSize =>
    obtain ⟨rfl, q, hq, hqid⟩ := htells
    have hq := Option.mem_def.mp hq
    simp only [finalizing, hq, Option.bind_some] at hfin
    obtain ⟨o', -, heq⟩ := Option.map_eq_some_iff.mp hfin
    obtain ⟨rfl, rfl⟩ := Prod.mk.inj heq
    simp only [machine, step, hq] at hs
    split at hs
    · rename_i hstate
      intro p hp hid
      obtain rfl := hl.ids.eq hp (List.mem_of_getElem? hq) hid hqid
      exact ⟨by rw [Post.open, hstate], by simp [extractFill, Post.message]⟩
    · cases hs
  | _ => exact htells.elim

/-- A SELL is finalized off the book, with its fill. -/
theorem fill_of_mayFinalize (h : SalesInv s) (hc : SellsOnce s a)
    (hs : machine.step s a = some s') {o : TrackedOrder} {filled : ℕ}
    (hmay : MayFinalize s a o filled) (hn : o.nullifier ∉ s.finalized) (hsell : o.side = .sell) :
    ∀ p ∈ s.posts, p.orderID? = some o.orderID → p.open = false ∧ p.matched = filled := by
  rcases hmay with hfin | ⟨c, rfl, ho, hm, rfl⟩
  · exact ((hc.1 _ hfin hn).1 hsell).elim (fill_of_tells h.linked hs hfin) id
  · exact ((hc.2 o ho hm hn).1 hsell).elim False.elim id

/-- What `finalize` leaves behind for a SELL: nothing to sign without a fill or beside a SOLD, or
the SOLD of the fill. -/
theorem finalTask_sell (h : SalesInv s) (hc : SellsOnce s a) (hs : machine.step s a = some s')
    {o : TrackedOrder} {filled : ℕ} (spent : ℕ) (hmay : MayFinalize s a o filled)
    (hn : o.nullifier ∉ s.finalized) (hsell : o.side = .sell) :
    (finalTask s.attestations o filled spent = .attested (.untrack o) ∧
        (HasSold s o.nullifier.bytes32 ∨ OrderUnfilled s o)) ∨
      ∃ input, finalTask s.attestations o filled spent = .signing input (.untrack o) ∧
        input.reportType = .sold ∧ input.nullifierOfBet = o.nullifier ∧ SoldFor s.posts input := by
  have hfill := h.fill_of_mayFinalize hc hs hmay hn hsell
  by_cases h0 : filled = 0
  · refine .inl ⟨by simp only [finalTask, hsell, if_pos h0], .inr fun p hp hid => ?_⟩
    obtain ⟨hoff, hm⟩ := hfill p hp hid
    exact Post.unfilled_of_off hoff (hm.trans h0)
  · simp only [finalTask, hsell, if_neg h0, signTask]
    split
    case isTrue hexists =>
      simp only [existing, ReportType.isBetOutcome, Bool.false_eq_true, if_false, readTypedRow,
        List.find?_isSome] at hexists
      obtain ⟨row, hrow, hsold⟩ := hexists
      simp only [decide_eq_true_eq] at hsold
      exact .inl ⟨rfl, .inl ⟨row, hrow, hsold.2, by rw [hsold.1]⟩⟩
    case isFalse =>
      refine .inr ⟨_, rfl, rfl, rfl, ?_⟩
      obtain ⟨p, hp, hid, hpn, hside⟩ := mayFinalize_known h.linked hmay
      obtain ⟨q, hq, hqid, hsize⟩ := h.mayFinalize_sized hmay hsell
      obtain rfl := h.linked.ids.eq hp hq hid hqid
      obtain ⟨hoff, hm⟩ := hfill p hp hid
      exact ⟨p, hp, hside.trans hsell, hpn, hoff, by omega, by rw [hsize, hm]⟩

/-! ## The SOLD of a SELL -/

/-- The SOLD of a market order reports its fill. -/
theorem soldFor_told (h : SalesInv s) {i j : ℕ} {req : CloseRequest} {c : ℕ} {k : TokenId}
    {price : ℕ} {r : ClobResponse} {confirmed : Bool} {fee : ℕ} (proceeds : ℕ)
    (hc : SellsOnce s (.sellResponded i (some r) confirmed fee))
    (ht : s.tasks[i]? = some (.sellPosted req .fak c k price j))
    (hfill : 0 < toldFill req r confirmed) :
    SoldFor s.posts
      ⟨req.nullifierOfBet, .sold, soldShares req.soldShares (toldFill req r confirmed),
        proceeds⟩ := by
  obtain ⟨p, hp, hsize⟩ := h.posted req .fak c k price j (List.mem_of_getElem? ht)
  obtain ⟨q, hq, hn, hside, -⟩ := h.linked.tasks _ (List.mem_of_getElem? ht)
  obtain rfl := Option.some.inj (hp.symm.trans hq)
  obtain ⟨hoff, htold⟩ := hc.2 _ ht p hp
  rw [htold] at hfill ⊢
  exact ⟨p, List.mem_of_getElem? hp, hside, hn, hoff, hfill, by rw [hsize]⟩

theorem signing_step (h : SalesInv s) (hc : SellsOnce s a) (hs : machine.step s a = some s')
    (hrestart : a ≠ .restart) (t : Task) (ht : t ∈ s'.tasks) (input : AttestationInput)
    (hsold : t.sold? = some input) : SoldFor s'.posts input := by
  refine SoldFor.step ?_ hs
  rcases mem_or_origin hs hrestart ht with ht | horigin
  · exact h.signing t ht input hsold
  · cases horigin with
    | plain hcloses =>
      cases t with
      | signing input' after =>
        simp only [Task.sold?, Option.ite_none_right_eq_some] at hsold
        simp [Task.closes?, hsold.1] at hcloses
      | _ => cases hsold
    | works hworks => rcases hworks with rfl | rfl <;> cases hsold
    | sold ha hposted hfill =>
      subst ha
      obtain rfl := Option.some.inj hsold
      exact h.soldFor_told _ hc hposted hfill
    | @final o filled spent hmay hn =>
      cases hside : o.side with
      | sell =>
        rcases h.finalTask_sell hc hs spent hmay hn hside with
          ⟨heq, -⟩ | ⟨input', heq, htype, -, hfor⟩
        · rw [heq] at hsold
          cases hsold
        · rw [heq] at hsold
          simp only [Task.sold?, htype, if_true, Option.some.injEq] at hsold
          exact hsold ▸ hfor
      | buy =>
        have hout := (outcomeInput_spec ⟨o.nullifier, o.expectedShares, o.betAmount, o.side⟩
          filled spent).1
        simp only [finalTask, hside, signTask] at hsold
        split at hsold
        · cases hsold
        · simp only [Task.sold?, Option.ite_none_right_eq_some] at hsold
          rw [hside] at hout
          rw [hsold.1] at hout
          cases hout
    | _ => cases hsold

theorem stored_step (h : SalesInv s) (hs : machine.step s a = some s') (row : Attestation)
    (hrow : row ∈ s'.attestations) (htype : row.reportType = .sold) :
    SoldFor s'.posts row.toAttestationInput := by
  refine SoldFor.step ?_ hs
  cases recordStep hs with
  | same hrows => exact h.stored row (hrows ▸ hrow) htype
  | authorize _ hrows => exact h.stored row (hrows ▸ hrow) htype
  | setStatus _ hrows => exact h.stored row (hrows ▸ hrow) htype
  | @signed i input after signature _ ht hrows =>
    rcases mem_insertRow (hrows ▸ hrow) with hrow | ⟨rfl, -⟩
    · exact h.stored row hrow htype
    · exact h.signing _ (List.mem_of_getElem? ht) _ (by simp [Task.sold?, htype])

/-- The slot of SOLD is written once in all spellings. -/
theorem once_step (h : SalesInv s) (hs : machine.step s a = some s') (bet : ℕ) :
    AtMostOne (Attestation.SoldBy bet) s'.attestations := by
  cases recordStep hs with
  | same hrows => exact hrows ▸ h.once bet
  | authorize _ hrows => exact hrows ▸ h.once bet
  | setStatus _ hrows => exact hrows ▸ h.once bet
  | @signed i input after signature _ ht hrows =>
    rw [hrows]
    unfold insertRow
    split
    case isTrue => exact h.once bet
    case isFalse hslot =>
      refine (h.once bet).append_singleton fun hnew row hrow hsold => hslot ?_
      -- Both SOLDs report the bet's one SELL, so they spell the bet alike.
      obtain ⟨htype, rfl⟩ := hnew
      have htype : input.reportType = .sold := htype
      have hfor := h.signing _ (List.mem_of_getElem? ht) input (by simp [Task.sold?, htype])
      obtain ⟨q, hq, hoffer, -, -⟩ := exists_offer (h.stored row hrow hsold.1)
      rw [hsold.2] at hoffer
      have hn := (h.soldFor_eq hfor hq hoffer).1
      have hn' := (h.soldFor_eq (h.stored row hrow hsold.1) hq (hsold.2.symm ▸ hoffer)).1
      simp only [readTypedRow, List.find?_isSome]
      exact ⟨row, hrow, by simp [← hn, hn', htype, hsold.1]⟩

/-! ## No SELL is dropped -/

theorem soldAttested_signAndStore (u : SigningLayer) {input : AttestationInput}
    (after : AfterAttest) (htype : input.reportType = .sold) :
    SoldAttested (u.signAndStoreAttestation input after) input.nullifierOfBet.bytes32 := by
  rw [signAndStoreAttestation_eq]
  split
  case isTrue hexists =>
    simp only [existing, htype, ReportType.isBetOutcome, Bool.false_eq_true, if_false, readTypedRow,
      List.find?_isSome, decide_eq_true_eq] at hexists
    obtain ⟨row, hrow, hn, hsold⟩ := hexists
    exact .inr ⟨row, hrow, hsold, by rw [hn]⟩
  case isFalse =>
    exact .inl ⟨_, List.mem_append_right _ (List.mem_singleton_self _), input,
      by simp [Task.sold?, htype], rfl⟩

theorem off_of_hasSold (h : SalesInv s) (hp : p ∈ s.posts) (hside : p.side = .sell)
    (hun : p.unfilled = false) (hsold : HasSold s p.nullifier.bytes32) : p.open = false := by
  obtain ⟨row, hrow, htype, hn⟩ := hsold
  exact (h.soldFor_eq (h.stored row hrow htype) hp ⟨⟨hside, hn.symm⟩, hun⟩).2.1

theorem hasSold_of_alreadyAttested {n : Hex32} (h : s.alreadyAttested .sell n = true) :
    HasSold s n.bytes32 := by
  simp only [alreadyAttested, getAttestation, readTypedRow, List.find?_isSome,
    decide_eq_true_eq] at h
  obtain ⟨row, hrow, hn, hsold⟩ := h
  exact ⟨row, hrow, hsold, by rw [hn]⟩

theorem marketSold_eq {u : SigningLayer} {req : CloseRequest} {price : ℕ} {r : ClobResponse}
    {confirmed : Bool} {fee : ℕ} (hfill : toldFill req r confirmed ≠ 0) :
    u.marketSold req price r confirmed fee = u.signAndStoreAttestation
      ⟨req.nullifierOfBet, .sold, soldShares req.soldShares (toldFill req r confirmed),
        toldFill req r confirmed * price / 1000000 - fee⟩ .done := by
  simp only [marketSold, attestTerminal, toldFill] at hfill ⊢
  rw [if_neg hfill]

/-- The step has this SELL before it, and the same order after it. -/
structure Stays (s s' : SigningLayer) (j : ℕ) (q p : Post) : Prop where
  before : s.posts[j]? = some q
  side : q.side = .sell
  offered : q.unfilled = false
  nullifier : q.nullifier = p.nullifier
  ids : ∀ id, q.orderID? = some id → p.orderID? = some id
  off : q.open = false → p = q

variable {j : ℕ} {q : Post}

/-- A SELL whose SOLD is stored is off the book, and its fill stays attested. -/
theorem accounted_of_hasSold (h : SalesInv s) (hs : machine.step s a = some s')
    (hq : Stays s s' j q p) (hsold : HasSold s q.nullifier.bytes32) : Accounted s' j p := by
  have hoff := h.off_of_hasSold (List.mem_of_getElem? hq.before) hq.side hq.offered hsold
  obtain rfl := hq.off hoff
  exact .attested hoff (.inr (hsold.step hs))

/-- `trackOrder` keeps the order, or drops it beside its SOLD. -/
theorem accounted_of_handed (h : SalesInv s) (hs : machine.step s a = some s')
    (hq : Stays s s' j q p) {o : TrackedOrder} (ho : handed s a = some o) (hsell : o.side = .sell)
    (hn : o.nullifier = q.nullifier) (hid : q.orderID? = some o.orderID)
    (hopen : o.nullifier ∉ s.finalized) : Accounted s' j p := by
  cases tracks_of_handed hs ho with
  | dropped hdrop =>
    have hatt := hdrop.resolve_left hopen
    rw [hsell, hn] at hatt
    exact h.accounted_of_hasSold hs hq (hasSold_of_alreadyAttested hatt)
  | registered _ _ hmap _ hfinalized =>
    refine .tracked (o := o) ?_ (hq.ids _ hid) (hfinalized ▸ hopen)
    exact hmap ▸ List.mem_append_right _ (List.mem_singleton_self o)

theorem posted_taken {i : ℕ} {req : CloseRequest} {t : OrderType} {c : ℕ} {k : TokenId} {price : ℕ}
    (hs : machine.step s a = some s') (ha : a.task? = some i)
    (ht : s.tasks[i]? = some (.sellPosted req t c k price j)) :
    ∃ resp confirmed fee, a = .sellResponded i resp confirmed fee := by
  cases a with
  | sellResponded i' resp confirmed fee =>
    obtain rfl := Option.some.inj ha
    exact ⟨resp, confirmed, fee, rfl⟩
  | _ => cases ha <;> simp [machine, step, ht] at hs

theorem crossing_taken {i : ℕ} {req : CloseRequest} {t : OrderType} {c : ℕ} {k : TokenId}
    {id : OrderId} (hs : machine.step s a = some s') (ha : a.task? = some i)
    (ht : s.tasks[i]? = some (.sellFee req t c k id)) : ∃ fee, a = .sellCrossed i fee := by
  cases a with
  | sellCrossed i' fee =>
    obtain rfl := Option.some.inj ha
    exact ⟨fee, rfl⟩
  | _ => cases ha <;> simp [machine, step, ht] at hs

theorem signing_taken {i : ℕ} {input : AttestationInput} {after : AfterAttest}
    (hs : machine.step s a = some s') (ha : a.task? = some i)
    (ht : s.tasks[i]? = some (.signing input after)) : ∃ signature, a = .signed i signature := by
  cases a with
  | signed i' signature =>
    obtain rfl := Option.some.inj ha
    exact ⟨signature, rfl⟩
  | _ => cases ha <;> simp [machine, step, ht] at hs

/-- The response to the POST of a SELL leads to its SOLD, to its fee or to the tracker. -/
theorem accounted_of_posted (h : SalesInv s) (hc : SellsOnce s a) (hs : machine.step s a = some s')
    (hrestart : a ≠ .restart) (hq : Stays s s' j q p) {req : CloseRequest} {t : OrderType} {c : ℕ}
    {k : TokenId} {price : ℕ} (ht : .sellPosted req t c k price j ∈ s.tasks) :
    Accounted s' j p := by
  obtain ⟨q', hq', hn, -⟩ := h.linked.tasks _ ht
  obtain rfl := Option.some.inj (hq.before.symm.trans hq')
  rcases mem_step_or_taken hs hrestart ht with ht | ⟨i, hi, ht⟩
  · exact .posted ht
  · obtain ⟨resp, confirmed, fee, rfl⟩ := posted_taken hs hi ht
    have hans := hc.2 _ ht q hq.before
    cases resp with
    | none =>
      have hun : q.unfilled = true := hans
      rw [hq.offered] at hun
      cases hun
    | some r =>
      have htrue : r.truthful q = true := by
        by_contra hfalse
        simp [machine, step, ht, hq.before, hfalse] at hs
      by_cases hfak : t = .fak
      · subst hfak
        obtain ⟨hoff, htold⟩ := hans
        obtain rfl := hq.off hoff
        have hfill : toldFill req r confirmed ≠ 0 := fun h0 => by
          have := Post.unfilled_of_off hoff (htold.symm.trans h0)
          rw [hq.offered] at this
          cases this
        obtain rfl : (s.dropTask i).marketSold req price r confirmed fee = s' := by
          simpa [machine, step, ht, hq.before, htrue] using hs
        refine .attested hoff ?_
        rw [marketSold_eq hfill, hn]
        exact soldAttested_signAndStore _ _ rfl
      · obtain ⟨hsome, hopen⟩ : r.orderID.isSome ∧
            (r.filledShares = 0 → req.nullifierOfBet ∉ s.finalized) := by
          refine Or.resolve_left ?_ (Bool.eq_false_iff.mp hq.offered)
          simpa only [if_neg hfak] using hans
        obtain ⟨id, hid⟩ := Option.isSome_iff_exists.mp hsome
        have hqid := orderID?_of_truthful htrue hid
        by_cases hfilled : 0 < r.filledShares
        · obtain rfl : (s.dropTask i).spawn (.sellFee req t c k id) = s' := by
            have hs' : some ((s.dropTask i).limitSellResponded req t c k r) = some s' := by
              cases t with
              | fak => exact absurd rfl hfak
              | _ => simpa [machine, step, ht, hq.before, htrue] using hs
            simpa [limitSellResponded, hid, hfilled] using hs'
          exact .crossing (List.mem_append_right _ (List.mem_singleton_self _)) (hq.ids id hqid)
        · have ho : handed s (.sellResponded i (some r) confirmed fee)
              = some (sellTracked req t c k id 0) := by
            simp [handed, ht, hfak, hfilled, hid]
          exact h.accounted_of_handed hs hq ho rfl hn.symm hqid (hopen (by omega))

/-- The fee of a resting SELL leads to the tracker. -/
theorem accounted_of_crossing (h : SalesInv s) (hc : SellsOnce s a)
    (hs : machine.step s a = some s') (hrestart : a ≠ .restart) (hq : Stays s s' j q p)
    {req : CloseRequest} {t : OrderType} {c : ℕ} {k : TokenId} {id : OrderId}
    (ht : .sellFee req t c k id ∈ s.tasks) (hid : q.orderID? = some id) : Accounted s' j p := by
  have hmem := List.mem_of_getElem? hq.before
  obtain ⟨q', hq', hqid, hn, -⟩ := h.linked.tasks _ ht
  obtain rfl := h.linked.ids.eq hmem hq' hid hqid
  rcases mem_step_or_taken hs hrestart ht with ht | ⟨i, hi, ht⟩
  · exact .crossing ht (hq.ids id hid)
  · obtain ⟨fee, rfl⟩ := crossing_taken hs hi ht
    rcases hc.2 _ ht with hun | ⟨hfee, hopen⟩
    · have := hun q hmem hid
      rw [hq.offered] at this
      cases this
    · obtain ⟨fee, rfl⟩ := Option.isSome_iff_exists.mp hfee
      have ho : handed s (.sellCrossed i (some fee)) = some (sellTracked req t c k id fee) := by
        simp [handed, ht]
      exact h.accounted_of_handed hs hq ho rfl hn.symm hid hopen

theorem accounted_of_finalized (h : SalesInv s) (hc : SellsOnce s a)
    (hs : machine.step s a = some s') (hq : Stays s s' j q p) {o o' : TrackedOrder}
    {filled spent : ℕ} (ho : o ∈ s.byOrderId) (hid : q.orderID? = some o.orderID)
    (hopen : o.nullifier ∉ s.finalized) (hmay : MayFinalize s a o' filled)
    (hn : o'.nullifier = o.nullifier)
    (ht : finalTask s.attestations o' filled spent ∈ s'.tasks) : Accounted s' j p := by
  have hmem := List.mem_of_getElem? hq.before
  have hsafe : FinalizesSale s a o' filled := by
    rcases hmay with hfin | ⟨c, rfl, ho', hm, rfl⟩
    · exact hc.1 _ hfin
    · exact hc.2 o' ho' hm
  have hopen' : o'.nullifier ∉ s.finalized := hn ▸ hopen
  obtain ⟨q', hq', hqid, hqn, hqs⟩ := h.linked.byOrderId o ho
  obtain rfl := h.linked.ids.eq hmem hq' hid hqid
  by_cases hsame : o.orderID = o'.orderID
  · obtain ⟨-, hside⟩ := known_eq h.linked (h.linked.byOrderId o ho)
      (mayFinalize_known h.linked hmay) hsame
    have hsell : o'.side = .sell := by rw [← hside, ← hqs, hq.side]
    obtain ⟨hoff, -⟩ := h.fill_of_mayFinalize hc hs hmay hopen' hsell q hmem (hsame ▸ hid)
    rcases h.finalTask_sell hc hs spent hmay hopen' hsell with
      ⟨-, hsold | hun⟩ | ⟨input, heq, htype, hinput, -⟩
    · exact h.accounted_of_hasSold hs hq (by rwa [hqn, ← hn])
    · have := hun q hmem (hsame ▸ hid)
      rw [hq.offered] at this
      cases this
    · obtain rfl := hq.off hoff
      exact .attested hoff (.inl ⟨_, ht, input, by simp [heq, Task.sold?, htype],
        by rw [hinput, hn, hqn]⟩)
  · -- A finalization of another order of the bet finds this one without a fill.
    have hun := (hsafe hopen').2 o ho (hqs ▸ hq.side) hn.symm hsame q hmem hid
    rw [hq.offered] at hun
    cases hun

theorem accounted_of_tracked (h : SalesInv s) (hc : SellsOnce s a)
    (hs : machine.step s a = some s') (hrestart : a ≠ .restart) (hq : Stays s s' j q p)
    {o : TrackedOrder} (ho : o ∈ s.byOrderId) (hid : q.orderID? = some o.orderID)
    (hopen : o.nullifier ∉ s.finalized) : Accounted s' j p := by
  have hsame (hmap : s'.byOrderId = s.byOrderId) (hfin : s'.finalized = s.finalized) :
      Accounted s' j p := .tracked (hmap ▸ ho) (hq.ids _ hid) (hfin ▸ hopen)
  have hfinalizes {P : TrackedOrder → ℕ → Prop} (hf : Finalizes s s' P)
      (hmay : ∀ o' filled, P o' filled → MayFinalize s a o' filled) : Accounted s' j p := by
    by_cases hfin : o.nullifier ∈ s'.finalized
    · obtain ⟨o', filled, spent, hP, hn, ht⟩ := (hf.added _ hfin).resolve_left hopen
      exact h.accounted_of_finalized hc hs hq ho hid hopen (hmay _ _ hP) hn ht
    · exact .tracked (hf.byOrderId ▸ ho) (hq.ids _ hid) hfin
  cases trackerStep hs with
  | quiet hquiet => exact hsame hquiet.byOrderId hquiet.finalized
  | restart ha => exact absurd ha hrestart
  | finalize hfin hf =>
    refine hfinalizes hf ?_
    rintro o' filled ⟨rfl, rfl⟩
    exact .inl hfin
  | @market c ha hs' =>
    refine hfinalizes (hs' ▸ finalizes_market s c) ?_
    rintro o' filled ⟨ho', hm, rfl⟩
    exact .inr ⟨c, ha, ho', hm, rfl⟩
  | @track o' _ ht =>
    cases ht with
    | dropped _ hquiet => exact hsame hquiet.byOrderId hquiet.finalized
    | registered hopen' _ hmap _ hfinalized =>
      by_cases heq : o.orderID = o'.orderID
      · refine .tracked (o := o') ?_ (hq.ids _ (heq ▸ hid)) (hfinalized ▸ hopen')
        exact hmap ▸ List.mem_append_right _ (List.mem_singleton_self o')
      · refine .tracked (o := o) ?_ (hq.ids _ hid) (hfinalized ▸ hopen)
        exact hmap ▸ List.mem_append_left _ (List.mem_filter.mpr ⟨ho, by simpa using heq⟩)
  | @returned i t o' ht ho' hmap _ hfinalized =>
    have htask := List.mem_of_getElem? ht
    have hne : o.orderID ≠ o'.orderID := fun heq => by
      have hn := (known_eq h.linked (h.linked.byOrderId o ho)
        (untracks_known h.linked htask ho') heq).1
      exact hopen (hn ▸ h.linked.untracking t htask o' ho')
    refine .tracked (o := o) ?_ (hq.ids _ hid) (hfinalized ▸ hopen)
    exact hmap ▸ List.mem_filter.mpr ⟨ho, by simpa using hne⟩

/-- A SOLD that is being signed is stored, unless the signature fails. -/
theorem soldAttested_step (hc : SellsOnce s a) (hs : machine.step s a = some s')
    (hrestart : a ≠ .restart) (h : SoldAttested s bet) : SoldAttested s' bet := by
  rcases h with ⟨t, ht, input, hinput, hn⟩ | hsold
  · rcases mem_step_or_taken hs hrestart ht with ht | ⟨i, hi, ht⟩
    · exact .inl ⟨t, ht, input, hinput, hn⟩
    · cases t with
      | signing input' after =>
        obtain ⟨htype, rfl⟩ : input'.reportType = .sold ∧ input' = input := by
          simpa [Task.sold?] using hinput
        obtain ⟨signature, rfl⟩ := signing_taken hs hi ht
        cases signature with
        | none => exact .inr (hn ▸ (hc.2 _ ht _ hinput).step hs)
        | some signature =>
          have hrows : s'.attestations = insertRow s.attestations input' signature := by
            simp only [machine, step, ht, Option.some.injEq] at hs
            subst hs
            cases after <;> rfl
          have hslot := readTypedRow_insertRow s.attestations input' signature
          simp only [readTypedRow, List.find?_isSome, decide_eq_true_eq] at hslot
          obtain ⟨row, hrow, hrn, hrt⟩ := hslot
          exact .inr ⟨row, hrows ▸ hrow, hrt.trans htype, by rw [hrn, hn]⟩
      | _ => cases hinput
  · exact .inr (hsold.step hs)

theorem accounted_step (h : SalesInv s) (hc : SellsOnce s a) (hs : machine.step s a = some s')
    (hrestart : a ≠ .restart) (j : ℕ) (p : Post) (hp : s'.posts[j]? = some p)
    (hside : p.side = .sell) (hun : p.unfilled = false) : Accounted s' j p := by
  rcases offer_step hs hp hside hun with
    ⟨q, hq, hqs, hqun, hn, -, hids, hoff⟩ | ⟨i, req, t, c, k, price, -, -, -, htasks, -⟩
  · have hstays : Stays s s' j q p := ⟨hq, hqs, hqun, hn, hids, hoff⟩
    cases h.accounted j q hq hqs hqun with
    | posted ht => exact h.accounted_of_posted hc hs hrestart hstays ht
    | crossing ht hid => exact h.accounted_of_crossing hc hs hrestart hstays ht hid
    | tracked ho hid hopen => exact h.accounted_of_tracked hc hs hrestart hstays ho hid hopen
    | attested hqoff hatt =>
      obtain rfl := hoff hqoff
      exact .attested hqoff (soldAttested_step hc hs hrestart hatt)
  · have hnew : .sellPosted req t c k price j ∈ s'.tasks := by
      rw [htasks]
      exact List.mem_append_right _ (List.mem_singleton_self _)
    exact .posted hnew

/-! ## A restart -/

theorem trackedOrders_restart {o : TrackedOrder} (ho : o ∈ s.restart.trackedOrders) :
    o ∈ s.trackedOrders := by
  have key : ∀ (os : List TrackedOrder) (u : SigningLayer),
      o ∈ (os.foldl resumeTracking u).trackedOrders → o ∈ u.trackedOrders := by
    intro os
    induction os with
    | nil => exact fun _ h => h
    | cons o' os ih =>
      intro u hu
      have := ih _ hu
      unfold resumeTracking at this
      split at this
      · exact List.mem_of_mem_filter this
      · exact this
  exact key s.clearMemory.trackedOrders s.clearMemory ho

theorem byOrderId_restart {o : TrackedOrder} (ho : o ∈ s.restart.byOrderId) :
    o ∈ s.trackedOrders :=
  (mem_byOrderId_foldl_load _ _ ho).resolve_left List.not_mem_nil

/-- A restart finds a SELL in the table and tracks it again, or finds its SOLD. -/
theorem accounted_restart (h : SalesInv s) (hc : SellsOnce s .restart) {j : ℕ}
    (hp : s.posts[j]? = some p) (hside : p.side = .sell) (hun : p.unfilled = false) :
    Accounted s.restart j p := by
  have hmem := List.mem_of_getElem? hp
  have hdone (hsold : HasSold s p.nullifier.bytes32) : Accounted s.restart j p := by
    refine .attested (h.off_of_hasSold hmem hside hun hsold) (.inr ?_)
    obtain ⟨row, hrow, hsold⟩ := hsold
    exact ⟨row, (restart_frame s).1 ▸ hrow, hsold⟩
  rcases hc.2 p hmem hside with hun' | hsold | ⟨o, ho, hid⟩
  · rw [hun] at hun'
    cases hun'
  · exact hdone hsold
  · obtain ⟨q, hq, hqid, hqn, hqs⟩ := h.linked.trackedOrders o ho
    obtain rfl := h.linked.ids.eq hmem hq hid hqid
    have hone : ∀ o' ∈ s.trackedOrders, o'.nullifier = o.nullifier → o' = o :=
      fun o' ho' hn => tracked_eq h.linked ho' ho hn
    by_cases hatt : s.alreadyAttested o.side o.nullifier = true
    · refine hdone ?_
      rw [← hqs, hside, ← hqn] at hatt
      exact hasSold_of_alreadyAttested hatt
    · have hatt : s.clearMemory.alreadyAttested o.side o.nullifier = false :=
        Bool.eq_false_of_not_eq_true hatt
      refine .tracked (o := o) ?_ hid fun hfin => ?_
      · refine byOrderId_foldl_load _ _ o (fun o' ho' hid' => ?_) hatt (.inr ho)
        exact hone o' ho'
          (known_eq h.linked (h.linked.trackedOrders o' ho') (h.linked.trackedOrders o ho) hid').1
      · obtain ⟨o', ho', hn, hatt'⟩ :=
          (finalized_foldl_load _ _ hfin).resolve_left List.not_mem_nil
        obtain rfl := hone o' ho' hn
        rw [hatt] at hatt'
        cases hatt'

theorem restart (h : SalesInv s) (hc : SellsOnce s .restart) : SalesInv s.restart := by
  have hposts := (restart_frame s).2.2.2.2.1
  have hrows := (restart_frame s).1
  have htasks := tasks_restart s
  have hnone {t : Task} (ht : t ∈ s.restart.tasks) : False := by
    rw [htasks] at ht
    exact absurd ht List.not_mem_nil
  exact {
    linked := h.linked.restart
    one := fun bet => hposts.symm ▸ h.one bet
    asked := by
      unfold acquired
      rw [hposts]
      exact h.asked
    waiting := fun _ _ ht => (hnone ht).elim
    single := fun bet => htasks.symm ▸ .nil
    posted := fun _ _ _ _ _ _ ht => (hnone ht).elim
    crossing := fun _ _ _ _ _ ht => (hnone ht).elim
    mapped := fun o ho => by
      rw [hposts]
      refine h.mapped o (List.mem_append_right _ ?_)
      exact (List.mem_append.mp ho).elim byOrderId_restart trackedOrders_restart
    working := fun t ht => (hnone ht).elim
    signing := fun t ht => (hnone ht).elim
    stored := fun row hrow => hposts.symm ▸ h.stored row (hrows ▸ hrow)
    once := fun bet => hrows.symm ▸ h.once bet
    accounted := fun j p hp hside hun => h.accounted_restart hc (hposts ▸ hp) hside hun }

/-! ## The invariant on runs -/

theorem initial : SalesInv .initial where
  linked := .initial
  one := fun _ => .nil
  asked := fun _ hp => absurd hp List.not_mem_nil
  waiting := fun _ _ ht => absurd ht List.not_mem_nil
  single := fun _ => .nil
  posted := fun _ _ _ _ _ _ ht => absurd ht List.not_mem_nil
  crossing := fun _ _ _ _ _ ht => absurd ht List.not_mem_nil
  mapped := fun _ ho => absurd ho List.not_mem_nil
  working := fun _ ht => absurd ht List.not_mem_nil
  signing := fun _ ht => absurd ht List.not_mem_nil
  stored := fun _ hrow => absurd hrow List.not_mem_nil
  once := fun _ => .nil
  accounted := fun j p hp => by simp [SigningLayer.initial] at hp

theorem step (h : SalesInv s) (hc : SellsOnce s a) (hs : machine.step s a = some s') :
    SalesInv s' := by
  by_cases hrestart : a = .restart
  · subst hrestart
    obtain rfl : s.restart = s' := Option.some.inj hs
    exact h.restart hc
  · exact {
      linked := h.linked.step hs
      one := h.one_step hs
      asked := h.asked_step hs
      waiting := h.waiting_step hc hs hrestart
      single := h.single_step hc hs hrestart
      posted := h.posted_step hs hrestart
      crossing := h.crossing_step hs hrestart
      mapped := h.mapped_step hs hrestart
      working := h.working_step hs hrestart
      signing := h.signing_step hc hs hrestart
      stored := h.stored_step hs
      once := h.once_step hs
      accounted := h.accounted_step hc hs hrestart }

theorem of_run (h : machine.Run SellsOnce .initial s) : SalesInv s :=
  h.invariant .initial fun _ _ _ hi hc hs => hi.step hc hs

end SalesInv

/-- No share of a bet is sold twice and no sale is lost, while the bet has one SELL at a time whose
outcome is told. -/
theorem sales_right (h : machine.Run SellsOnce .initial s) (bet : ℕ) : SalesRight s bet :=
  (SalesInv.of_run h).salesRight bet

instance (s : SigningLayer) (bet : ℕ) : Decidable (HasSold s bet) :=
  inferInstanceAs (Decidable (∃ row ∈ s.attestations, _))

instance (s : SigningLayer) (bet : ℕ) : Decidable (Unsold s bet) :=
  inferInstanceAs (Decidable (∀ p ∈ s.posts, _))

instance (bet : ℕ) (t : Task) : Decidable (t.Waits bet) := by
  unfold Task.Waits
  split <;> infer_instance

instance (s : SigningLayer) (resp : Option ClobResponse) (confirmed : Bool) (t : Task) :
    Decidable (t.Answered s resp confirmed) := by
  unfold Task.Answered
  cases resp <;> split <;> infer_instance

instance (s : SigningLayer) (fee : Option ℕ) (t : Task) : Decidable (t.Crosses s fee) := by
  unfold Task.Crosses
  split <;> infer_instance

instance (s : SigningLayer) (o : TrackedOrder) (a : Action) : Decidable (TellsFill s o a) := by
  induction a using Action.casesOn <;> dsimp only [TellsFill] <;> infer_instance

instance (s : SigningLayer) (a : Action) (o : TrackedOrder) (filled : ℕ) :
    Decidable (FinalizesSale s a o filled) := by
  unfold FinalizesSale OrderUnfilled
  infer_instance

instance (s : SigningLayer) (a : Action) : Decidable (SellsOnce s a) := by
  refine @instDecidableAnd _ _ inferInstance ?_
  induction a using Action.casesOn with
  | signed i e => induction e using Option.casesOn <;> dsimp only <;> infer_instance
  | _ =>
    dsimp only
    infer_instance

instance (s : SigningLayer) (bet : ℕ) : Decidable (SaleUnderWay s bet) :=
  inferInstanceAs (Decidable (_ ∨ _))

/-- A resting SELL is tracked again by a restart, fills in part, leaves the book, and its SOLD is
stored. -/
def offeredAcrossRestart : List Action :=
  .authorizeBet sampleChainBet :: submitSample .fak
    ++ [.clobAccept 0 7 false 1000000,
      .responded (some ⟨some 7, .matched, true, 1000000, false, false⟩),
      .signed 0 (some "filled"), .closeRequest ⟨sampleBet, 1000000, 10000⟩ .gtc,
      .sell 0 true (some ⟨1, 2⟩) 400000, .clobAccept 1 8 true 0,
      .sellResponded 0 (some ⟨some 8, .live, false, 0, false, false⟩) false 0, .restart,
      .clobFill 1 400000 true, .reconcile (sellTracked ⟨sampleBet, 1000000, 10000⟩ .gtc 2 1 8 0),
      .clobClose 1, .reconciled 0 .terminal (some 0) 4000, .signed 0 (some "sold")]

theorem sales_right_across_restart :
    ∃ s, machine.Run SellsOnce .initial s ∧ attestedSold s 10 = 400000 ∧ ¬SaleUnderWay s 10
      ∧ SalesRight s 10 := by
  have hrun : ((machine.checkFrom SellsOnce .initial offeredAcrossRestart).map
      fun s => (attestedSold s 10, decide (SaleUnderWay s 10))) = some (400000, false) := by
    decide +kernel
  obtain ⟨s, hs, heq⟩ := Option.map_eq_some_iff.mp hrun
  obtain ⟨hsold, hidle⟩ := Prod.mk.inj heq
  have h := Machine.run_of_checkFrom hs
  exact ⟨s, h, hsold, of_decide_eq_false hidle, sales_right h 10⟩

/-- A close asks for at most the shares its bet acquired. -/
def AsksHeld (s : SigningLayer) : Action → Prop
  | .closeRequest req _ => req.soldShares ≤ acquired s req.nullifierOfBet.bytes32
  | _ => True

instance (s : SigningLayer) (a : Action) : Decidable (AsksHeld s a) := by
  induction a using Action.casesOn <;> dsimp only [AsksHeld] <;> infer_instance

/-- Two close requests for the whole bet pass the checks one after the other, and both orders are
POSTed. -/
def closedTwice : List Action :=
  .authorizeBet sampleChainBet :: submitSample .fak
    ++ [.clobAccept 0 7 false 1000000,
      .responded (some ⟨some 7, .matched, true, 1000000, false, false⟩),
      .signed 0 (some "filled"), .closeRequest ⟨sampleBet, 1000000, 10000⟩ .fak,
      .closeRequest ⟨sampleBet, 1000000, 10000⟩ .fak, .sell 0 true (some ⟨1, 2⟩) 400000,
      .sell 0 true (some ⟨1, 2⟩) 400000, .clobAccept 1 8 true 0, .clobAccept 2 9 true 0]

def soldTwice : List Action :=
  closedTwice ++ [.clobFill 1 1000000 false, .clobClose 1, .clobFill 2 1000000 false, .clobClose 2,
    .sellResponded 0 (some ⟨some 8, .matched, true, 1000000, false, false⟩) false 0,
    .signed 1 (some "sold"),
    .sellResponded 0 (some ⟨some 9, .matched, true, 1000000, false, false⟩) false 0, .attested 0]

theorem oversold_and_sale_lost :
    (¬∀ s, machine.Run AsksHeld .initial s →
      ∀ bet, attestedSold s bet + onSale s bet ≤ acquired s bet) ∧
    ¬∀ s, machine.Run AsksHeld .initial s →
      ∀ bet, ¬SaleUnderWay s bet → totalSold s bet ≤ attestedSold s bet + dust := by
  refine ⟨fun h => ?_, fun h => ?_⟩
  · have hrun : ((machine.checkFrom AsksHeld .initial closedTwice).map
        fun s => (attestedSold s 10, onSale s 10, acquired s 10)) = some (0, 2000000, 1000000) := by
      decide +kernel
    obtain ⟨s, hs, heq⟩ := Option.map_eq_some_iff.mp hrun
    simp only [Prod.mk.injEq] at heq
    have := h s (Machine.run_of_checkFrom hs) 10
    omega
  · have hrun : ((machine.checkFrom AsksHeld .initial soldTwice).map
        fun s => (attestedSold s 10, totalSold s 10, decide (SaleUnderWay s 10)))
          = some (1000000, 2000000, false) := by
      decide +kernel
    obtain ⟨s, hs, heq⟩ := Option.map_eq_some_iff.mp hrun
    simp only [Prod.mk.injEq, decide_eq_false_iff_not] at heq
    have := h s (Machine.run_of_checkFrom hs) 10 heq.2.2
    simp only [dust] at this
    omega

end Polyshield.Signing

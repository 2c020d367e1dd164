import Polyshield.Signing.Outcomes
import Polyshield.Signing.Registry

/-!
# Messages of the user channel

`wsFillTracker.ts`: `handleMessage` and what it calls, on messages as the
channel delivers them. Every bet is placed from one account, so the channel
carries the orders of all bets, tracked or not. A message finalizes the tracked
order it names, unless it names none and falls back on the token; without that
fallback what is signed for a bet depends on the messages about its own orders
alone.
-/

namespace Polyshield.Signing

inductive EventType where
  | order
  | trade
  | other
  deriving DecidableEq, Repr

inductive MsgType where
  | order
  | placement
  | update
  | cancellation
  | trade
  | other
  deriving DecidableEq, Repr

inductive MsgStatus where
  | matched
  | filled
  | partialFill
  | cancelled
  | canceled
  | expired
  | live
  | other
  deriving DecidableEq, Repr

/-- What `classifyTerminal` returns for an order that has left the book. -/
inductive TerminalStatus where
  | matched
  | partialFill
  | cancelled
  deriving DecidableEq, Repr

/-- An id that a message carries; the empty string is one that no order has. -/
inductive IdField where
  | empty
  | id (id : OrderId)
  deriving DecidableEq

/-- `size_matched`: shares scaled by 1e6, or something `BigInt` throws on. -/
inductive SizeField where
  | shares (scaled : ℕ)
  | unreadable
  deriving DecidableEq

/-- `UserChannelMsg`, with every field the handlers read. -/
structure ChannelMsg where
  eventType : Option EventType
  type : Option MsgType
  status : Option MsgStatus
  assetId : Option TokenId
  id : Option IdField
  orderId : Option IdField
  orderID : Option IdField
  sizeMatched : Option SizeField
  filledShares : Option ℕ
  spentAmount : Option ℕ
  deriving DecidableEq

def classifyTerminal (status : Option MsgStatus) (filled : ℕ) : Option TerminalStatus :=
  match status with
  | some .matched | some .filled => some .matched
  | some .partialFill => some .partialFill
  | some .cancelled | some .canceled | some .expired =>
    some (if 0 < filled then .partialFill else .cancelled)
  | _ => none

namespace ChannelMsg

def isOrderMessage (m : ChannelMsg) : Bool :=
  m.eventType = some .order
    ∨ (m.type = some .order ∨ m.type = some .placement ∨ m.type = some .update
      ∨ m.type = some .cancellation)
    ∨ (m.filledShares.isSome ∨ m.spentAmount.isSome)

/-- `m.orderID ?? m.order_id ?? m.id`, when it is not the empty string. -/
def oid (m : ChannelMsg) : Option OrderId :=
  match (m.orderID.or m.orderId).or m.id with
  | some (.id id) => some id
  | _ => none

def byId (s : SigningLayer) (id : OrderId) : Option TrackedOrder :=
  s.byOrderId.find? fun o => o.orderID = id

def byAsset (m : ChannelMsg) (s : SigningLayer) : Option TrackedOrder :=
  m.assetId.bind fun asset => s.byOrderId.find? fun o => o.tokenId = asset

def findTracked (m : ChannelMsg) (s : SigningLayer) : Option TrackedOrder :=
  (m.oid.bind (byId s)).or (m.byAsset s)

/-- `extractFill`; `none` when it throws. -/
def extractFill (m : ChannelMsg) (o : TrackedOrder) : Option (ℕ × ℕ) :=
  match m.filledShares, m.spentAmount with
  | some filled, some spent => some (filled, spent)
  | _, _ =>
    match m.sizeMatched with
    | some (.shares filled) =>
      some (filled,
        match o.side with
        | .sell => filled * o.sellLimitPrice / 1000000
        | .buy => filled * o.price / 100000000)
    | some .unreadable => none
    | none => some (0, 0)

/-- `handleOne`; `none` when it throws. -/
def handleOne (m : ChannelMsg) (s : SigningLayer) : Option SigningLayer :=
  if ¬m.isOrderMessage then some s
  else
    match m.findTracked s with
    | none => some s
    | some tracked =>
      if tracked.nullifier ∈ s.finalized then some s
      else
        match m.extractFill tracked with
        | none => none
        | some (filled, spent) =>
          match classifyTerminal m.status filled with
          | none => some s
          | some _ => some (s.finalize tracked filled spent)

end ChannelMsg

/-- `handleMessage`: the messages of a frame in order; one that throws ends the frame. -/
def handleMessage (s : SigningLayer) : List ChannelMsg → SigningLayer
  | [] => s
  | m :: msgs =>
    match m.handleOne s with
    | none => s
    | some s' => handleMessage s' msgs

/-- A frame of the channel, or the return of the attestation that a `finalize` awaits. -/
inductive ChannelEvent where
  | frame (msgs : List ChannelMsg)
  | returned (order : TrackedOrder)
  deriving DecidableEq

def deliver (s : SigningLayer) : ChannelEvent → SigningLayer
  | .frame msgs => handleMessage s msgs
  | .returned o => if o ∈ s.byOrderId ∧ o.nullifier ∈ s.finalized then s.untrack o else s

/-! ## A single message -/

namespace ChannelMsg

variable {m : ChannelMsg} {s s' : SigningLayer}

/-- The message ends the order it is matched with. -/
structure Ends (m : ChannelMsg) (s : SigningLayer) (o : TrackedOrder) (filled spent : ℕ) :
    Prop where
  order : m.isOrderMessage = true
  found : m.findTracked s = some o
  fresh : o.nullifier ∉ s.finalized
  fill : m.extractFill o = some (filled, spent)
  terminal : (classifyTerminal m.status filled).isSome

theorem handleOne_some (h : m.handleOne s = some s') :
    (s' = s ∧ ∀ o filled spent, ¬m.Ends s o filled spent) ∨
      ∃ o filled spent, m.Ends s o filled spent ∧ s' = s.finalize o filled spent := by
  unfold handleOne at h
  split at h
  case isTrue h1 =>
    cases h
    exact .inl ⟨rfl, fun o f sp he => h1 he.order⟩
  case isFalse h1 =>
    split at h
    case h_1 hf =>
      cases h
      exact .inl ⟨rfl, fun o f sp he => by rw [he.found] at hf; cases hf⟩
    case h_2 o hf =>
      split at h
      case isTrue h2 =>
        cases h
        refine .inl ⟨rfl, fun o' f sp he => ?_⟩
        cases hf.symm.trans he.found
        exact he.fresh h2
      case isFalse h2 =>
        split at h
        case h_1 => cases h
        case h_2 filled spent hfill =>
          split at h
          case h_1 hc =>
            cases h
            refine .inl ⟨rfl, fun o' f sp he => ?_⟩
            cases hf.symm.trans he.found
            cases hfill.symm.trans he.fill
            exact absurd he.terminal (by rw [hc]; simp)
          case h_2 hc =>
            cases h
            exact .inr ⟨o, filled, spent, ⟨not_not.mp h1, hf, h2, hfill, by rw [hc]; rfl⟩, rfl⟩

theorem Ends.handleOne_eq {o : TrackedOrder} {filled spent : ℕ} (h : m.Ends s o filled spent) :
    m.handleOne s = some (s.finalize o filled spent) := by
  obtain ⟨t, ht⟩ := Option.isSome_iff_exists.mp h.terminal
  rw [handleOne, if_neg (not_not.mpr h.order), h.found]
  simp only [if_neg h.fresh, h.fill, ht]

end ChannelMsg

/-! ## What a finalization starts -/

def Task.bet? : Task → Option Hex32
  | .signing input _ => some input.nullifierOfBet
  | .attested (.untrack o) => some o.nullifier
  | _ => none

def SigningLayer.underWay (s : SigningLayer) (n : Hex32) : List Task :=
  s.tasks.filter fun t => t.bet? = some n

theorem bet?_finalTask (rows : List Attestation) (o : TrackedOrder) (filled spent : ℕ) :
    (finalTask rows o filled spent).bet? = some o.nullifier := by
  have hsign (input : AttestationInput) (hin : input.nullifierOfBet = o.nullifier) :
      (signTask rows input o).bet? = some o.nullifier := by
    unfold signTask
    split
    · rfl
    · exact congrArg some hin
  unfold finalTask
  cases o.side with
  | sell =>
    by_cases h0 : filled = 0
    · simp only [if_pos h0]
      rfl
    · simp only [if_neg h0]
      exact hsign _ rfl
  | buy =>
    refine hsign _ ?_
    unfold outcomeInput
    split_ifs <;> rfl

/-- A finalization marks the bet and starts one attestation, which depends on the order, the fill
and the stored rows alone. -/
theorem finalize_eq (rows : List Attestation) (o : TrackedOrder) (filled spent : ℕ) :
    ∃ t : Task, t.bet? = some o.nullifier ∧ ∀ s : SigningLayer, s.attestations = rows →
      o.nullifier ∉ s.finalized →
      s.finalize o filled spent = (s.addFinalized o.nullifier).spawn t :=
  ⟨_, bet?_finalTask rows o filled (SigningLayer.adjSpent o spent), fun s hrows hn => by
    rw [finalize_spawn hn, hrows]⟩

/-! ## Attribution -/

namespace ChannelMsg

variable {m : ChannelMsg} {s s' : SigningLayer}

/-- A bet that the message finalizes has a tracked order with the id that the message carries. -/
def Attributed (m : ChannelMsg) (s : SigningLayer) : Prop :=
  ∀ s', m.handleOne s = some s' → ∀ n ∈ s'.finalized, n ∉ s.finalized →
    ∃ o, m.oid.bind (byId s) = some o ∧ o.nullifier = n

/-- A terminal order message without a tracked order id, with the token of an order that is tracked
and not finalized. -/
def Misdirected (m : ChannelMsg) (s : SigningLayer) : Prop :=
  m.isOrderMessage = true ∧ m.oid.bind (byId s) = none ∧
    ∃ o, m.byAsset s = some o ∧ o.nullifier ∉ s.finalized ∧
      ∃ fill, m.extractFill o = some fill ∧ (classifyTerminal m.status fill.1).isSome

instance (m : ChannelMsg) (s : SigningLayer) : Decidable (m.Misdirected s) :=
  decidable_of_iff (m.isOrderMessage = true ∧ m.oid.bind (byId s) = none ∧
      (m.byAsset s).any (fun o => o.nullifier ∉ s.finalized ∧
        (m.extractFill o).any fun fill => (classifyTerminal m.status fill.1).isSome) = true)
    (by simp [Misdirected, Option.any_eq_true])

theorem Ends.misdirected {o : TrackedOrder} {filled spent : ℕ} (h : m.Ends s o filled spent)
    (hid : m.oid.bind (byId s) = none) : m.Misdirected s := by
  have hfound := h.found
  rw [findTracked, hid, Option.none_or] at hfound
  exact ⟨h.order, hid, o, hfound, h.fresh, _, h.fill, h.terminal⟩

theorem attributed_iff : m.Attributed s ↔ ¬m.Misdirected s := by
  constructor
  · rintro h ⟨horder, hid, o, hasset, hfresh, ⟨filled, spent⟩, hfill, hterminal⟩
    have hends : m.Ends s o filled spent :=
      ⟨horder, by rw [findTracked, hid, Option.none_or, hasset], hfresh, hfill, hterminal⟩
    obtain ⟨t, -, hfin⟩ := finalize_eq s.attestations o filled spent
    obtain ⟨o', ho', -⟩ := h _ hends.handleOne_eq o.nullifier
      (by rw [hfin s rfl hfresh]; exact List.mem_append_right _ List.mem_cons_self) hfresh
    rw [hid] at ho'
    cases ho'
  · intro h s' hs n hn hnew
    rcases handleOne_some hs with ⟨rfl, -⟩ | ⟨o, filled, spent, hends, rfl⟩
    · exact absurd hn hnew
    · obtain ⟨t, -, hfin⟩ := finalize_eq s.attestations o filled spent
      rw [hfin s rfl hends.fresh] at hn
      obtain rfl : n = o.nullifier :=
        List.mem_singleton.mp ((List.mem_append.mp hn).resolve_left hnew)
      cases hid : m.oid.bind (byId s) with
      | none => exact absurd (hends.misdirected hid) h
      | some o' =>
        have hfound := hends.found
        rw [findTracked, hid, Option.some_or, Option.some.injEq] at hfound
        exact ⟨o', rfl, by rw [hfound]⟩

end ChannelMsg

/-- Every message of a frame is attributed, and none is lost to one before it that throws. -/
def FrameAttributed (s : SigningLayer) : List ChannelMsg → Prop
  | [] => True
  | m :: msgs => m.Attributed s ∧
    match m.handleOne s with
    | none => msgs = []
    | some s' => FrameAttributed s' msgs

/-- No message of a frame falls back on the token, and none but the last throws. -/
def FrameDirect (s : SigningLayer) : List ChannelMsg → Prop
  | [] => True
  | m :: msgs => ¬m.Misdirected s ∧
    match m.handleOne s with
    | none => msgs = []
    | some s' => FrameDirect s' msgs

instance decidableFrameDirect : (s : SigningLayer) → (msgs : List ChannelMsg) →
    Decidable (FrameDirect s msgs)
  | _, [] => .isTrue trivial
  | s, m :: msgs =>
    match h : m.handleOne s with
    | none => decidable_of_iff (¬m.Misdirected s ∧ msgs = []) (by simp [FrameDirect, h])
    | some s' =>
      have := decidableFrameDirect s' msgs
      decidable_of_iff (¬m.Misdirected s ∧ FrameDirect s' msgs) (by simp [FrameDirect, h])

theorem frameAttributed_iff {s : SigningLayer} {msgs : List ChannelMsg} :
    FrameAttributed s msgs ↔ FrameDirect s msgs := by
  induction msgs generalizing s with
  | nil => exact Iff.rfl
  | cons m msgs ih =>
    rw [FrameAttributed, FrameDirect, ChannelMsg.attributed_iff]
    cases m.handleOne s with
    | none => exact Iff.rfl
    | some s' => exact and_congr_right' ih

def RunAttributed (s : SigningLayer) : List ChannelEvent → Prop
  | [] => True
  | .frame msgs :: es => FrameAttributed s msgs ∧ RunAttributed (deliver s (.frame msgs)) es
  | .returned o :: es => RunAttributed (deliver s (.returned o)) es

def RunDirect (s : SigningLayer) : List ChannelEvent → Prop
  | [] => True
  | .frame msgs :: es => FrameDirect s msgs ∧ RunDirect (deliver s (.frame msgs)) es
  | .returned o :: es => RunDirect (deliver s (.returned o)) es

instance decidableRunDirect : (s : SigningLayer) → (es : List ChannelEvent) →
    Decidable (RunDirect s es)
  | _, [] => .isTrue trivial
  | s, .frame msgs :: es =>
    have := decidableRunDirect (deliver s (.frame msgs)) es
    inferInstanceAs (Decidable (_ ∧ _))
  | s, .returned o :: es => decidableRunDirect (deliver s (.returned o)) es

theorem runAttributed_iff {s : SigningLayer} {es : List ChannelEvent} :
    RunAttributed s es ↔ RunDirect s es := by
  induction es generalizing s with
  | nil => exact Iff.rfl
  | cons e es ih =>
    cases e with
    | frame msgs => exact and_congr frameAttributed_iff ih
    | returned o => exact ih

/-! ## What is signed for one bet -/

/-- The message carries the id of an order of the bet. -/
def ChannelMsg.about (s : SigningLayer) (n : Hex32) (m : ChannelMsg) : Bool :=
  s.byOrderId.any fun o => o.nullifier = n ∧ m.oid = some o.orderID

/-- The part of an event that is about the bet's own orders. -/
def ChannelEvent.own (s : SigningLayer) (n : Hex32) : ChannelEvent → ChannelEvent
  | .frame msgs => .frame (msgs.filter (ChannelMsg.about s n))
  | .returned o => if o.nullifier = n then .returned o else .frame []

/-- The keys of `byOrderId` are distinct. -/
def SigningLayer.Keyed (s : SigningLayer) : Prop := (s.byOrderId.map (·.orderID)).Nodup

instance (s : SigningLayer) : Decidable s.Keyed := inferInstanceAs (Decidable (List.Nodup _))

/-- Two runs from `s₀` that have done the same for the bet, whose orders both still track until it
is finalized. -/
structure Agree (s₀ : SigningLayer) (n : Hex32) (s₁ s₂ : SigningLayer) : Prop where
  rows₁ : s₁.attestations = s₀.attestations
  rows₂ : s₂.attestations = s₀.attestations
  underWay : s₁.underWay n = s₂.underWay n
  finalized : n ∈ s₁.finalized ↔ n ∈ s₂.finalized
  tracked : ∀ o ∈ s₁.byOrderId, o ∈ s₀.byOrderId
  own : n ∉ s₁.finalized → ∀ o ∈ s₀.byOrderId, o.nullifier = n →
    ChannelMsg.byId s₁ o.orderID = some o ∧ ChannelMsg.byId s₂ o.orderID = some o

section

variable {s s' s₀ s₁ s₂ : SigningLayer} {n : Hex32} {m : ChannelMsg} {o : TrackedOrder}

theorem SigningLayer.Keyed.eq (h : s.Keyed) {o o' : TrackedOrder} (ho : o ∈ s.byOrderId)
    (ho' : o' ∈ s.byOrderId) (hid : o.orderID = o'.orderID) : o = o' :=
  List.inj_on_of_nodup_map h ho ho' hid

theorem SigningLayer.Keyed.byId (h : s.Keyed) (ho : o ∈ s.byOrderId) :
    ChannelMsg.byId s o.orderID = some o := by
  cases hf : ChannelMsg.byId s o.orderID with
  | none =>
    have := List.find?_eq_none.mp hf o ho
    simp at this
  | some o' =>
    have hid : o'.orderID = o.orderID := by simpa using List.find?_some hf
    rw [h.eq (List.mem_of_find?_eq_some hf) ho hid]

theorem underWay_spawn_ne {t : Task} {b : Hex32} (ht : t.bet? = some b) (hne : b ≠ n) :
    (s.spawn t).underWay n = s.underWay n := by
  simp [SigningLayer.underWay, SigningLayer.spawn, List.filter_append, ht, hne]

theorem underWay_spawn_eq {t : Task} (h : s₁.underWay n = s₂.underWay n) :
    (s₁.spawn t).underWay n = (s₂.spawn t).underWay n := by
  simp only [SigningLayer.underWay, SigningLayer.spawn, List.filter_append] at h ⊢
  rw [h]

/-- What the bet keeps when another one is finalized. -/
theorem finalize_other (filled spent : ℕ) (hfresh : o.nullifier ∉ s.finalized)
    (hne : o.nullifier ≠ n) :
    (s.finalize o filled spent).underWay n = s.underWay n ∧
      (n ∈ (s.finalize o filled spent).finalized ↔ n ∈ s.finalized) ∧
      (s.finalize o filled spent).byOrderId = s.byOrderId ∧
      (s.finalize o filled spent).attestations = s.attestations := by
  obtain ⟨t, ht, hfin⟩ := finalize_eq s.attestations o filled spent
  rw [hfin s rfl hfresh]
  refine ⟨underWay_spawn_ne ht hne, ?_, rfl, rfl⟩
  simp [SigningLayer.spawn, SigningLayer.addFinalized, Ne.symm hne]

/-- A message that finalizes another bet, or none, in the first run. -/
theorem Agree.other (h : Agree s₀ n s₁ s₂) (hm : ¬m.Misdirected s₁) (habout : ¬m.about s₀ n)
    (hs : m.handleOne s₁ = some s') : Agree s₀ n s' s₂ := by
  rcases ChannelMsg.handleOne_some hs with ⟨rfl, -⟩ | ⟨o, filled, spent, hends, rfl⟩
  · exact h
  · have hne : o.nullifier ≠ n := fun hn => by
      cases hid : m.oid.bind (ChannelMsg.byId s₁) with
      | none => exact hm (hends.misdirected hid)
      | some o' =>
        have hfound := hends.found
        rw [ChannelMsg.findTracked, hid, Option.some_or, Option.some.injEq] at hfound
        subst hfound
        obtain ⟨id, hoid, hbyId⟩ := Option.bind_eq_some_iff.mp hid
        have hideq : o'.orderID = id := by simpa using List.find?_some hbyId
        refine habout (List.any_eq_true.mpr ⟨o', h.tracked _ (List.mem_of_find?_eq_some hbyId), ?_⟩)
        simp [hn, hoid, hideq]
    obtain ⟨h1, h2, h3, h4⟩ := finalize_other (n := n) filled spent hends.fresh
      hne
    refine ⟨h4.trans h.rows₁, h.rows₂, h1.trans h.underWay, h2.trans h.finalized,
      fun o ho => h.tracked o (h3 ▸ ho), fun hn o ho hon => ?_⟩
    have := h.own (fun hn' => hn (h2.mpr hn')) o ho hon
    rwa [ChannelMsg.byId, h3]

/-- Once the bet is finalized no message changes what was done for it. -/
theorem handleMessage_finalized (hn : n ∈ s.finalized) (msgs : List ChannelMsg) :
    (handleMessage s msgs).underWay n = s.underWay n ∧ n ∈ (handleMessage s msgs).finalized ∧
      (handleMessage s msgs).byOrderId = s.byOrderId ∧
      (handleMessage s msgs).attestations = s.attestations := by
  induction msgs generalizing s with
  | nil => exact ⟨rfl, hn, rfl, rfl⟩
  | cons m msgs ih =>
    rw [handleMessage]
    cases hm : m.handleOne s with
    | none => exact ⟨rfl, hn, rfl, rfl⟩
    | some s' =>
      rcases ChannelMsg.handleOne_some hm with ⟨rfl, -⟩ | ⟨o, filled, spent, hends, rfl⟩
      · exact ih hn
      · obtain ⟨h1, h2, h3, h4⟩ := finalize_other (n := n) filled spent
          hends.fresh fun e => hends.fresh (e ▸ hn)
        obtain ⟨i1, i2, i3, i4⟩ := ih (h2.mpr hn)
        exact ⟨i1.trans h1, i2, i3.trans h3, i4.trans h4⟩

/-- Two states that find the same order decide alike. -/
theorem ChannelMsg.handleOne_same (h1 : m.findTracked s₁ = some o) (h2 : m.findTracked s₂ = some o)
    (hn1 : o.nullifier ∉ s₁.finalized) (hn2 : o.nullifier ∉ s₂.finalized) :
    (m.handleOne s₁ = none ∧ m.handleOne s₂ = none) ∨
      (m.handleOne s₁ = some s₁ ∧ m.handleOne s₂ = some s₂) ∨
      ∃ filled spent, m.handleOne s₁ = some (s₁.finalize o filled spent) ∧
        m.handleOne s₂ = some (s₂.finalize o filled spent) := by
  unfold handleOne
  by_cases hm : m.isOrderMessage
  · simp only [hm, not_true_eq_false, if_false, h1, h2, if_neg hn1, if_neg hn2]
    cases m.extractFill o with
    | none => exact .inl ⟨rfl, rfl⟩
    | some fill =>
      simp only
      cases classifyTerminal m.status fill.1 with
      | none => exact .inr (.inl ⟨rfl, rfl⟩)
      | some t => exact .inr (.inr ⟨_, _, rfl, rfl⟩)
  · exact .inr (.inl ⟨if_pos hm, if_pos hm⟩)

theorem Agree.finalize {filled spent : ℕ} (h : Agree s₀ n s₁ s₂) (ho : o.nullifier = n)
    (hn : n ∉ s₁.finalized) :
    Agree s₀ n (s₁.finalize o filled spent) (s₂.finalize o filled spent) := by
  subst ho
  obtain ⟨t, -, hfin⟩ := finalize_eq s₀.attestations o filled spent
  rw [hfin s₁ h.rows₁ hn, hfin s₂ h.rows₂ fun h2 => hn (h.finalized.mpr h2)]
  have hmem (s : SigningLayer) : o.nullifier ∈ (s.addFinalized o.nullifier).finalized :=
    List.mem_append_right _ List.mem_cons_self
  exact ⟨h.rows₁, h.rows₂, underWay_spawn_eq h.underWay, iff_of_true (hmem _) (hmem _), h.tracked,
    fun hn => absurd (hmem _) hn⟩

theorem Agree.frames (h : Agree s₀ n s₁ s₂) (hn : n ∈ s₁.finalized) (msgs msgs' : List ChannelMsg) :
    Agree s₀ n (handleMessage s₁ msgs) (handleMessage s₂ msgs') := by
  obtain ⟨a1, a2, a3, a4⟩ := handleMessage_finalized hn msgs
  obtain ⟨b1, b2, -, b4⟩ := handleMessage_finalized (h.finalized.mp hn) msgs'
  exact ⟨a4.trans h.rows₁, b4.trans h.rows₂, a1.trans (h.underWay.trans b1.symm),
    iff_of_true a2 b2, fun o ho => h.tracked o (a3 ▸ ho), fun hn' => absurd a2 hn'⟩

theorem Agree.frame {msgs : List ChannelMsg} (h : Agree s₀ n s₁ s₂) (hd : FrameDirect s₁ msgs) :
    Agree s₀ n (handleMessage s₁ msgs)
      (handleMessage s₂ (msgs.filter (ChannelMsg.about s₀ n))) := by
  induction msgs generalizing s₁ s₂ with
  | nil => exact h
  | cons m msgs ih =>
    by_cases hn : n ∈ s₁.finalized
    · exact h.frames hn _ _
    obtain ⟨hdirect, hrest⟩ := hd
    by_cases habout : m.about s₀ n
    · obtain ⟨o, ho, hon⟩ := List.any_eq_true.mp habout
      obtain ⟨rfl, hoid⟩ : o.nullifier = n ∧ m.oid = some o.orderID := by simpa using hon
      obtain ⟨hid1, hid2⟩ := h.own hn o ho rfl
      have hf1 : m.findTracked s₁ = some o := by
        rw [ChannelMsg.findTracked, hoid, Option.bind_some, hid1, Option.some_or]
      have hf2 : m.findTracked s₂ = some o := by
        rw [ChannelMsg.findTracked, hoid, Option.bind_some, hid2, Option.some_or]
      rw [List.filter_cons_of_pos habout, handleMessage, handleMessage]
      rcases ChannelMsg.handleOne_same hf1 hf2 hn fun h2 => hn (h.finalized.mpr h2) with
        ⟨e1, e2⟩ | ⟨e1, e2⟩ | ⟨filled, spent, e1, e2⟩
      · rw [e1, e2]
        exact h
      · rw [e1] at hrest ⊢
        rw [e2]
        exact ih h hrest
      · rw [e1] at hrest ⊢
        rw [e2]
        exact ih (h.finalize rfl hn) hrest
    · rw [List.filter_cons_of_neg habout, handleMessage]
      cases hm : m.handleOne s₁ with
      | none =>
        rw [hm] at hrest
        rw [hrest]
        exact h
      | some s' =>
        rw [hm] at hrest
        exact ih (h.other hdirect habout hm) hrest

theorem deliver_returned (s : SigningLayer) (o : TrackedOrder) :
    (deliver s (.returned o)).attestations = s.attestations ∧
      (deliver s (.returned o)).tasks = s.tasks ∧
      (deliver s (.returned o)).finalized = s.finalized ∧
      ∀ o' ∈ (deliver s (.returned o)).byOrderId, o' ∈ s.byOrderId := by
  rw [deliver]
  split
  · exact ⟨rfl, rfl, rfl, fun o' ho' => (List.mem_filter.mp ho').1⟩
  · exact ⟨rfl, rfl, rfl, fun o' ho' => ho'⟩

theorem Agree.returned (hkeys : s₀.Keyed) (h : Agree s₀ n s₁ s₂) (o : TrackedOrder) :
    Agree s₀ n (deliver s₁ (.returned o))
      (deliver s₂ ((ChannelEvent.returned o).own s₀ n)) := by
  obtain ⟨a1, a2, a3, a4⟩ := deliver_returned s₁ o
  by_cases hon : o.nullifier = n
  · rw [ChannelEvent.own, if_pos hon]
    by_cases hn : n ∈ s₁.finalized
    · obtain ⟨b1, b2, b3, -⟩ := deliver_returned s₂ o
      refine ⟨a1.trans h.rows₁, b1.trans h.rows₂, ?_, by rw [a3, b3]; exact h.finalized,
        fun o' ho' => h.tracked o' (a4 o' ho'), fun hn' => absurd (a3 ▸ hn) hn'⟩
      rw [SigningLayer.underWay, SigningLayer.underWay, a2, b2]
      exact h.underWay
    · rw [deliver, if_neg fun hc => hn (hon ▸ hc.2), deliver,
        if_neg fun hc => hn (h.finalized.mpr (hon ▸ hc.2))]
      exact h
  · rw [ChannelEvent.own, if_neg hon]
    change Agree s₀ n (deliver s₁ (.returned o)) s₂
    rw [deliver] at a4 ⊢
    split at a4
    case isFalse hc =>
      rw [if_neg hc]
      exact h
    case isTrue hc =>
      rw [if_pos hc]
      refine ⟨h.rows₁, h.rows₂, h.underWay, h.finalized, fun o' ho' => h.tracked o' (a4 o' ho'),
        fun hn o' ho' hon' => ?_⟩
      obtain ⟨hid1, hid2⟩ := h.own hn o' ho' hon'
      refine ⟨?_, hid2⟩
      have hne : o'.orderID ≠ o.orderID := fun e =>
        hon (hkeys.eq ho' (h.tracked o hc.1) e ▸ hon')
      rw [ChannelMsg.byId, SigningLayer.untrack, SigningLayer.unpersist, List.find?_filter]
      rw [ChannelMsg.byId] at hid1
      rw [← hid1]
      congr 1
      funext t
      by_cases ht : t.orderID = o'.orderID
      · simp [ht, hne]
      · simp [ht]

end

/-- The messages finalize only the orders they name, and what is signed for a bet is what the
messages about its own orders lead to, exactly when no message falls back on the token. -/
theorem fills_attributed {s : SigningLayer} (hkeys : s.Keyed) (es : List ChannelEvent) :
    (RunAttributed s es ∧ ∀ n,
        (es.foldl deliver s).underWay n
          = ((es.map (ChannelEvent.own s n)).foldl deliver s).underWay n)
      ↔ RunDirect s es := by
  refine ⟨fun h => runAttributed_iff.mp h.1, fun h => ⟨runAttributed_iff.mpr h, fun n => ?_⟩⟩
  suffices key : ∀ s₁ s₂, Agree s n s₁ s₂ → RunDirect s₁ es →
      Agree s n (es.foldl deliver s₁) ((es.map (ChannelEvent.own s n)).foldl deliver s₂) by
    have hinit : Agree s n s s := ⟨rfl, rfl, rfl, Iff.rfl, fun _ ho => ho, fun _ o ho _ =>
      ⟨hkeys.byId ho, hkeys.byId ho⟩⟩
    exact (key s s hinit h).underWay
  clear h
  induction es with
  | nil => exact fun s₁ s₂ h _ => h
  | cons e es ih =>
    intro s₁ s₂ h hd
    cases e with
    | frame msgs => exact ih _ _ (h.frame hd.1) hd.2
    | returned o => exact ih _ _ (h.returned hkeys o) hd

/-- The message the order tracker sees when an order leaves the book. -/
def UserChannelMsg.asChannelMsg (m : UserChannelMsg) : ChannelMsg where
  eventType := some .order
  type := none
  status := some .canceled
  assetId := m.assetId
  id := m.orderID.map .id
  orderId := none
  orderID := none
  sizeMatched := m.sizeMatched.map .shares
  filledShares := none
  spentAmount := none

/-- The runs of the signing layer handle such messages as the channel's handler does. -/
theorem handleOne_asChannelMsg (m : UserChannelMsg) (s : SigningLayer) :
    m.asChannelMsg.handleOne s = some (s.handleOne m) := by
  have hfound : m.asChannelMsg.findTracked s = s.findTracked m := by
    cases h : m.orderID <;>
      simp [ChannelMsg.findTracked, ChannelMsg.oid, ChannelMsg.byId, ChannelMsg.byAsset,
        SigningLayer.findTracked, UserChannelMsg.asChannelMsg, h]
  unfold ChannelMsg.handleOne SigningLayer.handleOne
  rw [if_neg (by simp [ChannelMsg.isOrderMessage, UserChannelMsg.asChannelMsg]), hfound]
  cases s.findTracked m with
  | none => rfl
  | some o =>
    have hfill : m.asChannelMsg.extractFill o = some (SigningLayer.extractFill m o) := by
      unfold ChannelMsg.extractFill SigningLayer.extractFill UserChannelMsg.asChannelMsg
      cases m.sizeMatched <;> rfl
    simp only [hfill]
    split
    case isTrue hn => rw [SigningLayer.finalize, if_pos hn]
    case isFalse => rfl

def sampleResting (c : Char) (hc : (hexDigit? c).isSome) (orderID : OrderId) : TrackedOrder where
  nullifier := sampleNullifier c hc
  orderID
  conditionId := 2
  tokenId := 1
  expectedShares := 1000000
  betAmount := 500000
  price := 50000000
  orderType := .gtc
  side := .buy
  sellLimitPrice := 0
  takerFeeUsd := 0

def sampleRestingA : TrackedOrder := sampleResting 'a' hexDigit_a 10

def sampleRestingB : TrackedOrder := sampleResting 'b' (by decide) 11

def sampleTracked : SigningLayer :=
  { SigningLayer.initial with byOrderId := [sampleRestingA, sampleRestingB] }

def sampleCancellation (id : OrderId) (assetId : TokenId) (matched : ℕ) : ChannelMsg where
  eventType := some .order
  type := some .cancellation
  status := some .canceled
  assetId := some assetId
  id := some (.id id)
  orderId := none
  orderID := none
  sizeMatched := some (.shares matched)
  filledShares := none
  spentAmount := none

def sampleEvents : List ChannelEvent :=
  [.frame [sampleCancellation 99 3 0, sampleCancellation 11 1 0], .returned sampleRestingB,
    .frame [sampleCancellation 10 1 400000]]

theorem fills_attributed_two_bets :
    (sampleEvents.foldl deliver sampleTracked).underWay sampleRestingA.nullifier
        = [.signing ⟨sampleRestingA.nullifier, .partialFill, 400000, 200000⟩
            (.untrack sampleRestingA)] ∧
      RunAttributed sampleTracked sampleEvents ∧ ∀ n,
        (sampleEvents.foldl deliver sampleTracked).underWay n
          = ((sampleEvents.map (ChannelEvent.own sampleTracked n)).foldl deliver
              sampleTracked).underWay n :=
  ⟨by decide +kernel, (fills_attributed (by decide) sampleEvents).mpr (by decide +kernel)⟩

/-- The unfilled FAK order 99 of another bettor, which is not tracked, fails the bet whose order
rests on the same token. -/
theorem fills_misattributed :
    (sampleCancellation 99 1 0).oid = some 99 ∧ ChannelMsg.byId sampleTracked 99 = none ∧
      (deliver sampleTracked (.frame [sampleCancellation 99 1 0])).underWay sampleRestingA.nullifier
        = [.signing ⟨sampleRestingA.nullifier, .failed, 0, 0⟩ (.untrack sampleRestingA)] := by
  decide +kernel

end Polyshield.Signing

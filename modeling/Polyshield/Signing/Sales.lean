import Polyshield.Lib.AtMostOne
import Polyshield.Signing.OffBook
import Polyshield.Signing.Procedures

/-!
# No bet is oversold and no sale is lost

SOLD has one slot for each bet, and the checks of a close request look at it long
before it is filled. While the bet has one SELL at a time, each of them is
followed from the request to the stored SOLD (`SalesInv`): an order with a fill,
or that can still fill, is waited for, tracked, or attested. What a step must
not do is in `SellsOnce`.
-/

namespace Polyshield.Signing

open SigningLayer

/-! ## The shares of a bet -/

def Post.Sells (bet : ℕ) (p : Post) : Prop := p.side = .sell ∧ p.nullifier.bytes32 = bet

instance (bet : ℕ) (p : Post) : Decidable (p.Sells bet) := inferInstanceAs (Decidable (_ ∧ _))

def Post.bought (bet : ℕ) (p : Post) : ℕ :=
  if p.side = .buy ∧ p.nullifier.bytes32 = bet then p.matched else 0

def Post.sold (bet : ℕ) (p : Post) : ℕ := if p.Sells bet then p.matched else 0

/-- The part of a SELL that can still match. -/
def Post.onSale (bet : ℕ) (p : Post) : ℕ :=
  if p.Sells bet ∧ p.open = true then p.size - p.matched else 0

def Attestation.soldOf (bet : ℕ) (row : Attestation) : ℕ :=
  if row.reportType = .sold ∧ row.nullifierOfBet.bytes32 = bet then row.amountA else 0

def acquired (s : SigningLayer) (bet : ℕ) : ℕ := (s.posts.map (Post.bought bet)).sum

def totalSold (s : SigningLayer) (bet : ℕ) : ℕ := (s.posts.map (Post.sold bet)).sum

def onSale (s : SigningLayer) (bet : ℕ) : ℕ := (s.posts.map (Post.onSale bet)).sum

def attestedSold (s : SigningLayer) (bet : ℕ) : ℕ :=
  (s.attestations.map (Attestation.soldOf bet)).sum

def Task.sold? : Task → Option AttestationInput
  | .signing input _ => if input.reportType = .sold then some input else none
  | _ => none

def HasSold (s : SigningLayer) (bet : ℕ) : Prop :=
  ∃ row ∈ s.attestations, row.reportType = .sold ∧ row.nullifierOfBet.bytes32 = bet

/-- SOLD of the bet is stored, or will be once it is signed. -/
def SoldAttested (s : SigningLayer) (bet : ℕ) : Prop :=
  (∃ t ∈ s.tasks, ∃ input ∈ t.sold?, input.nullifierOfBet.bytes32 = bet) ∨ HasSold s bet

/-- The process still knows of this SELL: it waits for the response or the fee, tracks the order
and will finalize it, or has the fill attested. -/
inductive Accounted (s : SigningLayer) (j : ℕ) (p : Post) : Prop
  | posted {req : CloseRequest} {t : OrderType} {c : ℕ} {k : TokenId} {price : ℕ}
      (h : .sellPosted req t c k price j ∈ s.tasks)
  | crossing {req : CloseRequest} {t : OrderType} {c : ℕ} {k : TokenId} {id : OrderId}
      (h : .sellFee req t c k id ∈ s.tasks) (hid : p.orderID? = some id)
  | tracked {o : TrackedOrder} (ho : o ∈ s.byOrderId) (hid : p.orderID? = some o.orderID)
      (hopen : o.nullifier ∉ s.finalized)
  | attested (hoff : p.open = false) (h : SoldAttested s p.nullifier.bytes32)

/-- A SELL of the bet is under way: requested, waited for, being signed, or tracked. -/
def SaleUnderWay (s : SigningLayer) (bet : ℕ) : Prop :=
  (∃ t ∈ s.tasks, ∃ c ∈ t.closes?, c.1.bytes32 = bet) ∨
    ∃ o ∈ s.byOrderId, o.side = .sell ∧ o.nullifier.bytes32 = bet ∧ o.nullifier ∉ s.finalized

/-- No share of the bet is sold twice, each SELL with a fill is accounted for, and once none is
under way SOLD is what they matched. -/
structure SalesRight (s : SigningLayer) (bet : ℕ) : Prop where
  within : attestedSold s bet + onSale s bet ≤ acquired s bet
  accounted : ∀ (j : ℕ) (p : Post), s.posts[j]? = some p → p.Sells bet → p.unfilled = false →
    Accounted s j p
  complete : ¬SaleUnderWay s bet →
    totalSold s bet ≤ attestedSold s bet ∧ attestedSold s bet ≤ totalSold s bet + dust

/-! ## What a step must not do -/

/-- Every SELL of the bet has left the book without a fill. -/
def Unsold (s : SigningLayer) (bet : ℕ) : Prop := ∀ p ∈ s.posts, p.Sells bet → p.unfilled = true

/-- A close of the bet is waiting to POST its order. -/
def Task.Waits (bet : ℕ) : Task → Prop
  | .selling req _ => req.nullifierOfBet.bytes32 = bet
  | _ => False

/-- The response tells what became of the order: none was made, a market order's whole fill, or a
resting order's id while its bet can be tracked. -/
def Task.Answered (s : SigningLayer) (resp : Option ClobResponse) (confirmed : Bool) :
    Task → Prop
  | .sellPosted req t _ _ _ j =>
    ∀ p ∈ s.posts[j]?,
      match resp with
      | none => p.unfilled = true
      | some r =>
        if t = .fak then p.open = false ∧ toldFill req r confirmed = p.matched
        else p.unfilled = true ∨
          r.orderID.isSome ∧ (r.filledShares = 0 → req.nullifierOfBet ∉ s.finalized)
  | _ => True

def Task.Crosses (s : SigningLayer) (fee : Option ℕ) : Task → Prop
  | .sellFee req _ _ _ id =>
    (∀ p ∈ s.posts, p.orderID? = some id → p.unfilled = true) ∨
      fee.isSome ∧ req.nullifierOfBet ∉ s.finalized
  | _ => True

/-- `finalize` is called on a word that tells this order's fill. -/
def TellsFill (s : SigningLayer) (o : TrackedOrder) : Action → Prop
  | .cancelled _ _ od _ _ | .reconciled _ od _ _ => od = .terminal
  | .message i _ _ withSize => withSize = true ∧ ∃ p ∈ s.posts[i]?, p.orderID? = some o.orderID
  | _ => False

/-- A SELL is finalized with its fill, off the book, and no other SELL of the bet is tracked. -/
def FinalizesSale (s : SigningLayer) (a : Action) (o : TrackedOrder) (filled : ℕ) : Prop :=
  o.nullifier ∉ s.finalized →
    (o.side = .sell → TellsFill s o a ∨
      ∀ p ∈ s.posts, p.orderID? = some o.orderID → p.open = false ∧ p.matched = filled) ∧
    ∀ o' ∈ s.byOrderId, o'.side = .sell → o'.nullifier = o.nullifier → o'.orderID ≠ o.orderID →
      OrderUnfilled s o'

/-- A bet has one SELL at a time, of no more than it acquired; what became of it is told; it is
tracked and finalized with its fill; and its SOLD is signed before the process dies. -/
def SellsOnce (s : SigningLayer) (a : Action) : Prop :=
  (∀ f ∈ finalizing s a, FinalizesSale s a f.1 f.2) ∧
    match a with
    | .closeRequest req t =>
      GoesOn s req t → req.soldShares ≤ acquired s req.nullifierOfBet.bytes32 ∧
        Unsold s req.nullifierOfBet.bytes32 ∧ ∀ u ∈ s.tasks, ¬u.Waits req.nullifierOfBet.bytes32
    | .sellResponded i resp confirmed _ => ∀ t ∈ s.tasks[i]?, t.Answered s resp confirmed
    | .sellCrossed i fee => ∀ t ∈ s.tasks[i]?, t.Crosses s fee
    | .signed i none =>
      ∀ t ∈ s.tasks[i]?, ∀ input ∈ t.sold?, HasSold s input.nullifierOfBet.bytes32
    | .marketResolved c =>
      ∀ o ∈ s.byOrderId, sameMarket o.conditionId c → FinalizesSale s a o 0
    | .restart =>
      ∀ p ∈ s.posts, p.side = .sell → p.unfilled = true ∨ HasSold s p.nullifier.bytes32 ∨
        ∃ o ∈ s.trackedOrders, p.orderID? = some o.orderID
    | _ => True

/-! ## The invariant -/

/-- The order under this id has this size. -/
def SizedAt (posts : List Post) (id : OrderId) (k : ℕ) : Prop :=
  ∃ p ∈ posts, p.orderID? = some id ∧ p.size = k

def TrackedOrder.Sized (posts : List Post) (o : TrackedOrder) : Prop :=
  o.side = .sell → SizedAt posts o.orderID o.expectedShares

/-- A SOLD of this amount reports the fill of an order off the book. -/
def SoldFor (posts : List Post) (input : AttestationInput) : Prop :=
  ∃ p ∈ posts, p.side = .sell ∧ p.nullifier = input.nullifierOfBet ∧ p.open = false
    ∧ 0 < p.matched ∧ input.amountA = soldShares p.size p.matched

def Post.OnOffer (bet : ℕ) (p : Post) : Prop := p.Sells bet ∧ p.unfilled = false

def Attestation.SoldBy (bet : ℕ) (row : Attestation) : Prop :=
  row.reportType = .sold ∧ row.nullifierOfBet.bytes32 = bet

structure SalesInv (s : SigningLayer) : Prop where
  linked : Linked s
  one : ∀ bet, AtMostOne (Post.OnOffer bet) s.posts
  asked : ∀ p ∈ s.posts, p.side = .sell → p.size ≤ acquired s p.nullifier.bytes32
  waiting : ∀ req t, .selling req t ∈ s.tasks →
    req.soldShares ≤ acquired s req.nullifierOfBet.bytes32 ∧ Unsold s req.nullifierOfBet.bytes32
  single : ∀ bet, AtMostOne (Task.Waits bet) s.tasks
  posted : ∀ req t c k price j, .sellPosted req t c k price j ∈ s.tasks →
    ∃ p : Post, s.posts[j]? = some p ∧ p.size = req.soldShares
  crossing : ∀ req t c k id, .sellFee req t c k id ∈ s.tasks → SizedAt s.posts id req.soldShares
  mapped : ∀ o ∈ s.byOrderId ++ s.trackedOrders, o.Sized s.posts
  working : ∀ t ∈ s.tasks, ∀ o, t.order? = some o → o.Sized s.posts
  signing : ∀ t ∈ s.tasks, ∀ input, t.sold? = some input → SoldFor s.posts input
  stored : ∀ row ∈ s.attestations, row.reportType = .sold →
    SoldFor s.posts row.toAttestationInput
  once : ∀ bet, AtMostOne (Attestation.SoldBy bet) s.attestations
  accounted : ∀ (j : ℕ) (p : Post), s.posts[j]? = some p → p.side = .sell → p.unfilled = false →
    Accounted s j p

/-! ### What it says -/

variable {s s' : SigningLayer} {a : Action} {bet : ℕ} {p : Post}

theorem Post.unfilled_eq_false_of_open (h : p.open = true) : p.unfilled = false := by
  unfold Post.open at h
  unfold Post.unfilled
  split at h
  · simp [*]
  · cases h
  · subst h
    simp [*]

theorem Post.matched_eq_zero (h : p.unfilled = true) : p.matched = 0 := p.matched_of_unfilled h

theorem Post.unfilled_of_off (hoff : p.open = false) (hm : p.matched = 0) : p.unfilled = true := by
  unfold Post.open at hoff
  unfold Post.matched at hm
  unfold Post.unfilled
  split at hoff
  · cases hoff
  · simp [*]
  · rename_i hstate
    subst hoff
    simp only [hstate] at hm
    simp [hstate, hm]

theorem le_soldShares {k m : ℕ} (hm : m ≤ k) : m ≤ soldShares k m := by
  unfold soldShares
  split <;> omega

theorem soldShares_le_dust (k m : ℕ) : soldShares k m ≤ m + dust := by
  unfold soldShares
  split <;> omega

namespace SalesInv

/-- A SOLD tells that the order it reports is the bet's one SELL. -/
theorem soldFor_eq (h : SalesInv s) {input : AttestationInput} (hsold : SoldFor s.posts input)
    (hp : p ∈ s.posts) (hoffer : p.OnOffer input.nullifierOfBet.bytes32) :
    p.nullifier = input.nullifierOfBet ∧ p.open = false ∧
      input.amountA = soldShares p.size p.matched := by
  obtain ⟨q, hq, hside, hn, hoff, hpos, hamount⟩ := hsold
  have hq' : q.OnOffer input.nullifierOfBet.bytes32 := by
    refine ⟨⟨hside, by rw [hn]⟩, Bool.eq_false_of_not_eq_true fun hun => ?_⟩
    rw [Post.matched_eq_zero hun] at hpos
    exact Nat.lt_irrefl 0 hpos
  obtain ⟨i, hi⟩ := List.mem_iff_getElem?.mp hp
  obtain ⟨j, hj⟩ := List.mem_iff_getElem?.mp hq
  obtain rfl := h.one _ i j p q hi hj hoffer hq'
  obtain rfl := Option.some.inj (hi.symm.trans hj)
  exact ⟨hn, hoff, hamount⟩

theorem exists_offer {input : AttestationInput} (hsold : SoldFor s.posts input) :
    ∃ p ∈ s.posts, p.OnOffer input.nullifierOfBet.bytes32 ∧ p.open = false ∧
      input.amountA = soldShares p.size p.matched := by
  obtain ⟨q, hq, hside, hn, hoff, hpos, hamount⟩ := hsold
  refine ⟨q, hq, ⟨⟨hside, by rw [hn]⟩, Bool.eq_false_of_not_eq_true fun hun => ?_⟩, hoff, hamount⟩
  rw [Post.matched_eq_zero hun] at hpos
  exact Nat.lt_irrefl 0 hpos

theorem sum_posts_eq (h : SalesInv s) {f : Post → ℕ} (hf : ∀ q, ¬q.OnOffer bet → f q = 0)
    (hp : p ∈ s.posts) (hoffer : p.OnOffer bet) : (s.posts.map f).sum = f p :=
  (h.one bet).sum_map_eq (fun q _ => hf q) hp hoffer

theorem sold_eq_zero {q : Post} (hq : ¬q.OnOffer bet) : q.sold bet = 0 := by
  unfold Post.sold
  split
  · rename_i hsells
    exact Post.matched_eq_zero (by_contra fun hun => hq ⟨hsells, Bool.eq_false_of_not_eq_true hun⟩)
  · rfl

theorem onSale_eq_zero {q : Post} (hq : ¬q.OnOffer bet) : q.onSale bet = 0 := by
  unfold Post.onSale
  split
  · rename_i hsells
    exact absurd ⟨hsells.1, Post.unfilled_eq_false_of_open hsells.2⟩ hq
  · rfl

/-- What is stored as sold is the SOLD of the bet's one SELL. -/
theorem attestedSold_eq (h : SalesInv s) (hp : p ∈ s.posts) (hoffer : p.OnOffer bet)
    (hsold : HasSold s bet) :
    p.open = false ∧ attestedSold s bet = soldShares p.size p.matched := by
  obtain ⟨row, hrow, htype, rfl⟩ := hsold
  obtain ⟨-, hoff, hamount⟩ := h.soldFor_eq (h.stored row hrow htype) hp hoffer
  refine ⟨hoff, ?_⟩
  have hsum := (h.once row.nullifierOfBet.bytes32).sum_map_eq
    (f := Attestation.soldOf row.nullifierOfBet.bytes32)
    (fun r _ hr => if_neg hr) hrow ⟨htype, rfl⟩
  rw [attestedSold, hsum, Attestation.soldOf, if_pos ⟨htype, rfl⟩]
  exact hamount

theorem attestedSold_eq_zero (hsold : ¬HasSold s bet) : attestedSold s bet = 0 :=
  List.sum_map_eq_zero fun row hrow => if_neg fun hr => hsold ⟨row, hrow, hr⟩

/-- What is accounted for and not attested is under way. -/
theorem saleUnderWay (h : SalesInv s) {j : ℕ} (hp : s.posts[j]? = some p) (hsells : p.Sells bet)
    (hacc : Accounted s j p) (hsold : ¬HasSold s bet) : SaleUnderWay s bet := by
  obtain ⟨hside, rfl⟩ := hsells
  cases hacc with
  | @posted req t c k price ht =>
    obtain ⟨q, hq, hn, -, -⟩ := h.linked.tasks _ ht
    obtain rfl := Option.some.inj (hp.symm.trans hq)
    exact .inl ⟨_, ht, _, rfl, by rw [hn]⟩
  | @crossing req t c k id ht hid =>
    obtain ⟨q, hq, hqid, hn, -⟩ := h.linked.tasks _ ht
    obtain rfl := h.linked.ids.eq (List.mem_of_getElem? hp) hq hid hqid
    exact .inl ⟨_, ht, _, rfl, by rw [hn]⟩
  | @tracked o ho hid hopen =>
    obtain ⟨q, hq, hqid, hn, hs⟩ := h.linked.byOrderId o ho
    obtain rfl := h.linked.ids.eq (List.mem_of_getElem? hp) hq hid hqid
    exact .inr ⟨o, ho, hs.symm.trans hside, by rw [hn], hopen⟩
  | attested _ hatt =>
    obtain ⟨t, ht, input, hinput, hn⟩ := hatt.resolve_right hsold
    refine .inl ⟨t, ht, (input.nullifierOfBet, input.amountA), ?_, hn⟩
    cases t with
    | signing input' after =>
      simp only [Task.sold?, Option.mem_def, Option.ite_none_right_eq_some,
        Option.some.injEq] at hinput
      obtain ⟨htype, rfl⟩ := hinput
      simp [Task.closes?, htype]
    | _ => cases hinput

theorem salesRight (h : SalesInv s) (bet : ℕ) : SalesRight s bet := by
  refine ⟨?_, fun j p hp hsells hun => h.accounted j p hp hsells.1 hun, fun hidle => ?_⟩
  · by_cases hoffer : ∃ p ∈ s.posts, p.OnOffer bet
    · obtain ⟨p, hp, hoffer⟩ := hoffer
      have hasked : p.size ≤ acquired s bet := by
        have := h.asked p hp hoffer.1.1
        rwa [hoffer.1.2] at this
      rw [onSale, h.sum_posts_eq (fun _ => onSale_eq_zero) hp hoffer]
      by_cases hsold : HasSold s bet
      · obtain ⟨hoff, hamount⟩ := h.attestedSold_eq hp hoffer hsold
        have hzero : p.onSale bet = 0 := if_neg fun hopen => by
          rw [hoff] at hopen
          cases hopen.2
        rw [hamount, hzero]
        exact (soldShares_le p.size p.matched).trans hasked
      · rw [attestedSold_eq_zero hsold, Nat.zero_add]
        refine le_trans ?_ hasked
        unfold Post.onSale
        split <;> omega
    · have hnone : ∀ q ∈ s.posts, ¬q.OnOffer bet := fun q hq hq' => hoffer ⟨q, hq, hq'⟩
      have hsold : ¬HasSold s bet := by
        rintro ⟨row, hrow, htype, rfl⟩
        obtain ⟨q, hq, hq', -⟩ := exists_offer (h.stored row hrow htype)
        exact hnone q hq hq'
      rw [attestedSold_eq_zero hsold, onSale,
        List.sum_map_eq_zero fun q hq => onSale_eq_zero (hnone q hq)]
      exact Nat.zero_le _
  · by_cases hoffer : ∃ p ∈ s.posts, p.OnOffer bet
    · obtain ⟨p, hp, hoffer⟩ := hoffer
      obtain ⟨j, hj⟩ := List.mem_iff_getElem?.mp hp
      have hsold : HasSold s bet := by_contra fun hsold =>
        hidle (h.saleUnderWay hj hoffer.1 (h.accounted j p hj hoffer.1.1 hoffer.2) hsold)
      obtain ⟨-, hamount⟩ := h.attestedSold_eq hp hoffer hsold
      have htotal : p.sold bet = p.matched := if_pos hoffer.1
      rw [hamount, totalSold, h.sum_posts_eq (fun _ => sold_eq_zero) hp hoffer, htotal]
      exact ⟨le_soldShares (h.linked.sizes p hp), soldShares_le_dust _ _⟩
    · have hnone : ∀ q ∈ s.posts, ¬q.OnOffer bet := fun q hq hq' => hoffer ⟨q, hq, hq'⟩
      have hsold : ¬HasSold s bet := by
        rintro ⟨row, hrow, htype, rfl⟩
        obtain ⟨q, hq, hq', -⟩ := exists_offer (h.stored row hrow htype)
        exact hnone q hq hq'
      rw [attestedSold_eq_zero hsold, totalSold,
        List.sum_map_eq_zero fun q hq => sold_eq_zero (hnone q hq)]
      exact ⟨le_rfl, Nat.zero_le _⟩

end SalesInv

end Polyshield.Signing

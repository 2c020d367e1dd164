import Polyshield.Circuits.Bn254
import Polyshield.Circuits.Soundness

/-!
# The circuits over the integers

Over the BN254 scalar field a circuit has a witness for its public inputs exactly
when the integers they stand for fit an input note and an output note. A public
input is read as the integer below the field's order, `ZMod.val`.
-/

namespace Polyshield

open Merkle

variable {C : Circomlib Fr} (hC : C.Spec)

/-! ## The checks -/

theorem natCast_val (x : Fr) : ((x.val : ℕ) : Fr) = x := ZMod.natCast_zmod_val x

theorem lt_two_pow_253 {n k : ℕ} (hn : n ≤ 253) (hk : k < 2 ^ n) : k < 2 ^ 253 :=
  hk.trans_le (Nat.pow_le_pow_right (by decide) hn)

include hC

theorem assertBits_iff {n : ℕ} (hn : n ≤ 253) (x : Fr) : AssertBits C n x ↔ x.val < 2 ^ n := by
  unfold AssertBits
  rw [hC.num2Bits_iff n hn]
  constructor
  · rintro ⟨k, hk, rfl⟩
    rwa [val_natCast_of_lt (lt_two_pow_253 hn hk)]
  · exact fun h => ⟨x.val, h, (natCast_val x).symm⟩

theorem lessThan_val_iff {n : ℕ} (hn : n ≤ 252) {x y : Fr} (hx : x.val < 2 ^ n)
    (hy : y.val < 2 ^ n) (out : Fr) :
    C.lessThan n x y out ↔ out = if x.val < y.val then 1 else 0 := by
  have h := hC.lessThan_iff n hn x.val hx y.val hy out
  rwa [natCast_val, natCast_val] at h

theorem assertLessThan_iff {n : ℕ} (hn : n ≤ 252) {x y : Fr} (hx : x.val < 2 ^ n)
    (hy : y.val < 2 ^ n) : AssertLessThan C n x y ↔ x.val < y.val := by
  constructor
  · rintro ⟨out, hout, rfl⟩
    rw [lessThan_val_iff hC hn hx hy] at hout
    by_contra hle
    rw [if_neg hle] at hout
    exact one_ne_zero hout
  · exact fun h => ⟨1, (lessThan_val_iff hC hn hx hy 1).mpr (if_pos h).symm, rfl⟩

theorem assertNotLessThan_iff {n : ℕ} (hn : n ≤ 252) {x y : Fr} (hx : x.val < 2 ^ n)
    (hy : y.val < 2 ^ n) : AssertNotLessThan C n x y ↔ y.val ≤ x.val := by
  constructor
  · rintro ⟨out, hout, rfl⟩
    rw [lessThan_val_iff hC hn hx hy] at hout
    by_contra hlt
    rw [if_pos (not_le.mp hlt)] at hout
    exact zero_ne_one hout
  · exact fun h => ⟨0, (lessThan_val_iff hC hn hx hy 0).mpr (if_neg (not_lt.mpr h)).symm, rfl⟩

/-! ## The notes -/

omit hC

theorem Note.balance_val (n : Note Fr) : ((n.balance : Fr)).val = n.balance :=
  val_natCast_of_lt (lt_253_of_lt_64 n.balance_lt)

theorem Note.nonce_val (n : Note Fr) : ((n.nonce : Fr)).val = n.nonce :=
  val_natCast_of_lt (lt_253_of_lt_64 n.nonce_lt)

def Note.signals (n : Note Fr) (p : List (Step Fr)) : NoteSignals Fr where
  secret := n.secret
  balance := n.balance
  nonce := n.nonce
  merklePath := p.map Prod.fst
  merklePathIndices := p.map fun s => bitSignal s.2
  ownerAddress := n.owner

theorem Note.balance_val_lt (n : Note Fr) : ((n.balance : Fr)).val < 2 ^ 64 :=
  n.balance_val.trans_lt n.balance_lt

theorem Note.nonce_val_lt (n : Note Fr) : ((n.nonce : Fr)).val < 2 ^ 64 :=
  n.nonce_val.trans_lt n.nonce_lt

theorem Note.cast_nextNonce {n m : Note Fr} (h : m.Follows n) :
    (n.nonce : Fr) + 1 = (m.nonce : Fr) := by
  rw [h.nonce]; push_cast; rfl

include hC

theorem Note.balanceBits (n : Note Fr) : AssertBits C 64 (n.balance : Fr) := by
  rw [assertBits_iff hC (by decide)]
  exact n.balance_val_lt

theorem Note.nonceBits (n : Note Fr) : AssertBits C 64 (n.nonce : Fr) := by
  rw [assertBits_iff hC (by decide)]
  exact n.nonce_val_lt

theorem Note.Opens.spendsNote {n : Note Fr} {root nul : Fr} (h : n.Opens C root nul) :
    ∃ p, SpendsNote C (n.signals p) root nul := by
  obtain ⟨p, hp, hroot⟩ := h.path
  refine ⟨p, n.balanceBits hC, n.nonceBits hC, ?_, h.nullifier⟩
  have hpath := poseidonMerklePath_of_climb hroot
  rwa [hp] at hpath

theorem Note.Follows.nextNonce {n m : Note Fr} (h : m.Follows n) :
    IncrementU64 C (n.nonce : Fr) ((n.nonce : Fr) + 1) := by
  refine ⟨rfl, ?_⟩
  rw [Note.cast_nextNonce h]
  exact m.nonceBits hC

theorem Note.Follows.recommits {n m : Note Fr} {new : Fr} (h : m.Follows n)
    (hcom : m.commitment C = new) (p : List (Step Fr)) :
    Recommits C (n.signals p) (m.balance : Fr) new where
  newBalanceBits := m.balanceBits hC
  nextNonce := h.nextNonce hC
  nextCommitment := by
    rw [← hcom, Note.commitment, h.secret, h.owner, ← Note.cast_nextNonce h]
    rfl

omit hC

/-! ## The integer meaning of each circuit -/

section Meaning

variable (C)

structure BetsFrom (root nul new amt price expectedShares side fee : Fr) (n m : Note Fr) :
    Prop where
  opens : n.Opens C root nul
  follows : m.Follows n
  commitment : m.commitment C = new
  covers : amt.val + fee.val ≤ n.balance
  balance : m.balance = n.balance - amt.val - fee.val
  price_pos : 0 < price.val
  price_lt : price.val < 2 ^ 64
  shares : expectedShares.val = amt.val * pricePrecision / price.val
  shares_lt : expectedShares.val < 2 ^ 64
  side_lt : side.val < 2 ^ 8

/-- A credit of `amount` to `n`, for a bet of its lineage, leaves `m`. -/
structure CreditsTo (root nul new bet amount : Fr) (n m : Note Fr) : Prop where
  opens : n.Opens C root nul
  follows : m.Follows n
  commitment : m.commitment C = new
  balance : m.balance = n.balance + amount.val
  bet : ∃ k < n.nonce, NullifierHash C n.secret (k : Fr) = bet

structure WithdrawsFrom (root nul amount recipientHash new : Fr) (n : Note Fr) : Prop where
  opens : n.Opens C root nul
  recipient : RecipientHash C n.owner = recipientHash
  covers : amount.val ≤ n.balance
  nonce_lt : n.nonce + 1 < 2 ^ 64
  full : amount.val = n.balance → new = 0
  rest : amount.val < n.balance →
    new = NoteCommitment C n.secret ((n.balance - amount.val : ℕ) : Fr) ((n.nonce + 1 : ℕ) : Fr)
      n.owner

/-- A merge of the active slots' notes into the next note `m` of slot 0's. -/
structure Merges (root : Fr) (nul : Fin 4 → Fr) (new : Fr) (slot : Fin 4 → Option (Note Fr))
    (owner : Fr) (n m : Note Fr) : Prop where
  slots : ∀ j, SlotSpends C root owner (nul j) (slot j)
  slot0 : slot 0 = some n
  follows : m.Follows n
  commitment : m.commitment C = new
  balance : m.balance = ∑ j, slotBalance (slot j)

end Meaning

/-- The field equation of the shares is the division with remainder. -/
theorem shares_eq_div {amt price shares rem : Fr} (hamt : amt.val < 2 ^ 64)
    (hprice : price.val < 2 ^ 64) (hshares : shares.val < 2 ^ 64) (hrem : rem.val < price.val)
    (h : shares * price + rem = amt * (pricePrecision : Fr)) :
    shares.val = amt.val * pricePrecision / price.val := by
  have hcast : ((shares.val * price.val + rem.val : ℕ) : Fr)
      = ((amt.val * pricePrecision : ℕ) : Fr) := by
    push_cast
    rw [natCast_val, natCast_val, natCast_val, natCast_val, h]
  have hprod : shares.val * price.val < 2 ^ 64 * 2 ^ 64 := Nat.mul_lt_mul'' hshares hprice
  have hscaled : amt.val * pricePrecision < 2 ^ 64 * 2 ^ 64 :=
    Nat.mul_lt_mul'' hamt (by decide)
  have hbound : 2 ^ 64 * 2 ^ 64 + 2 ^ 64 < 2 ^ 253 := by decide
  have heq := wide_bn254.eq (by omega) (by omega) hcast
  rw [← heq, Nat.add_comm, Nat.add_mul_div_right _ _ (by omega), Nat.div_eq_of_lt hrem,
    Nat.zero_add]

include hC

theorem betAuth_iff (root nul new amt price shares market side pos fee : Fr) :
    BetAuth C root nul new amt price shares market side pos fee ↔
      ∃ n m, BetsFrom C root nul new amt price shares side fee n m := by
  constructor
  · rintro ⟨w, rem, h⟩
    obtain ⟨n, hw, hn⟩ := h.spends.opens hC
    obtain ⟨m, hm, hbal, hcom⟩ := h.recommits.follows hC wide_bn254 hw
    have hamt := (assertBits_iff hC (by decide) amt).mp h.betAmountBits
    have hfee := (assertBits_iff hC (by decide) fee).mp h.feeBits
    have hprice := (assertBits_iff hC (by decide) price).mp h.priceBits
    have hshares := (assertBits_iff hC (by decide) shares).mp h.expectedSharesBits
    have hrem := (assertBits_iff hC (by decide) rem).mp h.remainderBits
    have hsum : m.balance + amt.val + fee.val = n.balance := by
      refine wide_bn254.eq_of_lt_67 (add_lt_67 m.balance_lt hamt hfee)
        (n.balance_lt.trans (by decide)) ?_
      push_cast
      rw [natCast_val, natCast_val, ← hbal, hw.balance]
      ring
    have hpos := h.priceNZ
    rw [assertLessThan_iff hC (by decide) (by simp) hprice, ZMod.val_zero] at hpos
    exact ⟨n, m, {
      opens := hn
      follows := hm
      commitment := hcom
      covers := by omega
      balance := by omega
      price_pos := hpos
      price_lt := hprice
      shares := shares_eq_div hamt hprice hshares
        ((assertLessThan_iff hC (by decide) hrem hprice).mp h.remainderCheck) h.shares
      shares_lt := hshares
      side_lt := (assertBits_iff hC (by decide) side).mp h.outcomeSideBits }⟩
  · rintro ⟨n, m, h⟩
    obtain ⟨p, hp⟩ := h.opens.spendsNote hC
    have hbal := n.balance_lt
    have hcovers := h.covers
    have hprice := h.price_pos
    have hpriceLt := h.price_lt
    have hmod := Nat.mod_lt (amt.val * pricePrecision) h.price_pos
    have hrem : ((amt.val * pricePrecision % price.val : ℕ) : Fr).val
        = amt.val * pricePrecision % price.val :=
      val_natCast_of_lt (by omega)
    refine ⟨n.signals p, ((amt.val * pricePrecision % price.val : ℕ) : Fr), {
      spends := hp
      betAmountBits := (assertBits_iff hC (by decide) amt).mpr (by omega)
      feeBits := (assertBits_iff hC (by decide) fee).mpr (by omega)
      priceBits := (assertBits_iff hC (by decide) price).mpr h.price_lt
      expectedSharesBits := (assertBits_iff hC (by decide) shares).mpr h.shares_lt
      remainderBits := (assertBits_iff hC (by decide) _).mpr (by omega)
      outcomeSideBits := (assertBits_iff hC (by decide) side).mpr h.side_lt
      balanceCheck := ?_
      remainderCheck := ?_
      priceNZ := ?_
      shares := ?_
      recommits := ?_ }⟩
    · refine (assertNotLessThan_iff hC (by decide) n.balance_val_lt (by omega)).mpr ?_
      exact (Nat.le_of_add_right_le hcovers).trans_eq n.balance_val.symm
    · rw [assertLessThan_iff hC (by decide) (by omega) hpriceLt, hrem]
      exact hmod
    · rw [assertLessThan_iff hC (by decide) (by simp) hpriceLt, ZMod.val_zero]
      exact hprice
    · have hdiv := Nat.div_add_mod' (amt.val * pricePrecision) price.val
      rw [← h.shares] at hdiv
      have hcast := congrArg (Nat.cast : ℕ → Fr) hdiv
      push_cast at hcast
      rw [natCast_val, natCast_val, natCast_val] at hcast
      exact hcast
    · have hnew : (n.signals p).balance - amt - fee = (m.balance : Fr) := by
        rw [h.balance, Nat.cast_sub (by omega), Nat.cast_sub (by omega), natCast_val, natCast_val]
        rfl
      rw [hnew]
      exact h.follows.recommits hC h.commitment p

theorem creditTemplate_iff (root nul new bet amount : Fr) :
    CreditTemplate C root nul new bet amount ↔ ∃ n m, CreditsTo C root nul new bet amount n m := by
  constructor
  · rintro ⟨w, betNonce, h⟩
    obtain ⟨n, hw, hn⟩ := h.spends.opens hC
    obtain ⟨m, hm, hbal, hcom⟩ := h.recommits.follows hC wide_bn254 hw
    have hamount := (assertBits_iff hC (by decide) amount).mp h.amountBits
    have hbits := (assertBits_iff hC (by decide) betNonce).mp h.betNonceBits
    refine ⟨n, m, {
      opens := hn
      follows := hm
      commitment := hcom
      balance := ?_
      bet := ⟨betNonce.val, ?_, ?_⟩ }⟩
    · refine wide_bn254.eq_of_lt_67 (m.balance_lt.trans (by decide))
        (add_lt_67 n.balance_lt hamount (by decide : 0 < 2 ^ 64)) ?_
      push_cast
      rw [natCast_val, ← hbal, hw.balance]
    · have hlt := h.betBeforeCurrent
      rw [hw.nonce, assertLessThan_iff hC (by decide) hbits n.nonce_val_lt,
        n.nonce_val] at hlt
      exact hlt
    · rw [natCast_val, ← hw.secret]
      exact h.preBetNullifier
  · rintro ⟨n, m, h⟩
    obtain ⟨p, hp⟩ := h.opens.spendsNote hC
    obtain ⟨k, hk, hbet⟩ := h.bet
    have hm := m.balance_lt
    have hn := n.nonce_lt
    have hbal := h.balance
    have hkval : (k : Fr).val = k := val_natCast_of_lt (lt_253_of_lt_64 (hk.trans hn))
    refine ⟨n.signals p, k, {
      spends := hp
      amountBits := (assertBits_iff hC (by decide) amount).mpr (by omega)
      recommits := ?_
      betNonceBits := (assertBits_iff hC (by decide) _).mpr (by omega)
      betBeforeCurrent := ?_
      preBetNullifier := hbet }⟩
    · have hnew : (n.signals p).balance + amount = (m.balance : Fr) := by
        rw [h.balance, Nat.cast_add, natCast_val]
        rfl
      rw [hnew]
      exact h.follows.recommits hC h.commitment p
    · refine (assertLessThan_iff hC (by decide) (by omega) n.nonce_val_lt).mpr ?_
      rw [hkval]
      exact hk.trans_eq n.nonce_val.symm

theorem withdrawal_iff (root nul amount recipientHash new : Fr) :
    Withdrawal C root nul amount recipientHash new ↔
      ∃ n, WithdrawsFrom C root nul amount recipientHash new n := by
  constructor
  · rintro ⟨w, recipientAddress, isPartial, h⟩
    obtain ⟨n, hw, hn⟩ := h.spends.opens hC
    have hamount := (assertBits_iff hC (by decide) amount).mp h.withdrawalBits
    have hbits : w.balance.val < 2 ^ 64 := (assertBits_iff hC (by decide) _).mp h.spends.balanceBits
    have hval : w.balance.val = n.balance := by rw [hw.balance, n.balance_val]
    have hcovers := (assertNotLessThan_iff hC (by decide) hbits hamount).mp h.amountCheck
    have hpartial := (lessThan_val_iff hC (by decide) hamount hbits isPartial).mp h.isPartial_lt
    obtain ⟨hnext, hnonce⟩ := h.nextNonce.next hC wide_bn254 hw.nonce
    have hexpected := h.expected
    rw [hval] at hcovers hpartial
    refine ⟨n, {
      opens := hn
      recipient := by rw [← h.recipient, h.owner, hw.owner]
      covers := hcovers
      nonce_lt := hnonce
      full := fun hfull => ?_
      rest := fun hrest => ?_ }⟩
    · rw [if_neg (by omega)] at hpartial
      rw [← hexpected, hpartial, zero_mul]
    · have hbal : w.balance - amount = ((n.balance - amount.val : ℕ) : Fr) := by
        rw [Nat.cast_sub hcovers, natCast_val, hw.balance]
      rw [if_pos hrest] at hpartial
      rw [← hexpected, hpartial, one_mul, hbal, hnext, hw.secret, hw.owner]
  · rintro ⟨n, h⟩
    obtain ⟨p, hp⟩ := h.opens.spendsNote hC
    have hbal := n.balance_lt
    have hcovers := h.covers
    have hamount : amount.val < 2 ^ 64 := by omega
    have hcast : ((n.nonce + 1 : ℕ) : Fr) = (n.nonce : Fr) + 1 := by push_cast; rfl
    refine ⟨n.signals p, n.owner, if amount.val < n.balance then 1 else 0, {
      spends := hp
      withdrawalBits := (assertBits_iff hC (by decide) amount).mpr hamount
      amountCheck := ?_
      recipient := h.recipient
      owner := rfl
      isPartial_lt := ?_
      isPartial_bool := ?_
      nextNonce := ⟨rfl, ?_⟩
      expected := ?_ }⟩
    · refine (assertNotLessThan_iff hC (by decide) n.balance_val_lt hamount).mpr ?_
      rwa [n.balance_val]
    · refine (lessThan_val_iff hC (by decide) hamount n.balance_val_lt _).mpr ?_
      rw [n.balance_val]
    · split <;> simp [AssertBool]
    · refine (assertBits_iff hC (by decide) _).mpr ?_
      rw [show (n.signals p).nonce + 1 = ((n.nonce + 1 : ℕ) : Fr) from hcast.symm,
        val_natCast_of_lt (lt_253_of_lt_64 h.nonce_lt)]
      exact h.nonce_lt
    · split
      next hlt =>
        rw [one_mul, h.rest hlt, Nat.cast_sub hcovers, natCast_val, hcast]
        rfl
      next hge => rw [zero_mul, h.full (by omega)]

theorem slotConstraints_inactive (owner root : Fr) :
    ∃ s r, SlotConstraints C owner root s 0 r ∧ s.eff = 0 := by
  have hzero : AssertBits C 64 (0 : Fr) := (assertBits_iff hC (by decide) 0).mpr (by simp)
  let s : SlotSignals Fr := ⟨0, 0, 0, List.replicate treeDepth 0, List.replicate treeDepth 0, 0⟩
  refine ⟨s, merkleFold C.poseidon2 (NoteCommitment C 0 0 0 owner) s.merklePath
    s.merklePathIndices, ⟨by simp [AssertBool, s], hzero, hzero, ⟨?_, ?_, ?_, rfl⟩, by simp [s],
    by simp [s]⟩, by simp [SlotSignals.eff, s]⟩
  · simp [s]
  · simp [s]
  · intro b hb
    rw [List.eq_of_mem_replicate hb]
    simp [AssertBool]

theorem SlotSpends.constraints {owner root nul : Fr} {o : Option (Note Fr)}
    (h : SlotSpends C root owner nul o) :
    ∃ s r, SlotConstraints C owner root s nul r ∧ s.eff = (slotBalance o : Fr) ∧
      ∀ n, o = some n → s.isActive = 1 ∧ s.secret = n.secret ∧ s.nonce = (n.nonce : Fr) := by
  cases h with
  | inactive =>
    obtain ⟨s, r, hs, heff⟩ := slotConstraints_inactive hC owner root
    exact ⟨s, r, hs, by simpa [slotBalance] using heff, by simp⟩
  | active n hn ho =>
    obtain ⟨p, hp⟩ := hn.spendsNote hC
    let s : SlotSignals Fr := ⟨n.secret, n.balance, n.nonce, (n.signals p).merklePath,
      (n.signals p).merklePathIndices, 1⟩
    refine ⟨s, root, ⟨by simp [AssertBool, s], n.balanceBits hC, n.nonceBits hC, ?_, by simp, ?_⟩,
      by simp [SlotSignals.eff, slotBalance, s], ?_⟩
    · rw [← ho]
      exact hp.merkle
    · rw [show s.isActive = 1 from rfl, one_mul]
      exact hn.nullifier.symm
    · intro m hm
      cases hm
      exact ⟨rfl, rfl, rfl⟩

theorem consolidate_iff (root : Fr) (nul : Fin 4 → Fr) (new : Fr) :
    Consolidate C root nul new ↔ ∃ slot owner n m, Merges C root nul new slot owner n m := by
  constructor
  · intro h
    obtain ⟨slot, n, m, owner, hslots, hslot0, hm, hcom, hbal⟩ := h.sound hC wide_bn254
    exact ⟨slot, owner, n, m, hslots, hslot0, hm, hcom, hbal⟩
  · rintro ⟨slot, owner, n, m, h⟩
    choose s r hs heff hact using fun j => (h.slots j).constraints hC
    obtain ⟨hactive, hsecret, hnonce⟩ := hact 0 n h.slot0
    have hown : n.owner = owner :=
      (h.slot0 ▸ h.slots 0 : SlotSpends C root owner _ (some n)).opens.2
    have hsum : ((s 0).eff + (s 1).eff) + (s 2).eff + (s 3).eff = (m.balance : Fr) := by
      rw [h.balance, Fin.sum_univ_four, heff, heff, heff, heff]
      push_cast
      ring
    refine ⟨s, r, owner, hs, hactive, ?_, ?_, ?_⟩
    · rw [hsum]
      exact m.balanceBits hC
    · rw [hnonce]
      exact h.follows.nextNonce hC
    · rw [hsum, hnonce, hsecret, Note.cast_nextNonce h.follows, ← h.commitment, Note.commitment,
        h.follows.secret, h.follows.owner, hown]

theorem deposit_iff (commitment amount owner : Fr) :
    Deposit C commitment amount owner ↔ ∃ n : Note Fr, n.commitment C = commitment ∧
      n.owner = owner ∧ n.nonce = 0 ∧ n.balance = amount.val := by
  constructor
  · rintro ⟨secret, hbits, hcom⟩
    have hamount := (assertBits_iff hC (by decide) amount).mp hbits
    refine ⟨⟨secret, owner, amount.val, 0, hamount, by decide⟩, ?_, rfl, rfl, rfl⟩
    rw [← hcom, Note.commitment, natCast_val, Nat.cast_zero]
  · rintro ⟨n, hcom, howner, hnonce, hbal⟩
    refine ⟨n.secret, (assertBits_iff hC (by decide) amount).mpr (hbal ▸ n.balance_lt), ?_⟩
    rw [← hcom, Note.commitment, howner, hnonce, hbal, natCast_val, Nat.cast_zero]

omit hC

/-! ## All circuits -/

/-- Every circuit means its equations over the integers. -/
structure IntegerExact (C : Circomlib Fr) : Prop where
  betAuth : ∀ root nul new amt price shares market side pos fee,
    BetAuth C root nul new amt price shares market side pos fee ↔
      ∃ n m, BetsFrom C root nul new amt price shares side fee n m
  settlementCredit : ∀ root nul new bet market credit,
    SettlementCredit C root nul new bet market credit ↔
      ∃ n m, CreditsTo C root nul new bet credit n m
  withdrawal : ∀ root nul amount recipientHash new,
    Withdrawal C root nul amount recipientHash new ↔
      ∃ n, WithdrawsFrom C root nul amount recipientHash new n
  betCancel : ∀ root nul new bet amount,
    BetCancel C root nul new bet amount ↔ ∃ n m, CreditsTo C root nul new bet amount n m
  cancelCredit : ∀ root nul new bet market amount,
    CancelCredit C root nul new bet market amount ↔ ∃ n m, CreditsTo C root nul new bet amount n m
  deposit : ∀ commitment amount owner, Deposit C commitment amount owner ↔
    ∃ n : Note Fr, n.commitment C = commitment ∧ n.owner = owner ∧ n.nonce = 0 ∧
      n.balance = amount.val
  positionClose : ∀ root nul new bet amount,
    PositionClose C root nul new bet amount ↔ ∃ n m, CreditsTo C root nul new bet amount n m
  partialCredit : ∀ root nul new bet amount,
    PartialCredit C root nul new bet amount ↔ ∃ n m, CreditsTo C root nul new bet amount n m
  consolidate : ∀ root nul new,
    Consolidate C root nul new ↔ ∃ slot owner n m, Merges C root nul new slot owner n m

/-- The circuits are sound and complete over the integers, whatever Poseidon is. -/
theorem circuits_integerExact (hC : C.Spec) : IntegerExact C where
  betAuth := betAuth_iff hC
  settlementCredit := fun root nul new bet _ credit => creditTemplate_iff hC root nul new bet credit
  withdrawal := withdrawal_iff hC
  betCancel := creditTemplate_iff hC
  cancelCredit := fun root nul new bet _ amount => creditTemplate_iff hC root nul new bet amount
  deposit := deposit_iff hC
  positionClose := creditTemplate_iff hC
  partialCredit := creditTemplate_iff hC
  consolidate := consolidate_iff hC

/-- The templates on their ranges, with a linear hash. -/
def rangeCircomlib : Circomlib Fr where
  num2Bits n x := x.val < 2 ^ n
  lessThan _ a b out := out = if a.val < b.val then 1 else 0
  poseidon2 x y := x + (2 : ℕ) * y
  poseidon4 a b c d := a + (2 : ℕ) * b + (3 : ℕ) * c + (4 : ℕ) * d

theorem rangeCircomlib_spec : rangeCircomlib.Spec where
  num2Bits_iff := fun n hn x =>
    ⟨fun h => ⟨x.val, h, (natCast_val x).symm⟩, fun ⟨k, hk, hx⟩ => by
      rw [hx]
      exact (val_natCast_of_lt (lt_two_pow_253 hn hk)).trans_lt hk⟩
  lessThan_iff := fun n hn a ha b hb out => by
    simp only [rangeCircomlib]
    rw [val_natCast_of_lt (lt_two_pow_253 (hn.trans (by decide)) ha),
      val_natCast_of_lt (lt_two_pow_253 (hn.trans (by decide)) hb)]

theorem circuits_integerExact_range : IntegerExact rangeCircomlib :=
  circuits_integerExact rangeCircomlib_spec

/-- The templates on their ranges, with a hash that tells one nullifier from all others. -/
def lastNonceCircomlib : Circomlib Fr :=
  { rangeCircomlib with
    poseidon2 := fun x y => if x = (5 : ℕ) ∧ y = ((2 ^ 64 - 1 : ℕ) : Fr) then 1 else 0
    poseidon4 := fun _ _ _ _ => 0 }

theorem lastNonceCircomlib_spec : lastNonceCircomlib.Spec :=
  ⟨rangeCircomlib_spec.num2Bits_iff, rangeCircomlib_spec.lessThan_iff⟩

theorem last_nonce_ne_zero : ((2 ^ 64 - 1 : ℕ) : Fr) ≠ 0 := fun h => by
  have hval := congrArg ZMod.val h
  rw [val_natCast_of_lt (by decide), ZMod.val_zero] at hval
  exact absurd hval (by decide)

theorem lastNonce_poseidon2_zero (x : Fr) : lastNonceCircomlib.poseidon2 x 0 = 0 :=
  if_neg fun h => last_nonce_ne_zero h.2.symm

theorem climb_lastNonce (x : Fr) (k : ℕ) :
    climb lastNonceCircomlib.poseidon2 x (List.replicate (k + 1) ((0 : Fr), false)) = 0 := by
  have hparent : ∀ y : Fr, parent lastNonceCircomlib.poseidon2 y ((0 : Fr), false) = 0 :=
    lastNonce_poseidon2_zero
  induction k generalizing x with
  | zero => exact hparent x
  | succ k ih => rw [List.replicate_succ, climb_cons, hparent]; exact ih 0

/-- A note at the last nonce is whole, but cannot be withdrawn: the circuit counts the nonce up
even where no next note is made. -/
theorem withdrawal_at_last_nonce :
    lastNonceCircomlib.Spec ∧
    ¬(Withdrawal lastNonceCircomlib 0 1 7 0 0 ↔
      ∃ n : Note Fr, n.Opens lastNonceCircomlib 0 1 ∧
        RecipientHash lastNonceCircomlib n.owner = 0 ∧ (7 : Fr).val ≤ n.balance ∧
        ((7 : Fr).val = n.balance → (0 : Fr) = 0) ∧
        ((7 : Fr).val < n.balance → (0 : Fr) = NoteCommitment lastNonceCircomlib n.secret
          ((n.balance - (7 : Fr).val : ℕ) : Fr) ((n.nonce + 1 : ℕ) : Fr) n.owner)) := by
  refine ⟨lastNonceCircomlib_spec, fun h => ?_⟩
  have hseven : (7 : Fr).val = 7 := val_natCast_of_lt (k := 7) (by decide)
  obtain ⟨w, recipientAddress, isPartial, hw⟩ := h.mpr
    ⟨⟨5, 9, 7, 2 ^ 64 - 1, by decide, by decide⟩,
      ⟨⟨List.replicate treeDepth ((0 : Fr), false), List.length_replicate, climb_lastNonce _ _⟩,
        if_pos ⟨rfl, rfl⟩⟩,
      lastNonce_poseidon2_zero _, hseven.le, fun _ => rfl,
      fun hlt => absurd hlt (by rw [hseven]; exact lt_irrefl _)⟩
  have hnonce : w.nonce = ((2 ^ 64 - 1 : ℕ) : Fr) := by
    by_contra hne
    exact zero_ne_one ((if_neg fun h => hne h.2).symm.trans hw.spends.spent)
  have hbits : (w.nonce + 1).val < 2 ^ 64 := hw.nextNonce.2
  rw [hnonce, show ((2 ^ 64 - 1 : ℕ) : Fr) + 1 = ((2 ^ 64 : ℕ) : Fr) by norm_num,
    val_natCast_of_lt (by decide)] at hbits
  exact lt_irrefl _ hbits

end Polyshield

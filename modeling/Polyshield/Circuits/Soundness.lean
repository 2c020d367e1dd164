import Polyshield.Circuits.Templates

/-!
# What the circuits prove

A note is what a commitment hides, with its balance and nonce as integers. Each
circuit's witness is an input note in the tree under the root, an output note
that continues the same lineage, and an exact balance equation between the two
over the integers.
-/

namespace Polyshield

open Merkle

/-- What a commitment hides. -/
@[ext] structure Note (F : Type*) where
  secret : F
  owner : F
  balance : ℕ
  nonce : ℕ
  balance_lt : balance < 2 ^ 64
  nonce_lt : nonce < 2 ^ 64

namespace Note

variable {F : Type*} [Field F] (C : Circomlib F)

def commitment (n : Note F) : F := NoteCommitment C n.secret n.balance n.nonce n.owner

def nullifier (n : Note F) : F := NullifierHash C n.secret n.nonce

/-- `m` is the next note of `n`'s lineage. -/
structure Follows (m n : Note F) : Prop where
  secret : m.secret = n.secret
  owner : m.owner = n.owner
  nonce : m.nonce = n.nonce + 1

structure Opens (n : Note F) (root nul : F) : Prop where
  path : ∃ p : List (Step F), p.length = treeDepth ∧ climb C.poseidon2 (n.commitment C) p = root
  nullifier : n.nullifier C = nul

end Note

/-- Poseidon as the circuits rely on it. -/
structure Circomlib.Injective {F : Type*} [Field F] (C : Circomlib F) : Prop where
  poseidon2_inj : Function.Injective2 C.poseidon2
  poseidon2_ne_zero : ∀ x y, C.poseidon2 x y ≠ 0
  poseidon4_inj : ∀ {a b c d a' b' c' d'}, C.poseidon4 a b c d = C.poseidon4 a' b' c' d' →
    a = a' ∧ b = b' ∧ c = c' ∧ d = d'
  poseidon4_ne_zero : ∀ a b c d, C.poseidon4 a b c d ≠ 0

section Binding

variable {F : Type*} [Field F] {C : Circomlib F} (hI : C.Injective) (hF : Wide F)

theorem lt_253_of_lt_64 {k : ℕ} (hk : k < 2 ^ 64) : k < 2 ^ 253 := by
  have : (2 : ℕ) ^ 64 < 2 ^ 253 := by decide
  omega

include hI hF in
theorem Note.commitment_inj {m n : Note F} (h : m.commitment C = n.commitment C) : m = n := by
  obtain ⟨h1, h2, h3, h4⟩ := hI.poseidon4_inj h
  exact Note.ext h1 h4 (hF.eq (lt_253_of_lt_64 m.balance_lt) (lt_253_of_lt_64 n.balance_lt) h2)
    (hF.eq (lt_253_of_lt_64 m.nonce_lt) (lt_253_of_lt_64 n.nonce_lt) h3)

include hI in
theorem Note.commitment_ne_zero (n : Note F) : n.commitment C ≠ 0 := hI.poseidon4_ne_zero _ _ _ _

include hI in
theorem Note.nullifier_ne_zero (n : Note F) : n.nullifier C ≠ 0 := hI.poseidon2_ne_zero _ _

include hI hF in
/-- Equal nullifiers belong to notes of one lineage and nonce. -/
theorem Note.nullifier_inj {m n : Note F} (h : m.nullifier C = n.nullifier C) :
    m.secret = n.secret ∧ m.nonce = n.nonce := by
  obtain ⟨h1, h2⟩ := hI.poseidon2_inj h
  exact ⟨h1, hF.eq (lt_253_of_lt_64 m.nonce_lt) (lt_253_of_lt_64 n.nonce_lt) h2⟩

end Binding

section Soundness

variable {F : Type*} [Field F] {C : Circomlib F} (hC : C.Spec) (hF : Wide F)

/-- The note a circuit's private inputs describe. -/
structure NoteSignals.Describes (w : NoteSignals F) (n : Note F) : Prop where
  secret : w.secret = n.secret
  owner : w.ownerAddress = n.owner
  balance : w.balance = (n.balance : F)
  nonce : w.nonce = (n.nonce : F)

include hC in
theorem SpendsNote.opens [DecidableEq F] {w : NoteSignals F} {root nul : F}
    (h : SpendsNote C w root nul) : ∃ n : Note F, w.Describes n ∧ n.Opens C root nul := by
  obtain ⟨b, hb, eb⟩ := AssertBits.exists_nat hC (by decide) h.balanceBits
  obtain ⟨k, hk, ek⟩ := AssertBits.exists_nat hC (by decide) h.nonceBits
  refine ⟨⟨w.secret, w.ownerAddress, b, k, hb, hk⟩, ⟨rfl, rfl, eb, ek⟩, ?_, ?_⟩
  · have hm := h.merkle.climb_eq
    rw [eb, ek] at hm
    exact hm
  · rw [← h.spent, ek]
    rfl

include hC hF in
theorem IncrementU64.next {n : Note F} {x : F} (hx : x = (n.nonce : F))
    (h : IncrementU64 C x (x + 1)) :
    x + 1 = ((n.nonce + 1 : ℕ) : F) ∧ n.nonce + 1 < 2 ^ 64 := by
  have e : x + 1 = ((n.nonce + 1 : ℕ) : F) := by rw [hx]; push_cast; rfl
  have hbits := h.2
  rw [e] at hbits
  refine ⟨e, AssertBits.lt hC hF (by decide) ?_ hbits⟩
  have := n.nonce_lt
  have : (2 : ℕ) ^ 64 + 1 < 2 ^ 253 := by decide
  omega

include hC hF in
/-- The output note of a circuit, from the checks on its balance and nonce. -/
theorem Recommits.follows {w : NoteSignals F} {newBalance newCommitment : F} {n : Note F}
    (h : Recommits C w newBalance newCommitment) (hw : w.Describes n) :
    ∃ m : Note F, m.Follows n ∧ newBalance = (m.balance : F) ∧ m.commitment C = newCommitment := by
  obtain ⟨b, hb, eb⟩ := AssertBits.exists_nat hC (by decide) h.newBalanceBits
  obtain ⟨hnext, hk⟩ := h.nextNonce.next hC hF hw.nonce
  refine ⟨⟨n.secret, n.owner, b, n.nonce + 1, hb, hk⟩, ⟨rfl, rfl, rfl⟩, eb, ?_⟩
  have hc := h.nextCommitment
  rw [eb, hnext, hw.secret, hw.owner] at hc
  exact hc

include hF in
theorem Wide.eq_of_lt_67 {a b : ℕ} (ha : a < 2 ^ 67) (hb : b < 2 ^ 67) (h : (a : F) = b) :
    a = b := by
  have : (2 : ℕ) ^ 67 < 2 ^ 253 := by decide
  exact hF.eq (by omega) (by omega) h

theorem add_lt_67 {a b c : ℕ} (ha : a < 2 ^ 64) (hb : b < 2 ^ 64) (hc : c < 2 ^ 64) :
    a + b + c < 2 ^ 67 := by
  have : (2 : ℕ) ^ 67 = 8 * 2 ^ 64 := by decide
  omega

theorem Deposit.sound {commitment owner : F} {amount : ℕ} (hC : C.Spec) (hF : Wide F)
    (ha : amount < 2 ^ 253) (h : Deposit C commitment amount owner) :
    ∃ n : Note F, n.commitment C = commitment ∧ n.owner = owner ∧ n.nonce = 0 ∧
      n.balance = amount := by
  obtain ⟨secret, hbits, hcom⟩ := h
  have hlt := AssertBits.lt hC hF (by decide) ha hbits
  refine ⟨⟨secret, owner, amount, 0, hlt, by decide⟩, ?_, rfl, rfl, rfl⟩
  rw [← hcom, Note.commitment]
  simp only [Nat.cast_zero]

include hC hF in
/-- The bettor's next note is short of the stake and the fee, exactly. -/
theorem BetAuth.sound [DecidableEq F] {root nul new price shares market side pos : F}
    {betAmount fee : ℕ} (hb : betAmount < 2 ^ 64) (hf : fee < 2 ^ 64)
    (h : BetAuth C root nul new betAmount price shares market side pos fee) :
    ∃ n m : Note F, n.Opens C root nul ∧ m.Follows n ∧ m.commitment C = new ∧
      m.balance + betAmount + fee = n.balance := by
  obtain ⟨w, rem, h⟩ := h
  obtain ⟨n, hw, hn⟩ := h.spends.opens hC
  obtain ⟨m, hm, ebal, hcom⟩ := h.recommits.follows hC hF hw
  refine ⟨n, m, hn, hm, hcom, hF.eq_of_lt_67 (add_lt_67 m.balance_lt hb hf)
    (n.balance_lt.trans (by decide)) ?_⟩
  push_cast
  rw [← ebal, hw.balance]
  ring

include hC hF in
/-- The credited note gains the amount, exactly, and the bet was placed from an
earlier note of its lineage. -/
theorem CreditTemplate.sound [DecidableEq F] {root nul new bet : F} {amount : ℕ}
    (ha : amount < 2 ^ 64) (h : CreditTemplate C root nul new bet amount) :
    ∃ n m : Note F, n.Opens C root nul ∧ m.Follows n ∧ m.commitment C = new ∧
      m.balance = n.balance + amount ∧
      ∃ k < n.nonce, NullifierHash C n.secret (k : F) = bet := by
  obtain ⟨w, betNonce, h⟩ := h
  obtain ⟨n, hw, hn⟩ := h.spends.opens hC
  obtain ⟨m, hm, ebal, hcom⟩ := h.recommits.follows hC hF hw
  obtain ⟨k, hk, ek⟩ := AssertBits.exists_nat hC (by decide) h.betNonceBits
  refine ⟨n, m, hn, hm, hcom, ?_, k, ?_, ?_⟩
  · refine hF.eq_of_lt_67 (m.balance_lt.trans (by decide))
      (add_lt_67 n.balance_lt ha (by decide : 0 < 2 ^ 64)) ?_
    push_cast
    rw [← ebal, hw.balance]
  · have hlt := h.betBeforeCurrent
    rw [ek, hw.nonce] at hlt
    exact AssertLessThan.lt hC (by decide) hk n.nonce_lt hlt
  · rw [← h.preBetNullifier, ek, hw.secret]

include hC hF in
/-- A withdrawal spends exactly the withdrawn amount: all of the note, or all
but the balance of a next note. -/
theorem Withdrawal.sound [DecidableEq F] {root nul recipientHash new : F} {amount : ℕ}
    (ha : amount < 2 ^ 64) (h : Withdrawal C root nul amount recipientHash new) :
    ∃ n : Note F, n.Opens C root nul ∧ RecipientHash C n.owner = recipientHash ∧
      ((new = 0 ∧ n.balance = amount) ∨
        ∃ m : Note F, m.Follows n ∧ m.commitment C = new ∧ 0 < m.balance ∧
          m.balance + amount = n.balance) := by
  obtain ⟨w, recipientAddress, isPartial, h⟩ := h
  obtain ⟨n, hw, hn⟩ := h.spends.opens hC
  have hle : amount ≤ n.balance := by
    have hc := h.amountCheck
    rw [hw.balance] at hc
    exact AssertNotLessThan.le hC (by decide) n.balance_lt ha hc
  have hlt := h.isPartial_lt
  rw [hw.balance, hC.lessThan_iff 64 (by decide) _ ha _ n.balance_lt] at hlt
  have hexp := h.expected
  refine ⟨n, hn, by rw [← h.recipient, h.owner, hw.owner], ?_⟩
  by_cases hp : amount < n.balance
  · right
    rw [if_pos hp] at hlt
    obtain ⟨hnext, hk⟩ := h.nextNonce.next hC hF hw.nonce
    have hbal : w.balance - (amount : F) = ((n.balance - amount : ℕ) : F) := by
      rw [hw.balance, Nat.cast_sub hle]
    rw [hlt, one_mul, hbal, hnext, hw.secret, hw.owner] at hexp
    have hb := n.balance_lt
    exact ⟨⟨n.secret, n.owner, n.balance - amount, n.nonce + 1, by omega, hk⟩, ⟨rfl, rfl, rfl⟩,
      hexp, by simp only; omega, by simp only; omega⟩
  · left
    rw [if_neg hp] at hlt
    rw [hlt, zero_mul] at hexp
    exact ⟨hexp.symm, by omega⟩

/-- A slot of `Consolidate` is either inactive with a zero nullifier or spends a note. -/
inductive SlotSpends (C : Circomlib F) (root owner : F) : F → Option (Note F) → Prop
  | inactive : SlotSpends C root owner 0 none
  | active {nul : F} (n : Note F) (hn : n.Opens C root nul) (ho : n.owner = owner) :
    SlotSpends C root owner nul (some n)

def slotBalance (s : Option (Note F)) : ℕ := s.elim 0 Note.balance

omit [Field F] in
theorem slotBalance_lt (s : Option (Note F)) : slotBalance s < 2 ^ 64 := by
  cases s with
  | none => exact Nat.two_pow_pos 64
  | some n => exact n.balance_lt

theorem SlotSpends.eq_zero {root owner nul : F} (h : SlotSpends C root owner nul none) :
    nul = 0 := by
  cases h
  rfl

theorem SlotSpends.opens {root owner nul : F} {n : Note F}
    (h : SlotSpends C root owner nul (some n)) : n.Opens C root nul ∧ n.owner = owner := by
  cases h with
  | active _ hn ho => exact ⟨hn, ho⟩

include hC in
theorem SlotConstraints.spends [DecidableEq F] {owner root nul r : F} {s : SlotSignals F}
    (h : SlotConstraints C owner root s nul r) :
    ∃ o, SlotSpends C root owner nul o ∧ s.eff = (slotBalance o : F) ∧
      (s.isActive = 1 → ∃ n, o = some n ∧ s.secret = n.secret ∧ s.nonce = (n.nonce : F)) := by
  have hb := h.isActive_bool
  rcases mul_eq_zero.mp hb with h0 | h1
  · refine ⟨none, ?_, ?_, fun e => ?_⟩
    · have hn := h.nullifierGate
      rw [h0, zero_mul] at hn
      rw [hn]
      exact .inactive
    · simp [SlotSignals.eff, h0, slotBalance]
    · rw [h0] at e; exact absurd e zero_ne_one
  · rw [sub_eq_zero] at h1
    obtain ⟨b, hb, eb⟩ := AssertBits.exists_nat hC (by decide) h.balBits
    obtain ⟨k, hk, ek⟩ := AssertBits.exists_nat hC (by decide) h.nonceBits
    have hroot : r = root := by
      have := h.rootGate
      rwa [h1, one_mul, sub_eq_zero] at this
    have hmerkle := h.merkle.climb_eq
    rw [eb, ek, hroot] at hmerkle
    have hnul := h.nullifierGate
    rw [h1, one_mul, ek] at hnul
    let n : Note F := ⟨s.secret, owner, b, k, hb, hk⟩
    refine ⟨some n, .active n ⟨hmerkle, hnul.symm⟩ rfl, ?_, fun _ => ⟨n, rfl, rfl, ek⟩⟩
    simp [SlotSignals.eff, h1, slotBalance, eb, n]

include hC hF in
/-- A consolidation moves the balances of its active slots into the next note of slot 0. -/
theorem Consolidate.sound [DecidableEq F] {root new : F} {nul : Fin 4 → F}
    (h : Consolidate C root nul new) :
    ∃ (slot : Fin 4 → Option (Note F)) (n m : Note F) (owner : F),
      (∀ j, SlotSpends C root owner (nul j) (slot j)) ∧ slot 0 = some n ∧ m.Follows n ∧
      m.commitment C = new ∧ m.balance = ∑ j, slotBalance (slot j) := by
  obtain ⟨s, r, owner, h⟩ := h
  choose slot hspend heff hact using fun j => (h.slots j).spends hC
  obtain ⟨n, hn, hsec, hnon⟩ := hact 0 h.slot0
  have hown : n.owner = owner := (hn ▸ hspend 0 : SlotSpends C root owner _ (some n)).opens.2
  have hsum : ((s 0).eff + (s 1).eff) + (s 2).eff + (s 3).eff
      = ((∑ j, slotBalance (slot j) : ℕ) : F) := by
    rw [Fin.sum_univ_four, heff, heff, heff, heff]
    push_cast
    ring
  have hlt : ∑ j, slotBalance (slot j) < 2 ^ 64 := by
    have hbits := h.sumBits
    rw [hsum] at hbits
    refine AssertBits.lt hC hF (by decide) ?_ hbits
    have h0 := slotBalance_lt (slot 0)
    have h1 := slotBalance_lt (slot 1)
    have h2 := slotBalance_lt (slot 2)
    have h3 := slotBalance_lt (slot 3)
    have : 4 * (2 : ℕ) ^ 64 < 2 ^ 253 := by decide
    rw [Fin.sum_univ_four]
    omega
  obtain ⟨hnext, hk⟩ := h.nextNonce.next hC hF hnon
  refine ⟨slot, n, ⟨n.secret, n.owner, _, n.nonce + 1, hlt, hk⟩, owner, hspend, hn, ⟨rfl, rfl, rfl⟩,
    ?_, rfl⟩
  have hout := h.outCommitment
  rw [hsum, hnext, hsec, ← hown] at hout
  exact hout

end Soundness

end Polyshield

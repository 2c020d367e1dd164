import Polyshield.Circuits.Soundness
import Polyshield.Tree.Agreement
import Polyshield.Vault.Types

/-!
# The inputs of the prover

`prover.ts`: the inputs that the app hands to `fullProve`, which finds the other
signals of the circuit or throws (`Proves`). Inputs that describe a note under
the root, and amounts that fit, are never refused; this is over any field where
small numbers are distinct.
-/

namespace Polyshield

variable {F : Type} [Field F] {C : Circomlib F}

/-! ## Checks on numbers -/

section Checks

variable (hC : C.Spec)

include hC

theorem assertBits_natCast {n k : ℕ} (hn : n ≤ 253) (hk : k < 2 ^ n) : AssertBits C n (k : F) :=
  (hC.num2Bits_iff n hn _).mpr ⟨k, hk, rfl⟩

theorem lessThan_natCast {n a b : ℕ} (hn : n ≤ 252) (ha : a < 2 ^ n) (hb : b < 2 ^ n) :
    C.lessThan n (a : F) (b : F) (if a < b then 1 else 0) :=
  (hC.lessThan_iff n hn a ha b hb _).mpr rfl

theorem assertLessThan_natCast {n a b : ℕ} (hn : n ≤ 252) (hb : b < 2 ^ n) (h : a < b) :
    AssertLessThan C n (a : F) (b : F) := by
  refine ⟨_, lessThan_natCast hC hn (h.trans hb) hb, ?_⟩
  rw [if_pos h]

theorem assertNotLessThan_natCast {n a b : ℕ} (hn : n ≤ 252) (ha : a < 2 ^ n) (h : b ≤ a) :
    AssertNotLessThan C n (a : F) (b : F) := by
  refine ⟨_, lessThan_natCast hC hn ha (h.trans_lt ha), ?_⟩
  rw [if_neg (not_lt.mpr h)]

theorem incrementU64_natCast {k : ℕ} (hk : k + 1 < 2 ^ 64) :
    IncrementU64 C (k : F) ((k : F) + 1) := by
  refine ⟨rfl, ?_⟩
  have h := assertBits_natCast hC (by decide) hk
  rwa [Nat.cast_add, Nat.cast_one] at h

end Checks

/-! ## The note that is spent -/

namespace NoteSignals.Describes

variable {w : NoteSignals F} {n : Note F} (hw : w.Describes n) (hC : C.Spec)

include hw hC

theorem spendsNote {root : F} (hpath : PoseidonMerklePath C.poseidon2 treeDepth (n.commitment C)
    w.merklePath w.merklePathIndices root) : SpendsNote C w root (n.nullifier C) where
  balanceBits := by
    rw [hw.balance]
    exact assertBits_natCast hC (by decide) n.balance_lt
  nonceBits := by
    rw [hw.nonce]
    exact assertBits_natCast hC (by decide) n.nonce_lt
  merkle := by
    rw [hw.secret, hw.balance, hw.nonce, hw.owner]
    exact hpath
  spent := by
    rw [hw.secret, hw.nonce]
    rfl

theorem nextNonce (hn : n.nonce + 1 < 2 ^ 64) : IncrementU64 C w.nonce (w.nonce + 1) := by
  rw [hw.nonce]
  exact incrementU64_natCast hC hn

theorem recommits {m : Note F} (hm : m.Follows n) {newBalance : F}
    (hb : newBalance = (m.balance : F)) : Recommits C w newBalance (m.commitment C) where
  newBalanceBits := by
    rw [hb]
    exact assertBits_natCast hC (by decide) m.balance_lt
  nextNonce := hw.nextNonce hC (hm.nonce ▸ m.nonce_lt)
  nextCommitment := by
    have hnonce : w.nonce + 1 = (m.nonce : F) := by
      rw [hw.nonce, hm.nonce, Nat.cast_add, Nat.cast_one]
    rw [hb, hnonce, hw.secret, hw.owner, ← hm.secret, ← hm.owner]
    rfl

end NoteSignals.Describes

/-! ## The inputs -/

/-- The inputs every circuit takes for a note that is spent. The balance is `final_balance`,
`current_balance` or `balance_before_credit`. -/
structure SpendInputs (F : Type) where
  secret : F
  balance : ℤ
  nonce : ℕ
  merklePath : List F
  merklePathIndices : List ℤ
  ownerAddress : Address
  merkleRoot : F
  nullifier : F

namespace SpendInputs

/-- The private signals the inputs set. -/
def signals (i : SpendInputs F) : NoteSignals F where
  secret := i.secret
  balance := (i.balance : F)
  nonce := (i.nonce : F)
  merklePath := i.merklePath
  merklePathIndices := i.merklePathIndices.map Int.cast
  ownerAddress := (i.ownerAddress.toNat : F)

/-- The inputs are of this note, with a path of the relay. -/
structure Of (C : Circomlib F) (i : SpendInputs F) (n : Note F) : Prop where
  secret : i.secret = n.secret
  balance : i.balance = n.balance
  nonce : i.nonce = n.nonce
  owner : (i.ownerAddress.toNat : F) = n.owner
  nullifier : i.nullifier = n.nullifier C
  path : PoseidonMerklePath C.poseidon2 treeDepth (n.commitment C) i.merklePath
    (i.merklePathIndices.map Int.cast) i.merkleRoot

theorem Of.describes {i : SpendInputs F} {n : Note F} (h : i.Of C n) : i.signals.Describes n where
  secret := h.secret
  owner := h.owner
  balance := by
    show ((i.balance : ℤ) : F) = _
    rw [h.balance, Int.cast_natCast]
  nonce := by
    show (i.nonce : F) = _
    rw [h.nonce]

theorem Of.spendsNote {i : SpendInputs F} {n : Note F} (h : i.Of C n) (hC : C.Spec) :
    SpendsNote C i.signals i.merkleRoot i.nullifier := by
  rw [h.nullifier]
  exact h.describes.spendsNote hC h.path

end SpendInputs

structure WithdrawalInputs (F : Type) extends SpendInputs F where
  newCommitment : F
  recipientAddress : Address
  withdrawalAmount : ℤ
  recipientHash : F

namespace WithdrawalInputs

/-- `generateWithdrawalProof` does not throw. -/
def Proves (C : Circomlib F) (i : WithdrawalInputs F) : Prop :=
  ∃ isPartial, WithdrawalConstraints C i.signals (i.recipientAddress.toNat : F) isPartial
    i.merkleRoot i.nullifier (i.withdrawalAmount : F) i.recipientHash i.newCommitment

/-- The inputs withdraw an amount from a note to its owner; what is left goes on in the lineage. -/
structure Of (C : Circomlib F) (i : WithdrawalInputs F) (n : Note F) (amount : ℕ) : Prop where
  spends : i.toSpendInputs.Of C n
  recipient : i.recipientAddress = i.ownerAddress
  recipientHash : i.recipientHash = RecipientHash C (i.recipientAddress.toNat : F)
  withdrawalAmount : i.withdrawalAmount = amount
  full : amount = n.balance → i.newCommitment = 0
  rest : amount < n.balance → i.newCommitment
    = NoteCommitment C n.secret ((n.balance - amount : ℕ) : F) ((n.nonce + 1 : ℕ) : F) n.owner

variable {i : WithdrawalInputs F} {n : Note F} {amount : ℕ}

/-- A withdrawal from a note is proved exactly for the amounts it covers. -/
theorem Of.proves_iff (h : i.Of C n amount) (hC : C.Spec) (hamount : amount < 2 ^ 64)
    (hnonce : n.nonce + 1 < 2 ^ 64) : i.Proves C ↔ amount ≤ n.balance := by
  have hbal : i.signals.balance = (n.balance : F) := h.spends.describes.balance
  have hcast : (i.withdrawalAmount : F) = (amount : F) := by
    rw [h.withdrawalAmount, Int.cast_natCast]
  constructor
  · rintro ⟨isPartial, hw⟩
    have hcheck := hw.amountCheck
    rw [hbal, hcast] at hcheck
    exact hcheck.le hC (by decide) n.balance_lt hamount
  · intro hle
    refine ⟨if amount < n.balance then 1 else 0, {
      spends := h.spends.spendsNote hC
      withdrawalBits := ?_
      amountCheck := ?_
      recipient := h.recipientHash.symm
      owner := ?_
      isPartial_lt := ?_
      isPartial_bool := ?_
      nextNonce := h.spends.describes.nextNonce hC hnonce
      expected := ?_ }⟩
    · rw [hcast]
      exact assertBits_natCast hC (by decide) hamount
    · rw [hbal, hcast]
      exact assertNotLessThan_natCast hC (by decide) n.balance_lt hle
    · rw [h.recipient]
      rfl
    · rw [hbal, hcast]
      exact lessThan_natCast hC (by decide) hamount n.balance_lt
    · split <;> simp [AssertBool]
    · split
      next hlt =>
        have hd := h.spends.describes
        rw [one_mul, h.rest hlt, hd.secret, hd.owner, hd.nonce, hbal, hcast, Nat.cast_sub hle,
          Nat.cast_add, Nat.cast_one]
      next hge => rw [zero_mul, h.full (by omega)]

end WithdrawalInputs

structure BetAuthInputs (F : Type) extends SpendInputs F where
  newCommitment : F
  shareRemainder : ℤ
  betAmount : ℤ
  price : ℤ
  expectedShares : ℤ
  marketId : F
  outcomeSide : UInt8
  positionId : F
  fee : ℤ

namespace BetAuthInputs

/-- `generateBetAuthProof` does not throw. -/
def Proves (C : Circomlib F) (i : BetAuthInputs F) : Prop :=
  BetAuthConstraints C i.signals (i.shareRemainder : F) i.merkleRoot i.nullifier i.newCommitment
    (i.betAmount : F) (i.price : F) (i.expectedShares : F) (i.outcomeSide.toNat : F) (i.fee : F)

/-- The inputs bet a stake from a note at a price, with a fee; what is left goes on in the
lineage. -/
structure Of (C : Circomlib F) (i : BetAuthInputs F) (n : Note F) (stake price fee : ℕ) :
    Prop where
  spends : i.toSpendInputs.Of C n
  betAmount : i.betAmount = stake
  expectedShares : i.expectedShares = (stake * pricePrecision / price : ℕ)
  shareRemainder : i.shareRemainder = (stake * pricePrecision % price : ℕ)
  rest : stake + fee ≤ n.balance → i.newCommitment
    = NoteCommitment C n.secret ((n.balance - (stake + fee) : ℕ) : F) ((n.nonce + 1 : ℕ) : F)
      n.owner
  price : i.price = price
  fee : i.fee = fee

variable {i : BetAuthInputs F} {n : Note F} {stake price fee : ℕ}

/-- A bet from a note is proved exactly when the note covers the stake and the fee, and the price
is positive and not too small for the shares it promises. -/
theorem Of.proves_iff (h : i.Of C n stake price fee) (hC : C.Spec) (hF : Wide F)
    (hstake : stake < 2 ^ 64) (hprice : price < 2 ^ 64) (hfee : fee < 2 ^ 128)
    (hnonce : n.nonce + 1 < 2 ^ 64) : i.Proves C ↔
      0 < price ∧ stake * pricePrecision / price < 2 ^ 64 ∧ stake + fee ≤ n.balance := by
  have hd : i.signals.Describes n := h.spends.describes
  have hbal := n.balance_lt
  have hstake' : (i.betAmount : F) = (stake : F) := by rw [h.betAmount, Int.cast_natCast]
  have hprice' : (i.price : F) = (price : F) := by rw [h.price, Int.cast_natCast]
  have hfee' : (i.fee : F) = (fee : F) := by rw [h.fee, Int.cast_natCast]
  have hshares' : (i.expectedShares : F) = ((stake * pricePrecision / price : ℕ) : F) := by
    rw [h.expectedShares, Int.cast_natCast]
  have hrem' : (i.shareRemainder : F) = ((stake * pricePrecision % price : ℕ) : F) := by
    rw [h.shareRemainder, Int.cast_natCast]
  have hscaled : stake * pricePrecision / price < 2 ^ 253 := by
    have hle : stake * pricePrecision / price ≤ stake * pricePrecision := Nat.div_le_self ..
    have hlt : stake * pricePrecision < 2 ^ 253 := by
      unfold pricePrecision
      omega
    omega
  constructor
  · intro hp
    have hpos := hp.priceNZ
    rw [hprice', ← Nat.cast_zero] at hpos
    have hshares := hp.expectedSharesBits
    rw [hshares'] at hshares
    have hcovers := hp.balanceCheck
    rw [hd.balance, hstake'] at hcovers
    refine ⟨AssertLessThan.lt hC (by decide) (by decide) hprice hpos,
      AssertBits.lt hC hF (by decide) hscaled hshares, ?_⟩
    have hle := hcovers.le hC (by decide) hbal hstake
    -- The remainder is a number of 64 bits, so the fee is no more than what the stake leaves.
    obtain ⟨k, hk, heq⟩ := hp.recommits.newBalanceBits.exists_nat hC (by decide)
    rw [hd.balance, hstake', hfee', ← Nat.cast_sub hle, sub_eq_iff_eq_add, ← Nat.cast_add] at heq
    have hpow : (2 : ℕ) ^ 64 + 2 ^ 128 < 2 ^ 253 := by decide
    have hsum := hF.eq (by omega) (by omega) heq
    omega
  · rintro ⟨hpos, hshares, hle⟩
    have hrem : stake * pricePrecision % price < price := Nat.mod_lt _ hpos
    let m : Note F := ⟨n.secret, n.owner, n.balance - (stake + fee), n.nonce + 1, by omega, hnonce⟩
    exact {
      spends := h.spends.spendsNote hC
      betAmountBits := by
        rw [hstake']
        exact assertBits_natCast hC (by decide) hstake
      feeBits := by
        rw [hfee']
        exact assertBits_natCast hC (by decide) (by omega)
      priceBits := by
        rw [hprice']
        exact assertBits_natCast hC (by decide) hprice
      expectedSharesBits := by
        rw [hshares']
        exact assertBits_natCast hC (by decide) hshares
      remainderBits := by
        rw [hrem']
        exact assertBits_natCast hC (by decide) (hrem.trans hprice)
      outcomeSideBits := assertBits_natCast hC (by decide) i.outcomeSide.toNat_lt
      balanceCheck := by
        rw [hd.balance, hstake']
        exact assertNotLessThan_natCast hC (by decide) hbal (by omega)
      remainderCheck := by
        rw [hrem', hprice']
        exact assertLessThan_natCast hC (by decide) hprice hrem
      priceNZ := by
        rw [hprice', ← Nat.cast_zero]
        exact assertLessThan_natCast hC (by decide) hprice hpos
      shares := by
        rw [hshares', hrem', hprice', hstake', ← Nat.cast_mul, ← Nat.cast_mul, ← Nat.cast_add,
          mul_comm (stake * pricePrecision / price), Nat.div_add_mod]
      recommits := by
        rw [h.rest hle]
        have hm : m.Follows n := ⟨rfl, rfl, rfl⟩
        refine hd.recommits hC hm ?_
        rw [hd.balance, hstake', hfee', sub_sub, ← Nat.cast_add, ← Nat.cast_sub hle] }

end BetAuthInputs

/-- The inputs of the circuits that credit a bet: `SettlementInputs`, `BetCancelInputs`,
`CancelCreditInputs`, `PositionCloseInputs` and `PartialCreditInputs`. -/
structure CreditInputs (F : Type) extends SpendInputs F where
  newCommitment : F
  betNonce : ℕ
  nullifierOfBet : F
  credit : ℤ

namespace CreditInputs

/-- The proof of the credit does not throw. -/
def Proves (C : Circomlib F) (i : CreditInputs F) : Prop :=
  CreditConstraints C i.signals (i.betNonce : F) i.merkleRoot i.nullifier i.newCommitment
    i.nullifierOfBet (i.credit : F)

/-- The inputs add a credit to a note, for the bet that was placed from the note `b`. -/
structure Of (C : Circomlib F) (i : CreditInputs F) (n b : Note F) (credit : ℕ) : Prop where
  spends : i.toSpendInputs.Of C n
  betNonce : i.betNonce = b.nonce
  nullifierOfBet : i.nullifierOfBet = b.nullifier C
  next : n.balance + credit < 2 ^ 64 → i.newCommitment
    = NoteCommitment C n.secret ((n.balance + credit : ℕ) : F) ((n.nonce + 1 : ℕ) : F) n.owner
  credit : i.credit = credit

variable {i : CreditInputs F} {n b : Note F} {credit : ℕ}

/-- A credit is proved for a later note of the bet's lineage, as long as the balance fits. -/
theorem Of.proves_iff (h : i.Of C n b credit) (hC : C.Spec) (hF : Wide F)
    (hb : b.secret = n.secret) (hcredit : credit < 2 ^ 64) (hnonce : n.nonce + 1 < 2 ^ 64) :
    i.Proves C ↔ b.nonce < n.nonce ∧ n.balance + credit < 2 ^ 64 := by
  have hd : i.signals.Describes n := h.spends.describes
  have hbal := n.balance_lt
  have hcredit' : (i.credit : F) = (credit : F) := by rw [h.credit, Int.cast_natCast]
  have hsum : i.signals.balance + (i.credit : F) = ((n.balance + credit : ℕ) : F) := by
    rw [hd.balance, hcredit', Nat.cast_add]
  have hpow : (2 : ℕ) ^ 64 + 2 ^ 64 < 2 ^ 253 := by decide
  constructor
  · intro hp
    have hbefore := hp.betBeforeCurrent
    rw [h.betNonce, hd.nonce] at hbefore
    have hfits := hp.recommits.newBalanceBits
    rw [hsum] at hfits
    exact ⟨hbefore.lt hC (by decide) b.nonce_lt n.nonce_lt,
      AssertBits.lt hC hF (by decide) (by omega) hfits⟩
  · rintro ⟨hbefore, hfits⟩
    let m : Note F := ⟨n.secret, n.owner, n.balance + credit, n.nonce + 1, hfits, hnonce⟩
    exact {
      spends := h.spends.spendsNote hC
      amountBits := by
        rw [hcredit']
        exact assertBits_natCast hC (by decide) hcredit
      recommits := by
        rw [h.next hfits]
        have hm : m.Follows n := ⟨rfl, rfl, rfl⟩
        exact hd.recommits hC hm hsum
      betNonceBits := by
        rw [h.betNonce]
        exact assertBits_natCast hC (by decide) b.nonce_lt
      betBeforeCurrent := by
        rw [h.betNonce, hd.nonce]
        exact assertLessThan_natCast hC (by decide) n.nonce_lt hbefore
      preBetNullifier := by
        rw [h.nullifierOfBet, h.betNonce, hd.secret, ← hb]
        rfl }

end CreditInputs

/-- `ConsolidateInputs`: an array for each field, with one entry for each slot. -/
structure ConsolidateInputs (F : Type) where
  secret : Fin 4 → F
  balance : Fin 4 → ℤ
  nonce : Fin 4 → ℕ
  merklePath : Fin 4 → List F
  merklePathIndices : Fin 4 → List ℤ
  isActive : Fin 4 → ℕ
  ownerAddress : Address
  merkleRoot : F
  nullifier : Fin 4 → F
  newCommitment : F

/-- An array of the notes' fields, padded to the four slots. -/
def padSlots {α : Type} (notes : List (SpendInputs F)) (field : SpendInputs F → α) (padding : α)
    (j : Fin 4) : α :=
  (notes[j.val]?).elim padding field

/-- What `consolidateNotes` hands to the prover: the notes in the first slots, zeros in the
others, and the root of the first path. -/
def consolidateInputs (C : Circomlib F) (first : SpendInputs F) (others : List (SpendInputs F)) :
    ConsolidateInputs F where
  secret := padSlots (first :: others) SpendInputs.secret 0
  balance := padSlots (first :: others) SpendInputs.balance 0
  nonce := padSlots (first :: others) SpendInputs.nonce 0
  merklePath := padSlots (first :: others) SpendInputs.merklePath (List.replicate treeDepth 0)
  merklePathIndices :=
    padSlots (first :: others) SpendInputs.merklePathIndices (List.replicate treeDepth 0)
  isActive := padSlots (first :: others) (fun _ => 1) 0
  ownerAddress := first.ownerAddress
  merkleRoot := first.merkleRoot
  nullifier := padSlots (first :: others) SpendInputs.nullifier 0
  newCommitment := NoteCommitment C first.secret
    (((first :: others).map SpendInputs.balance).sum : F) ((first.nonce + 1 : ℕ) : F)
    (first.ownerAddress.toNat : F)

namespace ConsolidateInputs

def slot (i : ConsolidateInputs F) (j : Fin 4) : SlotSignals F where
  secret := i.secret j
  balance := (i.balance j : F)
  nonce := (i.nonce j : F)
  merklePath := i.merklePath j
  merklePathIndices := (i.merklePathIndices j).map Int.cast
  isActive := (i.isActive j : F)

/-- `generateConsolidateProof` does not throw. -/
def Proves (C : Circomlib F) (i : ConsolidateInputs F) : Prop :=
  ∃ root, ConsolidateConstraints C i.slot root (i.ownerAddress.toNat : F) i.merkleRoot i.nullifier
    i.newCommitment

end ConsolidateInputs

end Polyshield

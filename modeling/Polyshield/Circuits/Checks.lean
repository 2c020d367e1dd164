import Polyshield.Tree.Contract
import Polyshield.Tree.Circuit

/-!
# Components of the circuits

`lib/checks.circom` and `lib/note.circom`. The circomlib templates they include
are parameters (`Circomlib`); `Circomlib.Spec` is what circomlib documents of
them, `LessThan(n)` only for inputs below `2 ^ n`. Numbers below `2 ^ 253` are
distinct field elements (`Wide`), as they are in the BN254 scalar field.
-/

namespace Polyshield

/-- `BN254_P`, the order of the BN254 scalar field. -/
def bn254P : ℕ := 21888242871839275222246405745257275088548364400416034343698204186575808495617

/-- `Num2Bits`, `LessThan` and `Poseidon` as relations between their signals. -/
structure Circomlib (F : Type*) where
  /-- `Num2Bits(n)` has a witness for the input. -/
  num2Bits : ℕ → F → Prop
  /-- `LessThan(n)` maps `in[0]`, `in[1]` to `out`. -/
  lessThan : ℕ → F → F → F → Prop
  poseidon2 : F → F → F
  poseidon4 : F → F → F → F → F

variable {F : Type*} [Field F]

/-- The documented behaviour of `Num2Bits` and `LessThan`. -/
structure Circomlib.Spec (C : Circomlib F) : Prop where
  num2Bits_iff : ∀ n ≤ 253, ∀ x, C.num2Bits n x ↔ ∃ k < 2 ^ n, x = ((k : ℕ) : F)
  lessThan_iff : ∀ n ≤ 252, ∀ a < 2 ^ n, ∀ b < 2 ^ n, ∀ out,
    C.lessThan n ((a : ℕ) : F) ((b : ℕ) : F) out ↔ out = if a < b then 1 else 0

/-- Small numbers are distinct field elements. -/
def Wide (F : Type*) [Field F] : Prop := Set.InjOn (Nat.cast : ℕ → F) {n | n < 2 ^ 253}

theorem Wide.eq {a b : ℕ} (hF : Wide F) (ha : a < 2 ^ 253) (hb : b < 2 ^ 253)
    (h : (a : F) = b) : a = b := hF ha hb h

section Components

variable (C : Circomlib F)

def AssertBits (n : ℕ) (x : F) : Prop := C.num2Bits n x

def AssertLessThan (n : ℕ) (lhs rhs : F) : Prop := ∃ out, C.lessThan n lhs rhs out ∧ out = 1

def AssertNotLessThan (n : ℕ) (lhs rhs : F) : Prop := ∃ out, C.lessThan n lhs rhs out ∧ out = 0

def IncrementU64 (x out : F) : Prop := out = x + 1 ∧ AssertBits C 64 out

def NoteCommitment (secret balance nonce ownerAddress : F) : F :=
  C.poseidon4 secret balance nonce ownerAddress

def NullifierHash (secret nonce : F) : F := C.poseidon2 secret nonce

def RecipientHash (recipient : F) : F := C.poseidon2 recipient 0

/-- `price_precision` of `Groth16Constants`. -/
def pricePrecision : ℕ := 100000000

end Components

section Spec

variable {C : Circomlib F} (hC : C.Spec)

include hC in
theorem AssertBits.exists_nat {n : ℕ} {x : F} (hn : n ≤ 253) (h : AssertBits C n x) :
    ∃ k < 2 ^ n, x = ((k : ℕ) : F) :=
  (hC.num2Bits_iff n hn x).mp h

include hC in
/-- A range check on a sum of small numbers is a check on the number itself. -/
theorem AssertBits.lt {n k : ℕ} (hF : Wide F) (hn : n ≤ 252) (hk : k < 2 ^ 253)
    (h : AssertBits C n (k : F)) : k < 2 ^ n := by
  obtain ⟨m, hm, e⟩ := AssertBits.exists_nat hC (by omega) h
  have hpow : 2 ^ n ≤ 2 ^ 252 := Nat.pow_le_pow_right (by decide) hn
  have hm' : m < 2 ^ 253 := by
    have : (2 : ℕ) ^ 252 < 2 ^ 253 := by decide
    omega
  rwa [hF.eq hk hm' e]

include hC in
theorem AssertNotLessThan.le {n a b : ℕ} (hn : n ≤ 252) (ha : a < 2 ^ n) (hb : b < 2 ^ n)
    (h : AssertNotLessThan C n (a : F) (b : F)) : b ≤ a := by
  obtain ⟨out, hout, rfl⟩ := h
  rw [hC.lessThan_iff n hn a ha b hb] at hout
  by_contra hlt
  rw [if_pos (by omega)] at hout
  exact zero_ne_one hout

include hC in
theorem AssertLessThan.lt {n a b : ℕ} (hn : n ≤ 252) (ha : a < 2 ^ n) (hb : b < 2 ^ n)
    (h : AssertLessThan C n (a : F) (b : F)) : a < b := by
  obtain ⟨out, hout, rfl⟩ := h
  rw [hC.lessThan_iff n hn a ha b hb] at hout
  by_contra hlt
  rw [if_neg hlt] at hout
  exact one_ne_zero hout

end Spec

end Polyshield

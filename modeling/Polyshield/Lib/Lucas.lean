import Mathlib.NumberTheory.LucasPrimality
import Mathlib.Data.List.Prime
import Mathlib.Tactic.Ring

/-!
# Primes by Lucas's test

A number is prime if it has a primitive root. `powMod` raises to a power by
squaring, so that the kernel evaluates the test on numbers of some hundred bits.
-/

namespace Polyshield

/-- `acc * a ^ e % m`, by squaring, for an exponent of at most `bits` bits. -/
def powMod (m : ℕ) : ℕ → ℕ → ℕ → ℕ → ℕ
  | 0, _, _, acc => acc % m
  | bits + 1, a, e, acc =>
    powMod m bits (a * a % m) (e / 2) (if e % 2 = 1 then acc * a % m else acc)

theorem powMod_eq (m bits a e acc : ℕ) (he : e < 2 ^ bits) :
    powMod m bits a e acc = acc * a ^ e % m := by
  induction bits generalizing a e acc with
  | zero =>
    obtain rfl : e = 0 := by simpa using he
    simp [powMod]
  | succ bits ih =>
    have hhalf : e / 2 < 2 ^ bits := by omega
    have hsquare : ∀ x, x * (a * a % m) ^ (e / 2) % m = x * a ^ (2 * (e / 2)) % m := fun x => by
      rw [Nat.mul_mod, ← Nat.pow_mod, ← Nat.mul_mod, ← Nat.pow_two, ← Nat.pow_mul]
    rw [powMod, ih _ _ _ hhalf, hsquare]
    split
    · have hodd : a ^ e = a * a ^ (2 * (e / 2)) := by rw [← Nat.pow_succ']; congr 1; omega
      rw [Nat.mod_mul_mod, hodd, Nat.mul_assoc]
    · congr 3
      omega

/-- Each prime factor of `p - 1` is one of `primes`, and `a` is a primitive root of `p`. -/
structure LucasTest (bits p a : ℕ) (primes : List ℕ) : Prop where
  one_lt : 1 < p
  lt_bits : p < 2 ^ bits
  factors : p - 1 ∣ primes.prod ^ bits
  full : powMod p bits a (p - 1) 1 = 1
  proper : ∀ q ∈ primes, powMod p bits a ((p - 1) / q) 1 ≠ 1

instance (bits p a : ℕ) (primes : List ℕ) : Decidable (LucasTest bits p a primes) :=
  decidable_of_iff (1 < p ∧ p < 2 ^ bits ∧ p - 1 ∣ primes.prod ^ bits ∧
      powMod p bits a (p - 1) 1 = 1 ∧ ∀ q ∈ primes, powMod p bits a ((p - 1) / q) 1 ≠ 1)
    ⟨fun ⟨h1, h2, h3, h4, h5⟩ => ⟨h1, h2, h3, h4, h5⟩, fun ⟨h1, h2, h3, h4, h5⟩ =>
      ⟨h1, h2, h3, h4, h5⟩⟩

theorem LucasTest.prime {bits p a : ℕ} {primes : List ℕ} (h : LucasTest bits p a primes)
    (hprimes : ∀ q ∈ primes, q.Prime) : p.Prime := by
  have hpow : ∀ e ≤ p - 1, ((a : ZMod p) ^ e = 1 ↔ powMod p bits a e 1 = 1) := fun e he => by
    have hlt := h.lt_bits
    rw [powMod_eq _ _ _ _ _ (by omega), Nat.one_mul]
    have hone : 1 % p = 1 := Nat.mod_eq_of_lt h.one_lt
    rw [← Nat.cast_pow, ← Nat.cast_one, ZMod.natCast_eq_natCast_iff, Nat.ModEq, hone]
  refine lucas_primality p (a : ZMod p) ((hpow _ le_rfl).mpr h.full) fun q hq hdvd => ?_
  have hmem : q ∈ primes :=
    mem_list_primes_of_dvd_prod hq.prime (fun r hr => (hprimes r hr).prime)
      (hq.dvd_of_dvd_pow (hdvd.trans h.factors))
  rw [ne_eq, hpow _ (Nat.div_le_self _ _)]
  exact h.proper q hmem

end Polyshield

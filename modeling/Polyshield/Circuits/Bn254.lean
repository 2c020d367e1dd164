import Polyshield.Lib.Lucas
import Polyshield.Circuits.Checks
import Mathlib.Tactic.NormNum.Prime
import Mathlib.FieldTheory.Finite.Basic

/-!
# The BN254 scalar field

The field over which the circuits are compiled. Its order is prime, and above
`2 ^ 253`.
-/

namespace Polyshield

/-- The BN254 scalar field. -/
abbrev Fr := ZMod bn254P

/-- The tests of the primes below, which the kernel evaluates at once. -/
theorem lucasTests :
    LucasTest 32 1593227 2 [2, 19, 41927] ∧
    LucasTest 32 405928799 22 [2, 11, 3691, 4999] ∧
    LucasTest 32 639533339 2 [2, 229, 853, 1637] ∧
    LucasTest 64 65865678001877903 5 [2, 83, 379, 1637, 639533339] ∧
    LucasTest 64 12048837557 2 [2, 7, 661, 93001] ∧
    LucasTest 64 5156902474397 2 [2, 107, 12048837557] ∧
    LucasTest 64 1670836401704629 2 [2, 3, 5156902474397] ∧
    LucasTest 128 13818364434197438864469338081 3 [2, 5, 823, 1593227, 65865678001877903] ∧
    LucasTest 256 bn254P 5 [2, 3, 13, 29, 983, 11003, 237073, 405928799, 1670836401704629,
      13818364434197438864469338081] ∧
    2 ^ 253 < bn254P := by
  decide +kernel

theorem prime_bn254P : Nat.Prime bn254P := by
  obtain ⟨h1, h2, h3, h4, h5, h6, h7, h8, h9, -⟩ := lucasTests
  -- each prime is one of the factors in the tests of later ones
  have prime_1593227 : Nat.Prime 1593227 := by
    refine h1.prime ?_
    simp only [List.forall_mem_cons]
    exact ⟨by norm_num, by norm_num, by norm_num, by simp⟩
  have prime_405928799 : Nat.Prime 405928799 := by
    refine h2.prime ?_
    simp only [List.forall_mem_cons]
    exact ⟨by norm_num, by norm_num, by norm_num, by norm_num, by simp⟩
  have prime_639533339 : Nat.Prime 639533339 := by
    refine h3.prime ?_
    simp only [List.forall_mem_cons]
    exact ⟨by norm_num, by norm_num, by norm_num, by norm_num, by simp⟩
  have prime_65865678001877903 : Nat.Prime 65865678001877903 := by
    refine h4.prime ?_
    simp only [List.forall_mem_cons]
    exact ⟨by norm_num, by norm_num, by norm_num, by norm_num, prime_639533339, by simp⟩
  have prime_12048837557 : Nat.Prime 12048837557 := by
    refine h5.prime ?_
    simp only [List.forall_mem_cons]
    exact ⟨by norm_num, by norm_num, by norm_num, by norm_num, by simp⟩
  have prime_5156902474397 : Nat.Prime 5156902474397 := by
    refine h6.prime ?_
    simp only [List.forall_mem_cons]
    exact ⟨by norm_num, by norm_num, prime_12048837557, by simp⟩
  have prime_1670836401704629 : Nat.Prime 1670836401704629 := by
    refine h7.prime ?_
    simp only [List.forall_mem_cons]
    exact ⟨by norm_num, by norm_num, prime_5156902474397, by simp⟩
  have prime_13818364434197438864469338081 : Nat.Prime 13818364434197438864469338081 := by
    refine h8.prime ?_
    simp only [List.forall_mem_cons]
    exact ⟨by norm_num, by norm_num, by norm_num, prime_1593227, prime_65865678001877903, by simp⟩
  refine h9.prime ?_
  simp only [List.forall_mem_cons]
  exact ⟨by norm_num, by norm_num, by norm_num, by norm_num, by norm_num, by norm_num, by norm_num,
    prime_405928799, prime_1670836401704629, prime_13818364434197438864469338081, by simp⟩

instance : Fact (Nat.Prime bn254P) := ⟨prime_bn254P⟩

theorem two_pow_253_lt_bn254P : 2 ^ 253 < bn254P := by
  obtain ⟨-, -, -, -, -, -, -, -, -, h⟩ := lucasTests
  exact h

theorem val_natCast_of_lt {k : ℕ} (hk : k < 2 ^ 253) : ((k : Fr)).val = k :=
  ZMod.val_natCast_of_lt (hk.trans two_pow_253_lt_bn254P)

theorem wide_bn254 : Wide Fr := fun a ha b hb h => by
  rw [← val_natCast_of_lt ha, ← val_natCast_of_lt hb]
  exact congrArg ZMod.val h

end Polyshield

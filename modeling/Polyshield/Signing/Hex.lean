import Mathlib.Data.Nat.Basic
import Mathlib.Tactic

/-!
# Spellings of a nullifier

The HTTP layer accepts a nullifier as any text matching `^0x[0-9a-fA-F]{64}$`
(`HEX32`) and the tables are keyed by that text, while a signature is over the
`bytes32` the text encodes. Event logs are decoded to the lower-case spelling,
and lower-case spellings of one `bytes32` are equal.
-/

namespace Polyshield.Signing

def hexDigit? (c : Char) : Option ℕ :=
  if '0' ≤ c ∧ c ≤ '9' then some (c.toNat - 48)
  else if 'a' ≤ c ∧ c ≤ 'f' then some (c.toNat - 87)
  else if 'A' ≤ c ∧ c ≤ 'F' then some (c.toNat - 55)
  else none

/-- `HEX32`; the digits after `0x`. -/
structure Hex32 where
  digits : List Char
  length : digits.length = 64
  hex : ∀ c ∈ digits, (hexDigit? c).isSome
  deriving DecidableEq

namespace Hex32

def bytes32 (n : Hex32) : ℕ :=
  n.digits.foldl (fun acc c => 16 * acc + (hexDigit? c).getD 0) 0

/-- No digit is in upper case, as `ethers` spells the topics and data of a log. -/
def lowercase (n : Hex32) : Bool :=
  n.digits.all fun c => !(decide ('A' ≤ c) && decide (c ≤ 'F'))

end Hex32

theorem toNat_of_hexDigit? {c : Char} {d : ℕ} (h : hexDigit? c = some d)
    (hl : ¬('A' ≤ c ∧ c ≤ 'F')) :
    c.toNat = d + 48 ∧ d < 10 ∨ c.toNat = d + 87 ∧ 10 ≤ d ∧ d < 16 := by
  unfold hexDigit? at h
  rw [if_neg hl] at h
  split at h
  case isTrue hc =>
    have h0 : 48 ≤ c.toNat := hc.1
    have h9 : c.toNat ≤ 57 := hc.2
    cases h
    omega
  case isFalse =>
    split at h
    case isTrue hc =>
      have ha : 97 ≤ c.toNat := hc.1
      have hf : c.toNat ≤ 102 := hc.2
      cases h
      omega
    case isFalse => cases h

theorem hexDigit?_lower_inj {c c' : Char} {d : ℕ} (h : hexDigit? c = some d)
    (h' : hexDigit? c' = some d) (hl : ¬('A' ≤ c ∧ c ≤ 'F')) (hl' : ¬('A' ≤ c' ∧ c' ≤ 'F')) :
    c = c' := by
  have hc := toNat_of_hexDigit? h hl
  have hc' := toNat_of_hexDigit? h' hl'
  have key : c.toNat = c'.toNat := by omega
  exact Char.ext (UInt32.toNat_inj.mp key)

theorem lower_digits_inj {xs ys : List Char} (hlen : xs.length = ys.length)
    (hx : ∀ c ∈ xs, (hexDigit? c).isSome ∧ ¬('A' ≤ c ∧ c ≤ 'F'))
    (hy : ∀ c ∈ ys, (hexDigit? c).isSome ∧ ¬('A' ≤ c ∧ c ≤ 'F'))
    (hv : xs.foldl (fun acc c => 16 * acc + (hexDigit? c).getD 0) 0
      = ys.foldl (fun acc c => 16 * acc + (hexDigit? c).getD 0) 0) : xs = ys := by
  induction xs using List.reverseRecOn generalizing ys with
  | nil => exact (List.length_eq_zero_iff.mp hlen.symm).symm
  | append_singleton xs c ih =>
    cases ys using List.reverseRecOn with
    | nil => simp at hlen
    | append_singleton ys c' =>
      obtain ⟨hcs, hcl⟩ := hx c (by simp)
      obtain ⟨hcs', hcl'⟩ := hy c' (by simp)
      obtain ⟨d, hd⟩ := Option.isSome_iff_exists.mp hcs
      obtain ⟨d', hd'⟩ := Option.isSome_iff_exists.mp hcs'
      have hd16 : d < 16 := by have := toNat_of_hexDigit? hd hcl; omega
      have hd16' : d' < 16 := by have := toNat_of_hexDigit? hd' hcl'; omega
      simp only [List.foldl_append, List.foldl_cons, List.foldl_nil, hd, hd',
        Option.getD_some] at hv
      obtain rfl : d = d' := by omega
      obtain rfl := hexDigit?_lower_inj hd hd' hcl hcl'
      rw [ih (by simpa using hlen) (fun c hc => hx c (by simp [hc]))
        (fun c hc => hy c (by simp [hc])) (by omega)]

theorem Hex32.not_upper_of_lowercase {n : Hex32} (h : n.lowercase) {c : Char}
    (hc : c ∈ n.digits) : ¬('A' ≤ c ∧ c ≤ 'F') := by
  have hu := List.all_eq_true.mp h c hc
  intro ⟨ha, hf⟩
  simp [ha, hf] at hu

theorem Hex32.lowercase_inj {n m : Hex32} (hn : n.lowercase) (hm : m.lowercase)
    (h : n.bytes32 = m.bytes32) : n = m := by
  have hd : n.digits = m.digits :=
    lower_digits_inj (n.length.trans m.length.symm)
      (fun c hc => ⟨n.hex c hc, not_upper_of_lowercase hn hc⟩)
      (fun c hc => ⟨m.hex c hc, not_upper_of_lowercase hm hc⟩) h
  cases n
  cases m
  cases hd
  rfl

end Polyshield.Signing

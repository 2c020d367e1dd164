import Mathlib.Algebra.Ring.Nat
import Mathlib.Data.List.Basic

/-!
# Texts of ECMAScript

The operations on texts that compare them with ASCII ones.
-/

namespace Polyshield

/-- A letter of `toLowerCase`. Beyond ASCII it maps the two letters with ASCII in their lower case;
the others stay, and no comparison with an ASCII text tells them from theirs. -/
def lowerLetter (c : Char) : List Char :=
  if c.toNat = 0x212A then ['k']
  else if c.toNat = 0x130 then ['i', Char.ofNat 0x307]
  else [c.toLower]

def toLowerCase (text : List Char) : List Char := text.flatMap lowerLetter

/-- `text.includes(pattern)`. -/
def includes (text pattern : List Char) : Bool := text.tails.any fun rest => pattern.isPrefixOf rest

def utf16Length (text : List Char) : ℕ := (text.map fun c => if c.toNat < 65536 then 1 else 2).sum

/-- White space and line terminators of ECMAScript. -/
def isWhiteSpace (c : Char) : Bool :=
  c.toNat ∈ [0x9, 0xA, 0xB, 0xC, 0xD, 0x20, 0xA0, 0x1680, 0x2000, 0x2001, 0x2002, 0x2003, 0x2004,
    0x2005, 0x2006, 0x2007, 0x2008, 0x2009, 0x200A, 0x2028, 0x2029, 0x202F, 0x205F, 0x3000, 0xFEFF]

end Polyshield

/-
ScopeChain.Number.Basic — the numbers of the language.

A number is a binary64 datum, kept as its 64 bits so that every statement
about it is a statement about natural numbers. The sign bit is split off;
the other 63 bits are the MAGNITUDE. Magnitudes are ordered as the values
they stand for: a larger magnitude is a larger absolute value, the one
above all finite ones is infinity, and every magnitude beyond that is a
NaN.

`units` gives the exact value of a finite magnitude in multiples of
2^-1074, the smallest positive number. All arithmetic on numbers in this
library is arithmetic on `units`.
-/

namespace ScopeChain

/-- A number of the language: a binary64 datum, given by its bits. -/
structure Number where
  bits : UInt64
deriving DecidableEq

namespace Number

/-! ## Sign and magnitude -/

/-- The sign bit is set. Zeros and NaNs carry a sign too. -/
def negative (x : Number) : Bool := decide (Nat.pow 2 63 ≤ x.bits.toNat)

/-- The 63 bits below the sign bit. -/
def magnitude (x : Number) : Nat := x.bits.toNat % Nat.pow 2 63

/-- The number with a given sign and magnitude. -/
def ofParts (negative : Bool) (magnitude : Nat) : Number :=
  ⟨UInt64.ofNat ((if negative then Nat.pow 2 63 else 0) + magnitude)⟩

/-- The magnitude of infinity: all exponent bits set, no fraction bit. -/
def infinity : Nat := 2047 * Nat.pow 2 52

/-- A NaN has a magnitude beyond infinity, whatever its sign and payload. -/
def isNaN (x : Number) : Bool := decide (infinity < x.magnitude)

/-- One of the two infinities. -/
def isInfinite (x : Number) : Bool := x.magnitude == infinity

/-! ## The value of a magnitude -/

/-- The significand as an integer: the fraction bits, with the leading bit
that all magnitudes outside the lowest binade leave unwritten. -/
def significand (m : Nat) : Nat :=
  if m < Nat.pow 2 52 then m else Nat.pow 2 52 + m % Nat.pow 2 52

/-- The weight of the significand's last bit, as a power of two in units of
2^-1074. The two lowest binades share the weight 1. -/
def exponent (m : Nat) : Nat := m / Nat.pow 2 52 - 1

/-- The value of a finite magnitude in units of 2^-1074. -/
def units (m : Nat) : Nat := significand m * Nat.pow 2 (exponent m)

/-! ## Equality

Two numbers are equal when they stand for the same extended real. That is
not equality of bits: the zeros are equal to one another, and a NaN equals
nothing, itself included. -/

/-- Equality of the numbers as extended reals. -/
def equals (x y : Number) : Bool :=
  !x.isNaN && !y.isNaN && (x == y || (x.magnitude == 0 && y.magnitude == 0))

end Number

end ScopeChain

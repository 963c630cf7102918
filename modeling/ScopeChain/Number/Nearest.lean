/-
ScopeChain.Number.Nearest — the number nearest to a fraction.

`nearest num den` is the magnitude whose value is nearest to num / den;
halfway between two magnitudes the even one wins, and a fraction too large
for every finite magnitude gives infinity.

The fraction is measured in units of 2^-1074. Its whole part has some
number of binary digits; all but 53 of them are rounded away. Magnitudes
are laid out so that the number of digits dropped and the rounded
remainder add up to the answer: a remainder that rounds up to 2^53 carries
into the next binade without a case of its own.
-/
import ScopeChain.Number.Basic

namespace ScopeChain

namespace Number

/-- The integer nearest to num / den, the even one of two equally near. -/
def roundQuotient (num den : Nat) : Nat :=
  let q := num / den
  let r := num % den
  if 2 * r < den then q
  else if den < 2 * r then q + 1
  else q + q % 2

/-- How many binary digits of the whole part of num / den, counted in units
of 2^-1074, lie beyond the 53 that a significand holds. -/
def excess (num den : Nat) : Nat := Nat.log2 (num * Nat.pow 2 1074 / den) - 52

/-- The magnitude nearest to num / den. -/
def nearest (num den : Nat) : Nat :=
  let drop := excess num den
  min infinity
    (drop * Nat.pow 2 52 + roundQuotient (num * Nat.pow 2 1074) (den * Nat.pow 2 drop))

/-- The number nearest to an integer. Zero is the positive zero. -/
def ofInt (i : Int) : Number := ofParts (decide (i < 0)) (nearest i.natAbs 1)

end Number

end ScopeChain

/-
ScopeChain.Number.Decimal — plain decimals and the shortest one that reads
back as a given magnitude.

A decimal is a natural number of units of 10^-places. Every finite
magnitude is such a decimal exactly, with as many places as its last bit
needs (`exact`).

The SHORTEST decimal of a magnitude is found on grids. The grid of step
10^g holds the decimals whose last g digits are zero, so a coarser grid
has fewer significant digits to write. On each grid only the two points
around the exact value are tried. The coarsest grid with a point that
reads back wins; of two such points the nearer one, and of two equally
near the larger. The search ends because on the finest grid the exact
value is itself a point.
-/
import ScopeChain.Number.Nearest

namespace ScopeChain

/-- The decimal digits / 10^places. -/
structure Decimal where
  digits : Nat
  places : Nat
deriving DecidableEq

namespace Decimal

open Number

/-- The magnitude a decimal reads back as: the nearest one. -/
def magnitude (d : Decimal) : Nat := nearest d.digits (Nat.pow 10 d.places)

/-! ## The exact decimal of a magnitude -/

/-- The value of a finite magnitude as a decimal. One place is spent on each
binary place of its last bit. -/
def exact (m : Nat) : Decimal :=
  let places := 1074 - exponent m
  ⟨significand m * Nat.pow 2 (exponent m - 1074) * Nat.pow 5 places, places⟩

/-! ## The shortest decimal of a magnitude -/

/-- The point of the grid of step 10^g that reads back as m and is nearest
to the decimal d, if one of the two points around d reads back at all. -/
def onGrid? (m : Nat) (d : Decimal) (g : Nat) : Option Decimal :=
  let step := Nat.pow 10 g
  let below : Decimal := { d with digits := d.digits / step * step }
  let above : Decimal := { d with digits := below.digits + step }
  let (nearer, farther) :=
    if d.digits - below.digits < above.digits - d.digits then (below, above) else (above, below)
  if nearer.magnitude = m then some nearer
  else if farther.magnitude = m then some farther
  else none

/-- What is found first at some number when one counts down to 1; `last` if
nothing is found at all. -/
def countDown (find? : Nat → Option Decimal) (last : Decimal) : Nat → Decimal
  | 0 => last
  | g + 1 => match find? (g + 1) with
    | some d => d
    | none => countDown find? last g

/-- The decimal that reads back as m on the coarsest grid of step at most
10^g; d itself when no grid coarser than the finest has one. -/
def coarsest (m : Nat) (d : Decimal) (g : Nat) : Decimal := countDown (onGrid? m d) d g

/-- The shortest decimal that reads back as the finite magnitude m. The
first grid tried has the step of the leading digit of the exact value. -/
def shortest (m : Nat) : Decimal :=
  let d := exact m
  coarsest m d ((Nat.toDigits 10 d.digits).length - 1)

/-! ## Writing a decimal

The whole part is written without leading zeros, the fraction without
trailing ones; a point stands between them only if there is a fraction. -/

/-- The digits of rest / 10^places after the point, up to the last that is
not zero. -/
def fraction : (places rest : Nat) → List Char
  | 0, _ => []
  | p + 1, rest =>
    if rest = 0 then [] else Nat.digitChar (rest / Nat.pow 10 p) :: fraction p (rest % Nat.pow 10 p)

/-- The decimal in positional notation. -/
def chars (d : Decimal) : List Char :=
  let whole := Nat.toDigits 10 (d.digits / Nat.pow 10 d.places)
  match fraction d.places (d.digits % Nat.pow 10 d.places) with
  | [] => whole
  | after => whole ++ '.' :: after

end Decimal

end ScopeChain

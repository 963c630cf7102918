/-
ScopeChain.Number.Text — how a number is written.

A finite number is written as the shortest decimal that reads back as it,
in positional notation whatever its size, after a minus sign if its sign
bit is set; so the negative zero is `-0`. The infinities are `inf` and
`-inf`. A NaN is `NaN`, without a sign.
-/
import ScopeChain.Number.Decimal

namespace ScopeChain

namespace Number

/-- The sign of a number as it is written. -/
def signChars (x : Number) : List Char := if x.negative then ['-'] else []

/-- The characters of a number's text. -/
def chars (x : Number) : List Char :=
  if x.isNaN then ['N', 'a', 'N']
  else if x.isInfinite then x.signChars ++ ['i', 'n', 'f']
  else x.signChars ++ (Decimal.shortest x.magnitude).chars

/-- The text of a number. -/
def text (x : Number) : String := String.ofList x.chars

end Number

end ScopeChain

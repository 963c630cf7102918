/-
ScopeChain.Text.Quoted — text between double quotes.

The quote and the backslash are written after a backslash; tab, carriage
return, line feed and NUL by their letters `\t`, `\r`, `\n`, `\0`. Any
other character that is unprintable or combining is written by its code
point, `\u{…}` in lower-case hexadecimal without leading zeros. All else
stands for itself, the apostrophe included.

An unescaped quote therefore never occurs inside, and the first one after
the opening quote is the closing one.
-/
import ScopeChain.Text.CodePoint

namespace ScopeChain

namespace Quoted

/-- The spelling of one character inside quotes. -/
def escape (c : Char) : List Char :=
  if c = '"' ∨ c = '\\' then ['\\', c]
  else if c = '\t' then ['\\', 't']
  else if c = '\r' then ['\\', 'r']
  else if c = '\n' then ['\\', 'n']
  else if c = '\x00' then ['\\', '0']
  else if CodePoint.isVisible c then [c]
  else '\\' :: 'u' :: '\x7b' :: (Nat.toDigits 16 c.toNat ++ ['\x7d'])

/-- A text between quotes. -/
def chars (s : List Char) : List Char := '"' :: (s.flatMap escape ++ ['"'])

/-- A text between quotes, as a string. -/
def text (s : String) : String := String.ofList (chars s.toList)

end Quoted

end ScopeChain

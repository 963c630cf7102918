/-
ScopeChain.Value.Text — the two texts of a value.

The DISPLAY text is for readers: text stands bare, so it does not tell the
text `nil` from nil. The DEBUG text names the variant and quotes text, so
that different values have different debug texts (up to the payload of a
NaN).
-/
import ScopeChain.Number.Text
import ScopeChain.Text.Quoted
import ScopeChain.Value.Basic

namespace ScopeChain

namespace Value

/-- The display text of a value. -/
def display : Value → String
  | nil => "nil"
  | boolean true => "true"
  | boolean false => "false"
  | number x => x.text
  | text s => s

/-- The characters of a value's debug text. -/
def debugChars : Value → List Char
  | nil => "Nil".toList
  | boolean true => "Boolean(true)".toList
  | boolean false => "Boolean(false)".toList
  | number x => "Number(".toList ++ x.chars ++ [')']
  | text s => "String(".toList ++ Quoted.chars s.toList ++ [')']

/-- The debug text of a value. -/
def debug (v : Value) : String := String.ofList v.debugChars

end Value

end ScopeChain

/-
ScopeChain.Scope.Text — the debug text of a scope.

The text shows the scope's own bindings, in the order of their names, and
whether it has a parent; never the parent itself, so that it does not grow
with the chain.
-/
import ScopeChain.Cell.Text
import ScopeChain.Scope.Basic
import ScopeChain.Value.Text

namespace ScopeChain

namespace Scope

/-- One binding: the quoted name and the value. -/
def bindingChars (b : String × Value) : List Char :=
  Quoted.chars b.1.toList ++ ':' :: ' ' :: b.2.debugChars

/-- Bindings between braces, separated by commas. -/
def bindingsChars (bs : List (String × Value)) : List Char :=
  '\x7b' :: ((bs.map bindingChars).intersperse [',', ' ']).flatten ++ ['\x7d']

/-- The characters of a scope's debug text. -/
def debugChars (s : Scope) : List Char :=
  "Scope \x7b bindings: ".toList ++ bindingsChars s.toList ++ ", has_parent: ".toList
    ++ (if s.isRoot then "false".toList else "true".toList) ++ " \x7d".toList

/-- The debug text of a scope. -/
def debug (s : Scope) : String := String.ofList s.debugChars

end Scope

end ScopeChain

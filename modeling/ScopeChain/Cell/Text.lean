/-
ScopeChain.Cell.Text — the debug text of a handle.

The text of a handle wraps that of the content of its cell. Which cell it
is does not show: handles to cells with equal contents have equal texts.
-/
import ScopeChain.Cell.Store

namespace ScopeChain

namespace Handle

/-- The characters of the text of a handle, given those of the content's text. -/
def debugChars (content : List Char) : List Char :=
  "LocalScope(RefCell \x7b value: ".toList ++ content ++ " \x7d)".toList

/-- The text of a handle, given the text of the content. -/
def debug (content : String) : String := String.ofList (debugChars content.toList)

end Handle

end ScopeChain

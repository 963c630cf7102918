/-
ScopeChain.Value.Basic — the dynamic values that names are bound to.

There are four kinds: nil, booleans, numbers and text. Nil is the value of
whatever was never bound, and it can also be bound on purpose; the two
cases differ for lookups and agree for reads.

`Value.equals` is the language's own equality. It is not the equality of
the type: numbers compare as extended reals (`Number.equals`), so it
identifies the two zeros and is not reflexive at NaN.
-/
import ScopeChain.Number.Basic

namespace ScopeChain

/-- A value of the language. -/
inductive Value where
  | nil
  | boolean (b : Bool)
  | number (x : Number)
  | text (s : String)
deriving DecidableEq

namespace Value

/-- What an unbound name reads as. -/
instance : Inhabited Value := ⟨nil⟩

/-! ## Kinds -/

/-- The name of a value's kind. -/
def kind : Value → String
  | nil => "nil"
  | boolean _ => "boolean"
  | number _ => "number"
  | text _ => "string"

/-- The value is nil. -/
def isNil : Value → Bool
  | nil => true
  | _ => false

/-- The number held by a number value. -/
def number? : Value → Option Number
  | number x => some x
  | _ => none

/-- The text held by a text value. -/
def text? : Value → Option String
  | text s => some s
  | _ => none

/-! ## Truth and equality -/

/-- The value counts as true in a condition: all but nil and false do, zero
and the empty text included. -/
def truthy : Value → Bool
  | nil => false
  | boolean b => b
  | _ => true

/-- The language's equality: same kind, and equal contents. -/
def equals : Value → Value → Bool
  | nil, nil => true
  | boolean a, boolean b => a == b
  | number x, number y => x.equals y
  | text s, text t => s == t
  | _, _ => false

end Value

end ScopeChain

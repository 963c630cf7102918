/-
ScopeChain.Value.Host — values of the embedding program and what they
become in the language.

The host has kinds that the language lacks: a unit, two widths of integer,
and optional values nested to any depth. Integers become the number equal
to them, which always exists because 32 bits fit a significand. Options
leave no trace: an absent one becomes nil, a present one whatever its
content becomes.

The way back is shorter: the host takes every value as it is, except that
it sees nothing where the language has nil.
-/
import ScopeChain.Number.Nearest
import ScopeChain.Value.Basic

namespace ScopeChain

/-- A value of the embedding program. -/
inductive HostValue where
  | unit
  | boolean (b : Bool)
  | float (x : Number)
  | signed (i : Int32)
  | unsigned (n : UInt32)
  | text (s : String)
  | value (v : Value)
  | absent
  | present (content : HostValue)

namespace Value

/-- The value of the language that a host value becomes. -/
def ofHost : HostValue → Value
  | .unit => nil
  | .boolean b => boolean b
  | .float x => number x
  | .signed i => number (Number.ofInt i.toInt)
  | .unsigned n => number (Number.ofInt n.toNat)
  | .text s => text s
  | .value v => v
  | .absent => nil
  | .present content => ofHost content

/-- What the host sees of a value: nothing of nil. -/
def toHost? (v : Value) : Option Value := if v.isNil then none else some v

end Value

end ScopeChain

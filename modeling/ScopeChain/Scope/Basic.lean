/-
ScopeChain.Scope.Basic — a single scope.

A scope is a finite map from names to values and, unless it is a root, a
handle to the scope that encloses it. A name bound to nil is bound. Maps
are ordered by name and equal when they agree on every name, so a scope is
determined by what can be observed of it.
-/
import Std.Data.ExtTreeMap
import ScopeChain.Cell.Store
import ScopeChain.Value.Basic

namespace ScopeChain

/-- The names a scope binds, with their values. -/
abbrev Bindings := Std.ExtTreeMap String Value

/-- Bindings and the scope that encloses them; a root has none. -/
structure Scope where
  bindings : Bindings
  parent : Option Handle
deriving DecidableEq

namespace Scope

/-- A root scope that binds nothing. -/
def empty : Scope := ⟨∅, none⟩

instance : Inhabited Scope := ⟨empty⟩

/-- A scope inside another that binds nothing yet. -/
def inside (parent : Handle) : Scope := ⟨∅, some parent⟩

/-- The scope has no enclosing scope. -/
def isRoot (s : Scope) : Bool := s.parent.isNone

/-- The scope itself binds the name. -/
def binds (s : Scope) (name : String) : Bool := s.bindings.contains name

/-- The value the scope itself binds the name to. -/
def find? (s : Scope) (name : String) : Option Value := s.bindings[name]?

/-- The number of names the scope itself binds. -/
def size (s : Scope) : Nat := s.bindings.size

/-- The bindings in the order of their names. -/
def toList (s : Scope) : List (String × Value) := s.bindings.toList

/-- Binds a name in the scope itself, over any earlier value. -/
def bind (s : Scope) (name : String) (v : Value) : Scope :=
  { s with bindings := s.bindings.insert name v }

/-! ## The view of a scope: what it binds and what encloses it -/

@[simp] theorem parent_bind (s : Scope) (name : String) (v : Value) :
    (s.bind name v).parent = s.parent := rfl

theorem find?_bind (s : Scope) (name : String) (v : Value) (n : String) :
    (s.bind name v).find? n = if n = name then some v else s.find? n := by
  simp [find?, bind, Std.ExtTreeMap.getElem?_insert, eq_comm (a := n)]

theorem binds_eq_isSome (s : Scope) (name : String) : s.binds name = (s.find? name).isSome := by
  simp [binds, find?]

theorem size_bind (s : Scope) (name : String) (v : Value) :
    (s.bind name v).size = if s.binds name then s.size else s.size + 1 :=
  Std.ExtTreeMap.size_insert

/-- Scopes that bind alike under the same parent are the same. -/
theorem ext_find? {s t : Scope} (hp : s.parent = t.parent) (hb : ∀ n, s.find? n = t.find? n) :
    s = t := by
  obtain ⟨b, p⟩ := s
  obtain ⟨c, q⟩ := t
  obtain rfl : p = q := hp
  congr
  exact Std.ExtTreeMap.ext_getElem? hb

end Scope

end ScopeChain

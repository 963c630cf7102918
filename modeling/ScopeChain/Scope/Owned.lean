/-
ScopeChain.Scope.Owned — scopes that are held directly, outside any cell.

An owned scope has a chain like any other: itself, and then the path of
its parent in the heap. Nobody else can see it, so a write that stays in
it changes the scope and leaves the heap alone; a write that goes further
out changes the heap and leaves the scope alone.
-/
import ScopeChain.Scope.Heap

namespace ScopeChain

namespace Scope

/-- The value of a name seen from an owned scope. -/
def lookup (s : Scope) (heap : Heap) (name : String) : Option Value :=
  match s.find? name with
  | some v => some v
  | none => heap.resolve? s.parent name

/-- The cell that a write through an owned scope goes to; none if it stays in
the scope itself. -/
def target? (s : Scope) (heap : Heap) (mode : WriteMode) (name : String) : Option Handle :=
  match mode with
  | .declare => none
  | .assign => if s.binds name then none else s.parent.map (heap.target .assign · name)
  | .global => s.parent.map heap.root

/-- Writes a name through an owned scope. -/
def write (s : Scope) (heap : Heap) (mode : WriteMode) (name : String) (v : Value) :
    Scope × Heap :=
  match s.target? heap mode name with
  | none => (s.bind name v, heap)
  | some t => (s, heap.bindAt t name v)

end Scope

end ScopeChain

/-
ScopeChain.Session.Snapshot — numbering and listing the scopes of a
session.

Cells have no names of their own, so a snapshot numbers them in the order
in which they are first met: along the chains of the handles, in the order
of their names; then from the parents of the owned scopes; then along the
chains of the current and of the global scope of each environment. A walk
stops at the first scope that has a number, since everything further out
then has one too.
-/
import ScopeChain.Session.Basic

namespace ScopeChain

/-- The cells met so far, in order, and the number of each. -/
structure Numbering where
  met : Array Handle
  number : Std.ExtTreeMap Nat Nat

namespace Numbering

/-- No cell met. -/
def empty : Numbering := ⟨#[], ∅⟩

/-- The cell has a number. -/
def knows (n : Numbering) (i : Handle) : Bool := n.number.contains i.index

/-- Gives a cell the next number. -/
def meet (n : Numbering) (i : Handle) : Numbering :=
  let next := n.met.size
  ⟨n.met.push i, n.number.insert i.index next⟩

/-- Meets the cells of a path up to the first that is known. -/
def follow (n : Numbering) (path : List Handle) : Numbering :=
  (path.takeWhile fun i => !n.knows i).foldl meet n

/-- The number of a cell that was met. -/
def get (n : Numbering) (i : Handle) : Nat := n.number[i.index]?.getD 0

/-- A scope with its parent given by number. -/
def describe (n : Numbering) (s : Scope) : SnapshotScope := ⟨s.toList, s.parent.map n.get⟩

end Numbering

namespace Session

/-- Where a snapshot starts to walk, in order. -/
def starts (σ : Session) : List (Option Handle) :=
  σ.handles.values.map some
    ++ σ.owned.values.map Scope.parent
    ++ σ.environments.values.flatMap fun e => [some e.current, some e.global]

/-- The numbers of all cells that can be reached. -/
def numbering (σ : Session) : Numbering :=
  σ.starts.foldl (fun n start => n.follow (σ.arena.heap.path start)) Numbering.empty

/-- Everything that can be reached. -/
def snapshot (σ : Session) : Snapshot :=
  let n := σ.numbering
  { scopes := n.met.toList.map fun i => n.describe (σ.arena.heap.scope i)
    handles := σ.handles.toList.map fun (name, i) => (name, n.get i)
    owned := σ.owned.toList.map fun (name, s) => (name, n.describe s)
    environments := σ.environments.toList.map fun (name, e) =>
      (name, ⟨n.get e.current, n.get e.global, e.depth⟩) }

end Session

end ScopeChain

/-
ScopeChain.Scope.Teardown — what goes when a holder lets go.

A heap of scopes only grows, because nothing that can be asked of it tells
whether a cell nobody reaches is still there. This module keeps the books
that decide it. A HELD heap counts for every cell who holds a handle to it:
holders outside the heap, and scopes whose parent it is. A cell whose last
holder lets go is gone, and lets go of its parent in turn.

That can be done in two ways. `unlink` walks outward: it takes the parent
out of each scope before dropping it, and stops at the first cell that
someone else still holds. `releaseNested` drops the scope as it is, so
that dropping it drops its parent, one call inside the other. Both record
the scopes they drop in the state in which they drop them.
-/
import ScopeChain.Scope.Heap

namespace ScopeChain

/-- A cell in use: its scope, and how many hold a handle to the cell. -/
structure Held where
  scope : Scope
  holders : Nat
deriving DecidableEq

/-- Cells with their counts; nothing where a cell is gone. -/
abbrev HeldHeap := Store (Option Held)

/-- The outcome of letting go: the heap, and the scopes that were dropped on
the way, each as it was when it was dropped. -/
structure Teardown where
  heap : HeldHeap
  dropped : List Scope
deriving DecidableEq

namespace HeldHeap

/-- The cell at `i`, if it is still in use. -/
def live? (heap : HeldHeap) (i : Handle) : Option Held := (heap.read? i).join

/-- The cell at `i` has one holder less. -/
def giveBack (heap : HeldHeap) (i : Handle) : HeldHeap :=
  heap.modify i (Option.map fun c => { c with holders := c.holders - 1 })

/-- The cell at `i` is gone. -/
def destroy (heap : HeldHeap) (i : Handle) : HeldHeap := heap.write i none

/-! ## Letting go of one handle -/

/-- Lets go of a handle by walking outward, over at most `bound` cells. Each
cell without another holder is destroyed after its parent was taken out of
it; the first cell with another holder only loses one. -/
def unlink : (bound : Nat) → HeldHeap → Option Handle → Teardown
  | 0, heap, _ => ⟨heap, []⟩
  | _ + 1, heap, none => ⟨heap, []⟩
  | bound + 1, heap, some i => match live? heap i with
    | none => ⟨heap, []⟩
    | some c =>
      if c.holders = 1 then
        let further := unlink bound (destroy heap i) c.scope.parent
        ⟨further.heap, { c.scope with parent := none } :: further.dropped⟩
      else ⟨giveBack heap i, []⟩

/-- Lets go of a handle by nested drops, over at most `bound` cells. A cell
without another holder first lets go of its parent and is destroyed after
that. -/
def releaseNested : (bound : Nat) → HeldHeap → Option Handle → Teardown
  | 0, heap, _ => ⟨heap, []⟩
  | _ + 1, heap, none => ⟨heap, []⟩
  | bound + 1, heap, some i => match live? heap i with
    | none => ⟨heap, []⟩
    | some c =>
      if c.holders = 1 then
        let inner := releaseNested bound (giveBack heap i) c.scope.parent
        ⟨destroy inner.heap i, inner.dropped ++ [c.scope]⟩
      else ⟨giveBack heap i, []⟩

/-- Lets go of a handle. -/
def letGo (heap : HeldHeap) (i : Handle) : HeldHeap := (unlink heap.size heap (some i)).heap

/-- Drops a scope that was held outside the heap: what it held was its parent. -/
def dropScope (heap : HeldHeap) (s : Scope) : HeldHeap := (unlink heap.size heap s.parent).heap

/-- Lets go of several handles, one after the other. -/
def letGoAll (heap : HeldHeap) (held : List Handle) : HeldHeap := held.foldl letGo heap

/-! ## The books of a heap -/

/-- The scopes of a heap whose parent is the scope at `i`, among those
reached. -/
def childrenOf (heap : Heap) (reached : List Handle) (i : Handle) : List Nat :=
  (List.range heap.size).filter fun j =>
    reached.contains ⟨j⟩ && (Heap.scope heap ⟨j⟩).parent == some i

/-- The books of a heap of which `held` are the handles held outside, one for
each holder. Cells that no holder reaches are gone. -/
def ofHolders (heap : Heap) (held : List Handle) : HeldHeap :=
  let reached := held.flatMap (Heap.chain heap)
  ⟨heap.cells.mapIdx fun k s =>
    if reached.contains ⟨k⟩ then
      some ⟨s, held.count ⟨k⟩ + (childrenOf heap reached ⟨k⟩).length⟩
    else none⟩

end HeldHeap

end ScopeChain

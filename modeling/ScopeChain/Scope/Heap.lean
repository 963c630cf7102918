/-
ScopeChain.Scope.Heap — scopes linked into chains.

A heap is a store of scopes. From a scope one climbs by parent links to
the root of its CHAIN; names are resolved from the inside out along it.

Climbing is bounded by the number of cells. In a heap without cycles that
bound is never felt, because a chain visits no cell twice; it makes every
definition here total without an argument about the heap.

There are three ways to write a name through a scope. They differ only in
the one scope they write to (`target`): the scope itself, the nearest one
that binds the name, or the root.
-/
import ScopeChain.Scope.Basic

namespace ScopeChain

/-- Cells that hold scopes. -/
abbrev Heap := Store Scope

/-- Which scope of a chain a write goes to. -/
inductive WriteMode where
  /-- The innermost scope: a declaration. -/
  | declare
  /-- The nearest scope that binds the name, the root if none does: an assignment. -/
  | assign
  /-- The root, whatever the scopes before it bind. -/
  | global
deriving DecidableEq

namespace Heap

/-- The heap without scopes. -/
def empty : Heap := Store.empty

/-- The scope in a cell. -/
@[inline] def scope (heap : Heap) (i : Handle) : Scope := (heap.read? i).getD Scope.empty

/-- Puts a scope into a new cell. -/
def add (heap : Heap) (s : Scope) : Heap × Handle := heap.alloc s

/-- A new scope inside the one at `i`. -/
def child (heap : Heap) (i : Handle) : Heap × Handle := heap.add (Scope.inside i)

/-! ## Climbing -/

/-- The cells met in at most `bound` steps outward. -/
def climb (heap : Heap) : (bound : Nat) → Option Handle → List Handle
  | 0, _ => []
  | _ + 1, none => []
  | bound + 1, some i => i :: heap.climb bound (heap.scope i).parent

/-- The number of cells met in at most `bound` steps outward, on top of those
already counted. -/
def climbCount (heap : Heap) : (bound : Nat) → Option Handle → (counted : Nat) → Nat
  | 0, _, n => n
  | _ + 1, none, n => n
  | bound + 1, some i, n => heap.climbCount bound (heap.scope i).parent (n + 1)

/-- The first cell met in at most `bound` steps outward whose scope passes a
test. -/
def climbUntil (heap : Heap) (test : Scope → Bool) : (bound : Nat) → Option Handle → Option Handle
  | 0, _ => none
  | _ + 1, none => none
  | bound + 1, some i =>
    if test (heap.scope i) then some i
    else heap.climbUntil test bound (heap.scope i).parent

/-- The cells from a starting point outward to the root. -/
def path (heap : Heap) (start : Option Handle) : List Handle := heap.climb heap.size start

/-- The chain of the scope at `i`: that scope, its parent, and so on. -/
def chain (heap : Heap) (i : Handle) : List Handle := heap.path (some i)

/-- The first cell on a path whose scope passes a test. -/
def firstUp? (heap : Heap) (test : Scope → Bool) (start : Option Handle) : Option Handle :=
  heap.climbUntil test heap.size start

theorem climbCount_eq_length (heap : Heap) (bound : Nat) (start : Option Handle) (n : Nat) :
    heap.climbCount bound start n = n + (heap.climb bound start).length := by
  induction bound generalizing start n with
  | zero => rfl
  | succ bound ih =>
    cases start with
    | none => rfl
    | some i => simp only [climbCount, climb, ih, List.length_cons]; omega

theorem climbUntil_eq_find? (heap : Heap) (test : Scope → Bool) (bound : Nat)
    (start : Option Handle) :
    heap.climbUntil test bound start
      = (heap.climb bound start).find? (fun i => test (heap.scope i)) := by
  induction bound generalizing start with
  | zero => rfl
  | succ bound ih =>
    cases start with
    | none => rfl
    | some i => rw [climbUntil, climb, List.find?_cons]; split <;> simp_all

theorem firstUp?_eq_find? (heap : Heap) (test : Scope → Bool) (start : Option Handle) :
    heap.firstUp? test start = (heap.path start).find? (fun i => test (heap.scope i)) :=
  heap.climbUntil_eq_find? test heap.size start

/-- The root of the chain of the scope at `i`. -/
def root (heap : Heap) (i : Handle) : Handle := (heap.firstUp? Scope.isRoot (some i)).getD i

/-- The number of scopes in the chain of the scope at `i`. -/
def depth (heap : Heap) (i : Handle) : Nat := heap.climbCount heap.size (some i) 0

theorem depth_eq_length_chain (heap : Heap) (i : Handle) :
    heap.depth i = (heap.chain i).length := by
  simp [depth, climbCount_eq_length, chain, path]

/-! ## Resolving names -/

/-- The nearest scope on a path that binds the name. -/
def binder? (heap : Heap) (start : Option Handle) (name : String) : Option Handle :=
  heap.firstUp? (·.binds name) start

/-- The value of a name on a path, innermost binding first. A name bound to
nil is found. -/
def resolve? (heap : Heap) (start : Option Handle) (name : String) : Option Value :=
  (heap.binder? start name).bind fun i => (heap.scope i).find? name

/-- The value of a name seen from the scope at `i`; nothing if no scope of
its chain binds the name. -/
def lookup (heap : Heap) (i : Handle) (name : String) : Option Value :=
  heap.resolve? (some i) name

/-! ## Writing names -/

/-- The scope that a write through the scope at `i` goes to. -/
def target (heap : Heap) (mode : WriteMode) (i : Handle) (name : String) : Handle :=
  match mode with
  | .declare => i
  | .assign => match heap.binder? (some i) name with
    | some t => t
    | none => heap.root i
  | .global => heap.root i

/-- Binds a name in the scope at `i` itself. -/
def bindAt (heap : Heap) (i : Handle) (name : String) (v : Value) : Heap :=
  heap.modify i (·.bind name v)

/-- Writes a name through the scope at `i`. -/
def write (heap : Heap) (mode : WriteMode) (i : Handle) (name : String) (v : Value) : Heap :=
  let t := heap.target mode i name
  heap.bindAt t name v

/-! ## Replacing a scope -/

/-- The cell is met on the way outward from a scope, that scope itself not
counted. -/
def encloses (heap : Heap) (i : Handle) (s : Scope) : Bool := (heap.path s.parent).contains i

/-- Replaces the scope at `i`, for everyone who holds a handle to it. Refused
if `i` encloses the new content, since the chain would then run into
itself. -/
def replace? (heap : Heap) (i : Handle) (s : Scope) : Option Heap :=
  if heap.encloses i s then none else some (Store.write heap i s)

/-! ## What each operation does to the scopes

Binding a name changes one scope in one name and no parent, so every path
is what it was before. -/

@[simp] theorem size_bindAt (heap : Heap) (i : Handle) (name : String) (v : Value) :
    (heap.bindAt i name v).size = heap.size :=
  Store.size_modify heap i _

theorem scope_add (heap : Heap) (s : Scope) (i : Handle) :
    (heap.add s).1.scope i = if i = ⟨heap.size⟩ then s else heap.scope i := by
  unfold scope add
  rw [Store.read?_alloc]
  split <;> rfl

theorem scope_bindAt (heap : Heap) (i : Handle) (name : String) (v : Value) (k : Handle) :
    (heap.bindAt i name v).scope k
      = if k = i ∧ k.index < heap.size then (heap.scope k).bind name v else heap.scope k := by
  unfold scope bindAt
  rw [Store.read?_modify]
  by_cases hk : k = i
  · subst hk
    cases h : heap.read? k with
    | none =>
      have hout := Store.read?_eq_none_iff.1 h
      simp only [if_true, Option.map_none]
      rw [if_neg (by omega)]
    | some s =>
      have hin : k.index < heap.size := by
        refine Nat.lt_of_not_le fun hle => ?_
        rw [Store.read?_eq_none_iff.2 hle] at h
        simp at h
      simp [hin]
  · simp [hk]

@[simp] theorem parent_bindAt (heap : Heap) (i : Handle) (name : String) (v : Value)
    (k : Handle) : ((heap.bindAt i name v).scope k).parent = (heap.scope k).parent := by
  rw [scope_bindAt]
  split <;> simp

/-- Paths hang on parents alone. -/
theorem climb_congr {heap other : Heap} (h : ∀ i, (heap.scope i).parent = (other.scope i).parent)
    (bound : Nat) (start : Option Handle) : heap.climb bound start = other.climb bound start := by
  induction bound generalizing start with
  | zero => rfl
  | succ bound ih =>
    cases start with
    | none => rfl
    | some i => rw [climb, climb, ih, h]

@[simp] theorem path_bindAt (heap : Heap) (i : Handle) (name : String) (v : Value)
    (start : Option Handle) : (heap.bindAt i name v).path start = heap.path start := by
  rw [path, path, size_bindAt]
  exact climb_congr (parent_bindAt heap i name v) _ _

end Heap

end ScopeChain

/-
ScopeChain.Environment.Basic — environments: a base scope and the blocks
opened in it.

An environment is a view into a heap that many environments share. It
holds the handle of its BASE scope and of every BLOCK opened since, each a
child of the one before. The innermost of them is the CURRENT scope, which
all reads and writes go through.

Two things are settled when an environment is made and never asked again:
the handle of the root above its base, and the depth of the base. The
depth of the environment is therefore a sum and not a walk. As long as
nobody replaces a scope in the chain, it is also the depth of the current
scope in the heap.

What an operation changes outside the environment is an ARENA: the heap
and the record of events, oldest first.
-/
import ScopeChain.Environment.Event
import ScopeChain.Environment.Policy
import ScopeChain.Scope.Heap

namespace ScopeChain

/-- The scopes that environments share, and what was reported so far. -/
structure Arena where
  heap : Heap
  events : Array Event

namespace Arena

/-- Nothing allocated, nothing reported. -/
def empty : Arena := ⟨Heap.empty, #[]⟩

/-- Adds an event to the record. -/
def report (a : Arena) (e : Event) : Arena := { a with events := a.events.push e }

/-- The events after the first `n`. -/
def eventsSince (a : Arena) (n : Nat) : List Event := (a.events.extract n a.events.size).toList

/-- Adds a scope to the heap. -/
def add (a : Arena) (s : Scope) : Arena × Handle :=
  let ⟨heap, events⟩ := a
  let (heap, i) := heap.add s
  (⟨heap, events⟩, i)

/-- Writes a name through a scope of the heap. -/
def write (a : Arena) (mode : WriteMode) (i : Handle) (name : String) (v : Value) : Arena :=
  { a with heap := a.heap.write mode i name v }

end Arena

/-- A base scope, the blocks opened in it, and what was settled when it was
made. -/
structure Environment where
  base : Handle
  /-- The open blocks, innermost first. -/
  blocks : List Handle
  /-- The root of the base's chain when the environment was made. -/
  global : Handle
  /-- The depth of the base when the environment was made. -/
  baseDepth : Nat
  policy : Policy
deriving DecidableEq

namespace Environment

/-! ## Where an environment stands -/

/-- The innermost scope: the last block opened, the base if none is open. -/
def current (e : Environment) : Handle := e.blocks.headD e.base

/-- The scopes from the current one down to the base. -/
def frames (e : Environment) : List Handle := e.blocks ++ [e.base]

/-- The handles an environment holds, in the order in which it lets go of
them: its scopes from the base inward, then the global scope. -/
def held (e : Environment) : List Handle := e.frames.reverse ++ [e.global]

/-- The number of scopes from the current one to the root. -/
def depth (e : Environment) : Nat := e.baseDepth + e.blocks.length

/-!
Base and blocks are one stack of scopes that is never empty: it starts with
the base alone, opening a block pushes, closing a block pops, and the base
is never popped. Kept as a list, which might be empty, it would serve the
same: the current scope is the first of the list, whatever an empty list
would fall back on (`headD_frames`); the depth is counted by the length of
the list (`depth_eq_length_frames`); and a block is closed exactly if there
is more than one scope on the list (`closeBlock_frames`).
-/

/-- The current scope is the first of the frames. -/
theorem frames_eq_cons (e : Environment) : ∃ outer, e.frames = e.current :: outer := by
  obtain ⟨base, blocks, global, baseDepth, policy⟩ := e
  cases blocks with
  | nil => exact ⟨[], rfl⟩
  | cons block rest => exact ⟨rest ++ [base], rfl⟩

theorem head?_frames (e : Environment) : e.frames.head? = some e.current := by
  obtain ⟨outer, h⟩ := e.frames_eq_cons
  rw [h, List.head?_cons]

theorem current_mem_frames (e : Environment) : e.current ∈ e.frames :=
  List.mem_of_head? e.head?_frames

theorem headD_frames (e : Environment) (fallback : Handle) :
    e.frames.headD fallback = e.current := by
  rw [List.headD_eq_head?_getD, head?_frames, Option.getD_some]

theorem depth_eq_length_frames (e : Environment) :
    e.depth = e.baseDepth + e.frames.length - 1 := by
  rw [depth, frames, List.length_append, List.length_singleton, ← Nat.add_assoc,
    Nat.add_sub_cancel]

/-! ## Making environments -/

/-- The environment on a scope that is already there, nested or not. No
policy forbids it. -/
def ofScope (heap : Heap) (base : Handle) (policy : Policy) : Environment :=
  { base, blocks := [], global := heap.root base, baseDepth := heap.depth base, policy }

/-- An environment on a new root scope. -/
def create (a : Arena) (policy : Policy) : Environment × Arena :=
  let (a, base) := a.add Scope.empty
  (ofScope a.heap base policy, a)

/-- The environment of a function call: on the global scope, with blocks of
its own and the caller's policy. -/
def child (e : Environment) (heap : Heap) : Environment := ofScope heap e.global e.policy

/-! ## Opening and closing scopes -/

/-- Asks the policy for a chain of `depth` scopes and reports a refusal. -/
def permit (e : Environment) (depth : Nat) (a : Arena) : Except NestingError Unit × Arena :=
  match e.policy.objection? depth with
  | some (.depthExceeded depth limit) =>
    (.error (.depthExceeded depth limit), a.report (.limitReached depth limit))
  | none => (.ok (), a)

/-- Opens a block: a new scope inside the current one. -/
def openBlock (e : Environment) (a : Arena) : Except NestingError Environment × Arena :=
  let depth := e.depth + 1
  match e.permit depth a with
  | (.error err, a) => (.error err, a)
  | (.ok (), a) =>
    let (a, block) := a.add (Scope.inside e.current)
    (.ok { e with blocks := block :: e.blocks }, a.report (.blockOpened depth))

/-- Closes the innermost block and gives back its handle. The base is never
closed. -/
def closeBlock (e : Environment) (a : Arena) : Option Handle × Environment × Arena :=
  match e.blocks with
  | [] => (none, e, a)
  | block :: rest =>
    let e := { e with blocks := rest }
    (some block, e, a.report (.blockClosed e.depth))

/-- Closing a block pops the frames if there is more than one of them, and
does nothing if there is not. -/
theorem closeBlock_frames {e after : Environment} {a arena : Arena} {popped? : Option Handle}
    (h : e.closeBlock a = (popped?, after, arena)) :
    if 1 < e.frames.length then
      popped? = e.frames.head? ∧ after.frames = e.frames.tail ∧
        arena = a.report (.blockClosed after.depth)
    else popped? = none ∧ after = e ∧ arena = a := by
  obtain ⟨base, blocks, global, baseDepth, policy⟩ := e
  cases blocks with
  | nil =>
    cases h
    exact ⟨rfl, rfl, rfl⟩
  | cons block rest =>
    cases h
    have hlen : 1 < (block :: rest ++ [base]).length := by simp
    exact (if_pos hlen).mpr ⟨rfl, rfl, rfl⟩

/-- The environment in which a closure body runs: on a new scope inside the
one the closure captured. What counts for the policy is the depth of the
captured scope, not that of the caller. -/
def enterClosure (e : Environment) (captured : Handle) (a : Arena) :
    Except NestingError Environment × Arena :=
  let baseDepth := a.heap.depth captured + 1
  match e.permit baseDepth a with
  | (.error err, a) => (.error err, a)
  | (.ok (), a) =>
    let global := a.heap.root captured
    let (a, base) := a.add (Scope.inside captured)
    (.ok { base, blocks := [], global, baseDepth, policy := e.policy },
      a.report (.closureEntered baseDepth))

/-! ## Names -/

/-- The value of a name seen from the current scope. -/
def lookup (e : Environment) (heap : Heap) (name : String) : Option Value :=
  heap.lookup e.current name

/-- Writes a name through the current scope. Writing to the root is
reported. -/
def write (e : Environment) (a : Arena) (mode : WriteMode) (name : String) (v : Value) : Arena :=
  let a := if mode = .global then a.report (.globalWritten name) else a
  a.write mode e.current name v

end Environment

end ScopeChain

/-
ScopeChain.Session.Basic — the state of a script while it runs.

A session is an arena and the three tables of names. Steps find what they
name through `withHandle`, `withOwned` and `withEnvironment`, which refuse
the step if the name stands for nothing.
-/
import ScopeChain.Scope.Owned
import ScopeChain.Session.Answer

namespace ScopeChain

/-- A table of names. -/
abbrev Table (α : Type) := Std.ExtTreeMap String α

/-- An arena, what its scopes and environments are called, and how many
events the log has shown. -/
structure Session where
  arena : Arena
  handles : Table Handle
  owned : Table Scope
  environments : Table Environment
  shown : Nat

namespace Session

/-- A session in which nothing has been made. -/
def empty : Session := ⟨Arena.empty, ∅, ∅, ∅, 0⟩

/-- The handles that the tables hold, one for each holder. -/
def held (σ : Session) : List Handle :=
  σ.handles.values ++ σ.owned.values.filterMap Scope.parent
    ++ σ.environments.values.flatMap Environment.held

/-! ## Finding what a name stands for -/

/-- The answer of a step that names something that is not there. -/
def misuse (σ : Session) (m : Misuse) : Session × Answer := (σ, .refused (.misuse m))

/-- Goes on with the handle of that name. -/
@[inline] def withHandle (σ : Session) (name : String) (next : Handle → Session × Answer) :
    Session × Answer :=
  match σ.handles[name]? with
  | some i => next i
  | none => σ.misuse .unknownHandle

/-- Goes on with the owned scope of that name. -/
@[inline] def withOwned (σ : Session) (name : String) (next : Scope → Session × Answer) :
    Session × Answer :=
  match σ.owned[name]? with
  | some s => next s
  | none => σ.misuse .unknownOwned

/-- Goes on with the environment of that name. -/
@[inline] def withEnvironment (σ : Session) (name : String)
    (next : Environment → Session × Answer) : Session × Answer :=
  match σ.environments[name]? with
  | some e => next e
  | none => σ.misuse .unknownEnvironment

/-! ## Storing under a name -/

/-- Stores a handle. -/
def putHandle (σ : Session) (name : String) (i : Handle) : Session :=
  { σ with handles := σ.handles.insert name i }

/-- Stores an owned scope. -/
def putOwned (σ : Session) (name : String) (s : Scope) : Session :=
  { σ with owned := σ.owned.insert name s }

/-- Stores an environment. -/
def putEnvironment (σ : Session) (name : String) (e : Environment) : Session :=
  { σ with environments := σ.environments.insert name e }

/-- Puts a scope into a new cell and stores its handle. -/
def putNew (σ : Session) (name : String) (s : Scope) : Session :=
  let ⟨arena, handles, owned, environments, shown⟩ := σ
  let (arena, i) := arena.add s
  ⟨arena, handles.insert name i, owned, environments, shown⟩

end Session

end ScopeChain

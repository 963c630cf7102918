/-
ScopeChain.Session.Answer — what the steps of a script answer.

Every completed step gives one ENTRY of the log: its answer and, on
request, a snapshot of all tables after the step and the events reported
since the entry before. Blocks and rounds answer with logs of their own.

A step that cannot be done is REFUSED and changes nothing but the record
of events: either it names something that is not there, or a policy
forbids the scope it asks for.
-/
import ScopeChain.Scope.Text
import ScopeChain.Session.Step

namespace ScopeChain

/-- A step that makes no sense where it stands. -/
inductive Misuse where
  | unknownHandle
  | unknownOwned
  | unknownEnvironment
  /-- A scope would come to enclose itself. -/
  | cycle
  /-- The step is of no known kind. -/
  | unknownStep
deriving DecidableEq

/-- The message of a misuse. -/
def Misuse.message : Misuse → String
  | unknownHandle => "unknown handle"
  | unknownOwned => "unknown scope"
  | unknownEnvironment => "unknown environment"
  | cycle => "cycle"
  | unknownStep => "do"

/-- Why a step was not done. -/
inductive Refusal where
  | misuse (m : Misuse)
  | nesting (err : NestingError)
deriving DecidableEq

/-- The description of one scope; the depth is that of its cell, if it is in
one. -/
structure Inspection where
  scope : Scope
  depth : Option Nat
deriving DecidableEq

namespace Inspection

/-- The debug text of the scope, which is given for at most one binding. A
longer one would only repeat the list of bindings. -/
def scopeDebug? (i : Inspection) : Option String :=
  if i.scope.size ≤ 1 then some i.scope.debug else none

/-- The debug text of a handle to the scope, given when that of the scope is. -/
def handleDebug? (i : Inspection) : Option String := i.scopeDebug?.map Handle.debug

end Inspection

/-- A scope in a snapshot: its bindings and the number of its parent. -/
structure SnapshotScope where
  bindings : List (String × Value)
  up : Option Nat
deriving DecidableEq

/-- An environment in a snapshot: the numbers of its scopes, and its depth. -/
structure SnapshotEnvironment where
  current : Nat
  global : Nat
  depth : Nat
deriving DecidableEq

/-- All that can be reached from the tables of a session. Scopes in cells are
numbered in the order in which they are met, and listed in that order;
tables are in the order of names. -/
structure Snapshot where
  scopes : List SnapshotScope
  handles : List (String × Nat)
  owned : List (String × SnapshotScope)
  environments : List (String × SnapshotEnvironment)
deriving DecidableEq

mutual

/-- What a step answers. -/
inductive Answer where
  /-- Done, with nothing to tell. -/
  | done
  /-- A scope was opened. -/
  | opened
  | refused (r : Refusal)
  | flag (b : Bool)
  | count (n : Nat)
  /-- A number that may be missing. -/
  | limit (n : Option Nat)
  | value (v : Value)
  /-- A value that may be missing. -/
  | binding (v : Option Value)
  | inspection (i : Inspection)
  | snapshot (s : Snapshot)
  /-- A block that ran to its end: its log, and the depth of the environment
  before and after it was closed. -/
  | block (log : List Entry) (depth after : Nat)
  /-- A block that caught a panic: the log up to the panic, its message, and the
  depth of the environment after the block was closed. -/
  | caught (log : List Entry) (message : String) (after : Nat)
  /-- The log of the last round. -/
  | rounds (log : List Entry)

/-- A line of the log. -/
inductive Entry where
  | mk (answer : Answer) (state : Option Snapshot) (events : Option (List Event))

end

/-- What a query answers about a name, given the value found for it. -/
def Query.answer (q : Query) (found : Option Value) : Answer :=
  match q with
  | .value => .value (found.getD .nil)
  | .binding => .binding found
  | .member => .binding (found.getD .nil).toHost?

end ScopeChain

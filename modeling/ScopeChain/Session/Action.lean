/-
ScopeChain.Session.Action — what each action does to a session.

Actions are grouped as the script sees them: names, scopes and handles,
environments. Each group only looks up what it needs, calls the operation
of that name on the heap, the owned scope or the environment, and stores
what came of it.
-/
import ScopeChain.Session.Snapshot

namespace ScopeChain

namespace Session

/-! ## Names -/

/-- The value of a name seen through a target, for the step that goes on with
it. -/
@[inline] def withLookup (σ : Session) (t : Target) (name : String)
    (next : Option Value → Session × Answer) : Session × Answer :=
  match t with
  | .place (.shared h) => σ.withHandle h fun i => next (σ.arena.heap.lookup i name)
  | .place (.owned s) => σ.withOwned s fun scope => next (scope.lookup σ.arena.heap name)
  | .environment e => σ.withEnvironment e fun env => next (env.lookup σ.arena.heap name)

/-- The scope that a place names. -/
@[inline] def withScope (σ : Session) (p : Place) (next : Scope → Session × Answer) :
    Session × Answer :=
  match p with
  | .shared h => σ.withHandle h fun i => next (σ.arena.heap.scope i)
  | .owned s => σ.withOwned s next

/-- Asks whether the target's own scope binds a name. -/
def bindsHere (σ : Session) (t : Target) (name : String) : Session × Answer :=
  match t with
  | .place p => σ.withScope p fun s => (σ, .flag (s.binds name))
  | .environment e => σ.withEnvironment e fun env =>
    (σ, .flag ((σ.arena.heap.scope env.current).binds name))

/-- Writes a value through a target. -/
def write (σ : Session) (t : Target) (mode : WriteMode) (name : String) (v : Value) :
    Session × Answer :=
  match t with
  | .place (.shared h) => σ.withHandle h fun i =>
    ({ σ with arena := σ.arena.write mode i name v }, .done)
  | .place (.owned s) => σ.withOwned s fun scope =>
    let ⟨⟨heap, events⟩, handles, owned, environments, shown⟩ := σ
    let (scope, heap) := scope.write heap mode name v
    (⟨⟨heap, events⟩, handles, owned.insert s scope, environments, shown⟩, .done)
  | .environment e => σ.withEnvironment e fun env =>
    ({ σ with arena := env.write σ.arena mode name v }, .done)

/-! ## Scopes and handles -/

/-- Describes one scope. -/
def inspect (σ : Session) (p : Place) : Session × Answer :=
  match p with
  | .shared h => σ.withHandle h fun i =>
    (σ, .inspection ⟨σ.arena.heap.scope i, some (σ.arena.heap.depth i)⟩)
  | .owned s => σ.withOwned s fun scope => (σ, .inspection ⟨scope, none⟩)

/-- Stores the handle of the enclosing scope, if there is one. -/
def takeParent (σ : Session) (p : Place) (name : String) : Session × Answer :=
  σ.withScope p fun s => match s.parent with
    | some i => (σ.putHandle name i, .flag true)
    | none => (σ, .flag false)

/-- Moves an owned scope into a new cell; an empty root stays behind. -/
def wrap (σ : Session) (s name : String) : Session × Answer :=
  σ.withOwned s fun scope => ((σ.putOwned s Scope.empty).putNew name scope, .done)

/-- Moves an owned scope over the one in the cell of `h`; an empty root stays
behind. -/
def store (σ : Session) (s h : String) : Session × Answer :=
  σ.withOwned s fun scope => σ.withHandle h fun i =>
    match σ.arena.heap.replace? i scope with
    | none => σ.misuse .cycle
    | some heap =>
      ({ σ with arena := { σ.arena with heap } }.putOwned s Scope.empty, .done)

/-! ## Environments -/

/-- Makes an environment on a new root scope. -/
def newEnvironment (σ : Session) (policy : Policy) (name : String) : Session :=
  let ⟨arena, handles, owned, environments, shown⟩ := σ
  let (env, arena) := Environment.create arena policy
  ⟨arena, handles, owned, environments.insert name env, shown⟩

/-- Enters a closure from `e` on the scope of `h`. -/
def enterClosure (σ : Session) (e h name : String) : Session × Answer :=
  σ.withEnvironment e fun env => σ.withHandle h fun i =>
    let ⟨arena, handles, owned, environments, shown⟩ := σ
    match env.enterClosure i arena with
    | (.error err, arena) =>
      (⟨arena, handles, owned, environments, shown⟩, .refused (.nesting err))
    | (.ok frame, arena) =>
      (⟨arena, handles, owned, environments.insert name frame, shown⟩, .opened)

/-- Opens a block of `e`. -/
def openBlock (σ : Session) (e : String) : Session × Except Refusal Unit :=
  match σ.environments[e]? with
  | none => (σ, .error (.misuse .unknownEnvironment))
  | some env =>
    let ⟨arena, handles, owned, environments, shown⟩ := σ
    match env.openBlock arena with
    | (.error err, arena) =>
      (⟨arena, handles, owned, environments, shown⟩, .error (.nesting err))
    | (.ok env, arena) =>
      (⟨arena, handles, owned, environments.insert e env, shown⟩, .ok ())

/-- Closes a block of the environment `env` that is stored under `e`. Also
gives the handle of the block and the environment without it. -/
def closeBlock (σ : Session) (e : String) (env : Environment) :
    Option Handle × Environment × Session :=
  let ⟨arena, handles, owned, environments, shown⟩ := σ
  let (block, env, arena) := env.closeBlock arena
  (block, env, ⟨arena, handles, owned, environments.insert e env, shown⟩)

end Session

/-! ## All actions -/

/-- Does one action. -/
def Action.run (a : Action) (σ : Session) : Session × Answer :=
  match a with
  | read t query name => σ.withLookup t name fun found => (σ, query.answer found)
  | bindsHere t name => σ.bindsHere t name
  | write t mode name v => σ.write t mode name v
  | writeMember t name v => σ.write t .assign name (Value.ofHost v)
  | inspect p => σ.inspect p
  | snapshot => (σ, .snapshot σ.snapshot)
  | newScope name => (σ.putNew name Scope.empty, .done)
  | share h name => σ.withHandle h fun i => (σ.putHandle name i, .done)
  | newChild h name => σ.withHandle h fun i => (σ.putNew name (Scope.inside i), .done)
  | takeRoot h name => σ.withHandle h fun i => (σ.putHandle name (σ.arena.heap.root i), .done)
  | takeParent p name => σ.takeParent p name
  | chainDepth h => σ.withHandle h fun i => (σ, .count (σ.arena.heap.depth i))
  | sameScope a b => σ.withHandle a fun i => σ.withHandle b fun j => (σ, .flag (i == j))
  | dropHandle h => ({ σ with handles := σ.handles.erase h }, .flag (σ.handles.contains h))
  | newOwned name => (σ.putOwned name Scope.empty, .done)
  | newOwnedInside h name => σ.withHandle h fun i => (σ.putOwned name (Scope.inside i), .done)
  | copyScope p name => σ.withScope p fun s => (σ.putOwned name s, .done)
  | wrap s name => σ.wrap s name
  | store s h => σ.store s h
  | newEnvironment limits name => (σ.newEnvironment limits name, .done)
  | newEnvironmentOver h limits name => σ.withHandle h fun i =>
    (σ.putEnvironment name (Environment.ofScope σ.arena.heap i limits), .done)
  | callFrom e name => σ.withEnvironment e fun env =>
    (σ.putEnvironment name (env.child σ.arena.heap), .done)
  | enterClosure e h name => σ.enterClosure e h name
  | openBlock e => match σ.openBlock e with
    | (σ, .ok ()) => (σ, .opened)
    | (σ, .error r) => (σ, .refused r)
  | closeBlock e name => σ.withEnvironment e fun env => match σ.closeBlock e env with
    | (some i, _, σ) => (match name with | some n => σ.putHandle n i | none => σ, .flag true)
    | (none, _, σ) => (σ, .flag false)
  | depth e => σ.withEnvironment e fun env => (σ, .count env.depth)
  | policy e => σ.withEnvironment e fun env => (σ, .limit env.policy.maxDepth)
  | takeGlobal e name => σ.withEnvironment e fun env => (σ.putHandle name env.global, .done)
  | takeCurrent e name => σ.withEnvironment e fun env => (σ.putHandle name env.current, .done)
  | dropEnvironment e =>
    ({ σ with environments := σ.environments.erase e }, .flag (σ.environments.contains e))
  | rest => (σ, .done)
  | unknown => σ.misuse .unknownStep

end ScopeChain

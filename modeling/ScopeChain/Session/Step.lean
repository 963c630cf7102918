/-
ScopeChain.Session.Step — scripts that exercise scopes and environments.

A script works on three tables of names: handles, owned scopes and
environments. Its steps are ACTIONS, each done at once, and three forms
that hold the script together: blocks, which run their body in a block
scope of an environment; rounds, which repeat their body; and panics,
which abandon everything up to a block that catches them.

Wherever a step makes something, it stores it under a name and forgets
what the name stood for.
-/
import ScopeChain.Environment.Basic
import ScopeChain.Value.Host

namespace ScopeChain

/-- Names a single scope. -/
inductive Place where
  /-- The scope in the cell that a handle denotes. -/
  | shared (handle : String)
  /-- An owned scope. -/
  | owned (name : String)

/-- Names something through which names can be read and written. -/
inductive Target where
  | place (p : Place)
  /-- An environment stands for its current scope. -/
  | environment (name : String)

/-- What is asked about a name. -/
inductive Query where
  /-- Its value, nil if nothing binds it. -/
  | value
  /-- Its value, if anything binds it. -/
  | binding
  /-- Its value as the host sees it. -/
  | member
deriving DecidableEq

/-- A step that is done at once. -/
inductive Action where
  /-- Asks about a name. -/
  | read (t : Target) (query : Query) (name : String)
  /-- Asks whether the target's own scope binds a name. -/
  | bindsHere (t : Target) (name : String)
  /-- Writes a value. -/
  | write (t : Target) (mode : WriteMode) (name : String) (v : Value)
  /-- Assigns a host value. -/
  | writeMember (t : Target) (name : String) (v : HostValue)
  /-- Describes one scope. -/
  | inspect (p : Place)
  /-- Describes everything. -/
  | snapshot
  /-- A new root scope. -/
  | newScope (name : String)
  /-- Another name for the handle `h`. -/
  | share (h name : String)
  /-- A new scope inside that of `h`. -/
  | newChild (h name : String)
  /-- The root above `h`. -/
  | takeRoot (h name : String)
  /-- The enclosing scope, if there is one. -/
  | takeParent (p : Place) (name : String)
  /-- The length of the chain of `h`. -/
  | chainDepth (h : String)
  /-- Whether two handles denote one scope. -/
  | sameScope (a b : String)
  /-- Forgets a handle. -/
  | dropHandle (h : String)
  /-- An owned root scope. -/
  | newOwned (name : String)
  /-- An owned scope inside that of `h`. -/
  | newOwnedInside (h name : String)
  /-- An owned copy of a scope, inside the same parent. -/
  | copyScope (p : Place) (name : String)
  /-- Moves an owned scope into a new cell. -/
  | wrap (s name : String)
  /-- Moves an owned scope into the cell of `h`, over what it holds. -/
  | store (s h : String)
  /-- An environment on a new root scope. -/
  | newEnvironment (policy : Policy) (name : String)
  /-- An environment on the scope of `h`. -/
  | newEnvironmentOver (h : String) (policy : Policy) (name : String)
  /-- The environment of a function call from `e`. -/
  | callFrom (e name : String)
  /-- The environment of a closure that captured the scope of `h`. -/
  | enterClosure (e h name : String)
  /-- Opens a block. -/
  | openBlock (e : String)
  /-- Closes a block, and keeps its handle if a name is given. -/
  | closeBlock (e : String) (name : Option String)
  /-- The depth of an environment. -/
  | depth (e : String)
  /-- The policy of an environment. -/
  | policy (e : String)
  /-- The global scope of an environment. -/
  | takeGlobal (e name : String)
  /-- The current scope of an environment, as a closure captures it. -/
  | takeCurrent (e name : String)
  /-- Forgets an environment. -/
  | dropEnvironment (e : String)
  /-- Does nothing. -/
  | rest
  /-- A step of no known kind. -/
  | unknown

/-- A step of a script. -/
inductive Step where
  | act (a : Action)
  /-- Opens a block of `e`, runs the body and closes a block of `e`; `catches`
  tells whether a panic of the body ends here. -/
  | block (e : String) (catches : Bool) (body : List Step)
  /-- Runs the body `n` times. -/
  | rounds (n : Nat) (body : List Step)
  /-- Abandons the script up to a block that catches. -/
  | panic (message : String)

end ScopeChain

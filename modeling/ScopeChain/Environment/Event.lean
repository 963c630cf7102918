/-
ScopeChain.Environment.Event — what environments report while they run.

An event is reported when a scope is opened or closed, when a closure is
entered, when a policy refuses, and when an environment writes to its root
on request. Reads and ordinary writes are silent.
-/

namespace ScopeChain

/-- How much an event matters. -/
inductive Level where
  | debug
  | trace
deriving DecidableEq

/-- The name of a level. -/
def Level.name : Level → String
  | debug => "DEBUG"
  | trace => "TRACE"

/-- Something an environment reports. -/
inductive Event where
  /-- A block was opened; `depth` counts it. -/
  | blockOpened (depth : Nat)
  /-- A block was closed; `depth` no longer counts it. -/
  | blockClosed (depth : Nat)
  /-- A name was written straight to the root. -/
  | globalWritten (name : String)
  /-- A closure was entered; `depth` is that of its frame. -/
  | closureEntered (depth : Nat)
  /-- A scope was refused: the chain would have had `depth` scopes. -/
  | limitReached (depth limit : Nat)
deriving DecidableEq

namespace Event

/-- The level an event is reported at: refusals stand out. -/
def level : Event → Level
  | limitReached _ _ => .debug
  | _ => .trace

/-- The message of an event, without its data. -/
def message : Event → String
  | blockOpened _ => "push scope"
  | blockClosed _ => "pop scope"
  | globalWritten _ => "set global"
  | closureEntered _ => "enter closure frame"
  | limitReached _ _ => "scope depth limit reached"

end Event

end ScopeChain

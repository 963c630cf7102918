/-
ScopeChain.Session.Run — running scripts.

A list of steps runs from left to right until it is done or a step panics.
A panic leaves the rest of its list undone and passes outward through
rounds and blocks. Whichever way a block is left, one block of its
environment is closed on the way out, so the scope opened for the body is
gone again unless the body itself closed or opened others. Only then does
a block that catches turn the panic into an answer.

The block is closed on the environment that the name stands for at that
moment, which need not be the one the body started with.
-/
import ScopeChain.Session.Action

namespace ScopeChain

/-- What the entries of a log show besides the answers. -/
structure Detail where
  /-- A snapshot after every step. -/
  watch : Bool
  /-- The events since the entry before. -/
  trace : Bool

/-- How far a list of steps got: the entries of the completed steps, and the
message of the panic that ended it, if any. -/
structure Stretch where
  session : Session
  log : List Entry
  panic : Option String

/-- How a step ended. -/
inductive Outcome where
  | answered (a : Answer)
  | panicked (message : String)

/-- The outcome of rounds whose last one got this far. -/
def Stretch.ofRounds (s : Stretch) : Session × Outcome :=
  match s.panic with
  | none => (s.session, .answered (.rounds s.log))
  | some message => (s.session, .panicked message)

namespace Session

/-- Writes the entry of a completed step. -/
def enter (σ : Session) (detail : Detail) (a : Answer) : Session × Entry :=
  let state := if detail.watch then some σ.snapshot else none
  let events := if detail.trace then some (σ.arena.eventsSince σ.shown) else none
  ({ σ with shown := σ.arena.events.size }, .mk a state events)

/-- Closes the block of `e` after its body was run. -/
def leaveBlock (e : String) (catches : Bool) (body : Stretch) : Session × Outcome :=
  let ⟨σ, log, panic⟩ := body
  let (σ, answer) := match σ.environments[e]? with
    | none => σ.misuse .unknownEnvironment
    | some env =>
      let (_, left, σ) := σ.closeBlock e env
      (σ, match panic with
        | none => .block log env.depth left.depth
        | some message => .caught log message left.depth)
  match panic with
  | none => (σ, .answered answer)
  | some message => if catches then (σ, .answered answer) else (σ, .panicked message)

/-- Runs a body again and again; the log is that of the last round. -/
def repeatBody (body : Session → Stretch) : (n : Nat) → Session → (last : List Entry) → Stretch
  | 0, σ, last => ⟨σ, last, none⟩
  | n + 1, σ, _ => match body σ with
    | ⟨σ, log, none⟩ => repeatBody body n σ log
    | ⟨σ, _, some message⟩ => ⟨σ, [], some message⟩

end Session

mutual

/-- Runs one step. -/
def Step.run (detail : Detail) : Step → Session → Session × Outcome
  | .act a, σ =>
    let (σ, answer) := a.run σ
    (σ, .answered answer)
  | .block e catches body, σ => match σ.openBlock e with
    | (σ, .error r) => (σ, .answered (.refused r))
    | (σ, .ok ()) => Session.leaveBlock e catches (Step.runAll detail body σ)
  | .rounds n body, σ => (Session.repeatBody (Step.runAll detail body) n σ []).ofRounds
  | .panic message, σ => (σ, .panicked message)

/-- Runs a list of steps. -/
def Step.runAll (detail : Detail) : List Step → Session → Stretch
  | [], σ => ⟨σ, [], none⟩
  | s :: rest, σ => match Step.run detail s σ with
    | (σ, .panicked message) => ⟨σ, [], some message⟩
    | (σ, .answered a) =>
      let (σ, entry) := σ.enter detail a
      let ⟨σ, log, ended⟩ := Step.runAll detail rest σ
      ⟨σ, entry :: log, ended⟩

end

/-- What a whole script gives: the log, and for a panic that nothing caught
its message and a last snapshot. -/
structure Transcript where
  log : List Entry
  panic : Option (String × Snapshot)

/-- Runs a script from an empty session. -/
def Transcript.ofScript (detail : Detail) (script : List Step) : Transcript :=
  let ⟨σ, log, panic⟩ := Step.runAll detail script Session.empty
  ⟨log, panic.map fun message => (message, σ.snapshot)⟩

end ScopeChain

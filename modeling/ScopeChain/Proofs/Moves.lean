/-
ScopeChain.Proofs.Moves — runs, one move at a time.

A script is structured: blocks and rounds hold lists of steps, a panic
leaves some of them undone, guards act on the way out. What happens to the
session is not. `Step.moves` lists it flat, as MOVES: the actions that are
really done, in order, the opening and closing of guarded blocks among
them, and a mark for each entry of the log. `Step.runAll_session` says
that nothing else happens.

So whatever every action preserves holds at every point of every run,
inside blocks, between the rounds and during an unwinding too: a point is
a prefix of the moves (`Session.after_induction`). Most properties are
preserved by some actions only. `Session.allActs` says that moves do no
others; `Step.only` says it of a script, and `Step.movesAll_only` that
then its moves do not either, as long as guards are among those permitted.
-/
import ScopeChain.Session.Run

namespace ScopeChain

/-! ## 1. Moves -/

/-- What happens to a session at once. -/
inductive Move where
  /-- An action is done, by a step or by a guard. -/
  | act (a : Action)
  /-- The log takes note of the events so far. -/
  | mark

/-- The session in which the log has shown all events. -/
def Session.marked (σ : Session) : Session := { σ with shown := σ.arena.events.size }

/-- What a move does. -/
def Move.run : Move → Session → Session
  | .act a, σ => (a.run σ).1
  | .mark, σ => σ.marked

/-- The session after some moves. -/
def Session.after (σ : Session) (ms : List Move) : Session := ms.foldl (fun σ m => m.run σ) σ

/-- The moves of rounds, up to the first that panics. -/
def Session.repeatMoves (body : Session → Stretch) (moves : Session → List Move) :
    (n : Nat) → Session → List Move
  | 0, _ => []
  | n + 1, σ => moves σ ++ match body σ with
    | ⟨τ, _, none⟩ => repeatMoves body moves n τ
    | ⟨_, _, some _⟩ => []

mutual

/-- The moves of one step. A guarded block is opened and closed by the
actions of these names. -/
def Step.moves (detail : Detail) : Step → Session → List Move
  | .act a, _ => [.act a]
  | .block e _ body, σ => .act (.openBlock e) :: match σ.openBlock e with
    | (_, .error _) => []
    | (τ, .ok ()) => Step.movesAll detail body τ ++ [.act (.closeBlock e none)]
  | .rounds n body, σ =>
    Session.repeatMoves (Step.runAll detail body) (Step.movesAll detail body) n σ
  | .panic _, _ => []

/-- The moves of a list of steps. -/
def Step.movesAll (detail : Detail) : List Step → Session → List Move
  | [], _ => []
  | s :: rest, σ => Step.moves detail s σ ++ match Step.run detail s σ with
    | (_, .panicked _) => []
    | (τ, .answered _) => .mark :: Step.movesAll detail rest τ.marked

end

namespace Session

variable (σ : Session)

theorem after_cons (m : Move) (ms : List Move) :
    σ.after (m :: ms) = (m.run σ).after ms := rfl

theorem after_append (ms ns : List Move) : σ.after (ms ++ ns) = (σ.after ms).after ns :=
  List.foldl_append

/-! ## 2. A run is its moves -/

theorem run_openBlock (e : String) : ((Action.openBlock e).run σ).1 = (σ.openBlock e).1 := by
  rw [Action.run]
  rcases σ.openBlock e with ⟨τ, _ | _⟩ <;> rfl

theorem run_closeBlock_none (e : String) :
    ((Action.closeBlock e none).run σ).1 = match σ.environments[e]? with
      | some env => (σ.closeBlock e env).2.2
      | none => σ := by
  rw [Action.run, withEnvironment]
  cases σ.environments[e]? with
  | none => rfl
  | some env =>
    dsimp only
    rcases σ.closeBlock e env with ⟨_ | _, _, τ⟩ <;> rfl

/-- A guard closes its block the way an action does, whether or not the body
panicked and whether or not the guard catches. -/
theorem leaveBlock_session (e : String) (catches : Bool) (body : Stretch) :
    (leaveBlock e catches body).1 = ((Action.closeBlock e none).run body.session).1 := by
  obtain ⟨τ, log, panic⟩ := body
  rw [run_closeBlock_none, leaveBlock]
  cases hτ : τ.environments[e]? with
  | none => cases panic <;> cases catches <;> rfl
  | some env => cases panic <;> cases catches <;> rfl

theorem repeatBody_session {body : Session → Stretch} {moves : Session → List Move}
    (hbody : ∀ σ, (body σ).session = σ.after (moves σ)) (n : Nat) (last : List Entry) :
    (repeatBody body n σ last).session = σ.after (repeatMoves body moves n σ) := by
  induction n generalizing σ last with
  | zero => rfl
  | succ n ih =>
    rw [repeatBody, repeatMoves, after_append, ← hbody]
    rcases body σ with ⟨τ, log, _ | message⟩
    · exact ih τ log
    · rfl

theorem ofRounds_session (s : Stretch) : s.ofRounds.1 = s.session := by
  obtain ⟨τ, log, _ | message⟩ := s <;> rfl

end Session

mutual

theorem Step.run_session (detail : Detail) : ∀ (s : Step) (σ : Session),
    (Step.run detail s σ).1 = σ.after (Step.moves detail s σ)
  | .act _, _ => rfl
  | .block e catches body, σ => by
    rw [Step.run, Step.moves, Session.after_cons, Move.run, Session.run_openBlock]
    rcases σ.openBlock e with ⟨τ, r | ⟨⟩⟩
    · rfl
    · simp only [Session.after_append]
      rw [Session.leaveBlock_session, Step.runAll_session detail body τ]
      rfl
  | .rounds n body, σ => by
    rw [Step.run, Step.moves, Session.ofRounds_session]
    exact Session.repeatBody_session σ (Step.runAll_session detail body) n []
  | .panic _, _ => rfl

/-- **A run is its moves.** The session at the end of a list of steps,
reached or cut short by a panic, is the one after its moves. -/
theorem Step.runAll_session (detail : Detail) : ∀ (script : List Step) (σ : Session),
    (Step.runAll detail script σ).session = σ.after (Step.movesAll detail script σ)
  | [], _ => rfl
  | s :: rest, σ => by
    have hs := Step.run_session detail s σ
    rw [Step.runAll, Step.movesAll, Session.after_append, ← hs]
    rcases Step.run detail s σ with ⟨τ, a | message⟩
    · exact Step.runAll_session detail rest τ.marked
    · rfl

end

/-- The message of a panic. -/
def Outcome.panic? : Outcome → Option String
  | .answered _ => none
  | .panicked message => some message

theorem Stretch.panic?_ofRounds (s : Stretch) : s.ofRounds.2.panic? = s.panic := by
  obtain ⟨σ, log, _ | message⟩ := s <;> rfl

theorem Session.panic?_leaveBlock (e : String) (catches : Bool) (body : Stretch) :
    (leaveBlock e catches body).2.panic? = if catches then none else body.panic := by
  obtain ⟨σ, log, panic⟩ := body
  unfold leaveBlock
  cases hσ : σ.environments[e]? <;> cases panic <;> cases catches <;> simp [hσ, Outcome.panic?]

/-! ## 3. Scripts that use some actions only -/

mutual

/-- The step does no action but those that pass a test. Guards are not
asked. -/
def Step.only (p : Action → Bool) : Step → Bool
  | .act a => p a
  | .block _ _ body => Step.onlyAll p body
  | .rounds _ body => Step.onlyAll p body
  | .panic _ => true

/-- No step of the list does an action but those that pass a test. -/
def Step.onlyAll (p : Action → Bool) : List Step → Bool
  | [] => true
  | s :: rest => Step.only p s && Step.onlyAll p rest

end

mutual

theorem Step.only_mono {p q : Action → Bool} (h : ∀ a, p a → q a) :
    ∀ s : Step, s.only p → s.only q
  | .act a, hs => h a hs
  | .block _ _ body, hs => Step.onlyAll_mono h body hs
  | .rounds _ body, hs => Step.onlyAll_mono h body hs
  | .panic _, _ => rfl

theorem Step.onlyAll_mono {p q : Action → Bool} (h : ∀ a, p a → q a) :
    ∀ script : List Step, Step.onlyAll p script → Step.onlyAll q script
  | [], _ => rfl
  | s :: rest, hs => by
    rw [Step.onlyAll, Bool.and_eq_true] at hs ⊢
    exact ⟨Step.only_mono h s hs.1, Step.onlyAll_mono h rest hs.2⟩

end

/-- The move is a mark or an action that passes a test. -/
def Move.only (p : Action → Bool) : Move → Bool
  | .act a => p a
  | .mark => true

theorem Session.repeatMoves_only {p : Action → Bool} {body : Session → Stretch}
    {moves : Session → List Move} (hmoves : ∀ σ, ∀ m ∈ moves σ, m.only p) (n : Nat)
    (σ : Session) : ∀ m ∈ Session.repeatMoves body moves n σ, m.only p := by
  induction n generalizing σ with
  | zero => intro m hm; cases hm
  | succ n ih =>
    intro m hm
    rw [Session.repeatMoves] at hm
    rcases List.mem_append.mp hm with hm | hm
    · exact hmoves σ m hm
    · generalize body σ = done at hm
      obtain ⟨τ, log, _ | message⟩ := done
      · exact ih τ m hm
      · cases hm

mutual

theorem Step.moves_only {p : Action → Bool} (hopen : ∀ e, p (.openBlock e))
    (hclose : ∀ e, p (.closeBlock e none)) (detail : Detail) : ∀ (s : Step) (σ : Session),
    s.only p → ∀ m ∈ Step.moves detail s σ, m.only p
  | .act a, _, hs, m, hm => by
    rw [Step.moves, List.mem_singleton] at hm
    rw [hm]
    exact hs
  | .block e catches body, σ, hs, m, hm => by
    rw [Step.moves] at hm
    rcases List.mem_cons.mp hm with rfl | hm
    · exact hopen e
    · generalize σ.openBlock e = opened at hm
      obtain ⟨τ, r | ⟨⟩⟩ := opened
      · cases hm
      · rcases List.mem_append.mp hm with hm | hm
        · exact Step.movesAll_only hopen hclose detail body τ hs m hm
        · rw [List.mem_singleton] at hm
          rw [hm]
          exact hclose e
  | .rounds n body, σ, hs, m, hm =>
    Session.repeatMoves_only (fun τ => Step.movesAll_only hopen hclose detail body τ hs) n σ m hm
  | .panic _, _, _, _, hm => by cases hm

/-- A script that does permitted actions only, guards being permitted, makes
no other moves. -/
theorem Step.movesAll_only {p : Action → Bool} (hopen : ∀ e, p (.openBlock e))
    (hclose : ∀ e, p (.closeBlock e none)) (detail : Detail) :
    ∀ (script : List Step) (σ : Session), Step.onlyAll p script →
    ∀ m ∈ Step.movesAll detail script σ, m.only p
  | [], _, _, _, hm => by cases hm
  | s :: rest, σ, hs, m, hm => by
    rw [Step.onlyAll, Bool.and_eq_true] at hs
    rw [Step.movesAll] at hm
    rcases List.mem_append.mp hm with hm | hm
    · exact Step.moves_only hopen hclose detail s σ hs.1 m hm
    · generalize Step.run detail s σ = done at hm
      obtain ⟨τ, a | message⟩ := done
      · rcases List.mem_cons.mp hm with rfl | hm
        · rfl
        · exact Step.movesAll_only hopen hclose detail rest τ.marked hs.2 m hm
      · cases hm

end

/-! ## 4. What holds at every point of a run -/

namespace Session

/-- Every action among the moves passes a test in the session it is done
in. -/
def allActs (p : Action → Session → Bool) : Session → List Move → Bool
  | _, [] => true
  | σ, .act a :: ms => p a σ && (a.run σ).1.allActs p ms
  | σ, .mark :: ms => σ.marked.allActs p ms

theorem allActs_act {p : Action → Session → Bool} {σ : Session} {a : Action} {ms : List Move} :
    σ.allActs p (.act a :: ms) ↔ p a σ ∧ (a.run σ).1.allActs p ms := by
  rw [allActs, Bool.and_eq_true]

theorem allActs_append {p : Action → Session → Bool} {σ : Session} {ms ns : List Move} :
    σ.allActs p (ms ++ ns) ↔ σ.allActs p ms ∧ (σ.after ms).allActs p ns := by
  induction ms generalizing σ with
  | nil => exact (and_iff_right rfl).symm
  | cons m ms ih =>
    cases m with
    | act a => rw [List.cons_append, allActs_act, allActs_act, ih, and_assoc]; rfl
    | mark => exact ih

theorem allActs_mono {p q : Action → Session → Bool} (h : ∀ a σ, p a σ → q a σ) {σ : Session}
    {ms : List Move} (hms : σ.allActs p ms) : σ.allActs q ms := by
  induction ms generalizing σ with
  | nil => rfl
  | cons m ms ih =>
    cases m with
    | act a =>
      obtain ⟨ha, hrest⟩ := allActs_act.mp hms
      exact allActs_act.mpr ⟨h a σ ha, ih hrest⟩
    | mark => exact ih (σ := σ.marked) hms

/-- A test that does not look at the session can be made on the moves. -/
theorem allActs_of_only {p : Action → Bool} {ms : List Move} (hms : ∀ m ∈ ms, m.only p)
    (σ : Session) : σ.allActs (fun a _ => p a) ms := by
  induction ms generalizing σ with
  | nil => rfl
  | cons m ms ih =>
    have hrest := ih fun k hk => hms k (List.mem_cons_of_mem _ hk)
    cases m with
    | act a => exact allActs_act.mpr ⟨hms _ List.mem_cons_self, hrest _⟩
    | mark => exact hrest _

/-- What permitted actions preserve, and the marks of the log too, holds
after any moves of that kind. -/
theorem after_induction {p : Action → Session → Bool} {P : Session → Prop}
    (hact : ∀ σ a, p a σ → P σ → P (a.run σ).1) (hmark : ∀ σ, P σ → P σ.marked)
    {ms : List Move} {σ : Session} (hms : σ.allActs p ms) (h : P σ) : P (σ.after ms) := by
  induction ms generalizing σ with
  | nil => exact h
  | cons m ms ih =>
    cases m with
    | act a =>
      obtain ⟨ha, hrest⟩ := allActs_act.mp hms
      exact ih hrest (hact σ a ha h)
    | mark => exact ih hms (hmark σ h)

end Session

/-! ## 5. What a run shows -/

/-- An action that was done, its answer, and what the names of handles and
environments stand for after it. -/
structure Reply where
  action : Action
  answer : Answer
  handles : Table Handle
  environments : Table Environment

/-- The reply of a session to an action. -/
def Session.reply (σ : Session) (a : Action) : Reply :=
  ⟨a, (a.run σ).2, (a.run σ).1.handles, (a.run σ).1.environments⟩

/-- The replies to all actions among the moves. -/
def Session.replies : Session → List Move → List Reply
  | _, [] => []
  | σ, .act a :: ms => σ.reply a :: (a.run σ).1.replies ms
  | σ, .mark :: ms => σ.marked.replies ms

theorem Session.replies_append (σ : Session) (ms ns : List Move) :
    σ.replies (ms ++ ns) = σ.replies ms ++ (σ.after ms).replies ns := by
  induction ms generalizing σ with
  | nil => rfl
  | cons m ms ih =>
    cases m with
    | act a => exact congrArg (σ.reply a :: ·) (ih (a.run σ).1)
    | mark => exact ih σ.marked

end ScopeChain

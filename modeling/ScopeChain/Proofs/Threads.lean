/-
ScopeChain.Proofs.Threads — scripts that take turns.

`Step.runAll` runs a script from beginning to end. To let several scripts
share a session, each has to be able to stop after any move and go on
later. A THREAD is a script that has got so far: the tasks that are left,
innermost first, and whether a panic is on its way through them. In one
turn a thread makes at most one move. What it does next depends on nothing
but its tasks and the answers it has got itself; a guarded block, for
instance, is entered if the answer was that it is open.

A thread that has the session for itself does what the script does: the
same actions with the same answers, the same session at the end, and a
panic that nobody caught if the script had one (`Thread.alone_script`). It
needs finitely many turns for that, and then stays as it is.
-/
import ScopeChain.Proofs.Moves

namespace ScopeChain

/-! ## 1. Threads -/

/-- Something that a thread has left to do. -/
inductive Task where
  /-- The rest of a list of steps. -/
  | steps (rest : List Step)
  /-- So many more rounds of a body. -/
  | rounds (n : Nat) (body : List Step)
  /-- The guard of a block. -/
  | leave (e : String) (catches : Bool)
  /-- The entry for a completed step. -/
  | note

/-- A script that has got so far, and what it was answered on the way. -/
structure Thread where
  tasks : List Task
  /-- A panic drops tasks until a guard catches it. -/
  panicking : Bool
  replies : List (Action × Answer)

/-- A script that has not begun. -/
def Thread.ofScript (script : List Step) : Thread := ⟨[.steps script], false, []⟩

/-- The move that a task begins with, if it is not a matter of the script
alone. -/
def Task.move? : Task → Option Move
  | .steps (.act a :: _) => some (.act a)
  | .steps (.block e _ _ :: _) => some (.act (.openBlock e))
  | .leave e _ => some (.act (.closeBlock e none))
  | .note => some .mark
  | _ => none

/-- What is left of a step after its first move, given the answer. -/
def Step.tasks : Step → Option Answer → List Task
  | .block e catches body, some .opened => [.steps body, .leave e catches]
  | .rounds n body, _ => [.rounds n body]
  | _, _ => []

/-- What is left of a task after its first move, given the answer. -/
def Task.tasks : Task → Option Answer → List Task
  | .steps (s :: rest), answer? => s.tasks answer? ++ [.note, .steps rest]
  | .rounds (n + 1) body, _ => [.steps body, .rounds n body]
  | _, _ => []

/-- The task begins with a panic. -/
def Task.panics : Task → Bool
  | .steps (.panic _ :: _) => true
  | _ => false

namespace Thread

/-- The move of the next turn. While a panic is on its way only guards make
moves. -/
def move? (t : Thread) : Option Move :=
  match t.tasks, t.panicking with
  | .leave e catches :: _, true => (Task.leave e catches).move?
  | task :: _, false => task.move?
  | _, _ => none

/-- The thread after a turn, given what the turn did and was answered. -/
def next (t : Thread) (reply? : Option (Action × Answer)) : Thread :=
  let replies := t.replies ++ reply?.toList
  match t.tasks, t.panicking with
  | [], panicking => ⟨[], panicking, replies⟩
  | .leave _ catches :: rest, true => ⟨rest, !catches, replies⟩
  | _ :: rest, true => ⟨rest, true, replies⟩
  | task :: rest, false => ⟨task.tasks (reply?.map Prod.snd) ++ rest, task.panics, replies⟩

end Thread

/-- The action of a move, and its answer. -/
def Move.reply? : Move → Session → Option (Action × Answer)
  | .act a, σ => some (a, (a.run σ).2)
  | .mark, _ => none

/-- What the actions among the moves answer. -/
def Session.answers (σ : Session) (ms : List Move) : List (Action × Answer) :=
  (σ.replies ms).map fun r => (r.action, r.answer)

namespace Thread

/-- One turn. -/
def turn (t : Thread) (σ : Session) : Thread × Session :=
  match t.move? with
  | none => (t.next none, σ)
  | some m => (t.next (m.reply? σ), m.run σ)

/-- So many turns of a thread that has the session for itself. -/
def alone : Nat → Thread × Session → Thread × Session
  | 0, x => x
  | n + 1, x => alone n (x.1.turn x.2)

end Thread

/-! ## 2. A thread alone -/

theorem Session.answers_cons (σ : Session) (m : Move) (ms : List Move) :
    σ.answers (m :: ms) = (m.reply? σ).toList ++ (m.run σ).answers ms := by
  cases m <;> rfl

theorem Session.answers_append (σ : Session) (ms ns : List Move) :
    σ.answers (ms ++ ns) = σ.answers ms ++ (σ.after ms).answers ns := by
  rw [answers, replies_append, List.map_append]
  rfl

namespace Thread

theorem alone_add (m n : Nat) (x : Thread × Session) : alone (m + n) x = alone n (alone m x) := by
  induction m generalizing x with
  | zero => rw [Nat.zero_add]; rfl
  | succ m ih => rw [Nat.succ_add]; exact ih _

/-- Some number of turns leads from `x` to `y`. -/
def Reaches (x y : Thread × Session) : Prop := ∃ n, alone n x = y

namespace Reaches

variable {x y z : Thread × Session}

theorem refl (x : Thread × Session) : Reaches x x := ⟨0, rfl⟩

theorem trans (h : Reaches x y) (h' : Reaches y z) : Reaches x z := by
  obtain ⟨m, rfl⟩ := h
  obtain ⟨n, rfl⟩ := h'
  exact ⟨m + n, alone_add m n x⟩

/-- The first turn is known. -/
theorem head {t : Thread} {σ : Session} (h : Reaches (t.turn σ) y) : Reaches (t, σ) y := by
  obtain ⟨n, rfl⟩ := h
  exact ⟨n + 1, rfl⟩

end Reaches

/-- The thread after some moves that led to an end or to a panic. -/
def upTo (replies : List (Action × Answer)) (σ : Session) (ms : List Move) (tasks : List Task)
    (panic? : Option String) : Thread × Session :=
  (⟨tasks, panic?.isSome, replies ++ σ.answers ms⟩, σ.after ms)

variable {m : Move} {task : Task} {rest : List Task} {replies : List (Action × Answer)}
  {σ : Session}

theorem turn_of_move (h : task.move? = some m) :
    (⟨task :: rest, false, replies⟩ : Thread).turn σ =
      (⟨task.tasks ((m.reply? σ).map Prod.snd) ++ rest, task.panics,
        replies ++ (m.reply? σ).toList⟩, m.run σ) := by
  simp [turn, move?, next, h]

theorem turn_of_silent (h : task.move? = none) :
    (⟨task :: rest, false, replies⟩ : Thread).turn σ =
      (⟨task.tasks none ++ rest, task.panics, replies⟩, σ) := by
  simp [turn, move?, next, h]

/-- A panic drops what is no guard. -/
theorem reaches_drop (h : ∀ e catches, task ≠ .leave e catches) (ms : List Move)
    (message : String) :
    Reaches (upTo replies σ ms (task :: rest) (some message))
      (upTo replies σ ms rest (some message)) := by
  refine .head ⟨0, ?_⟩
  cases task with
  | leave e catches => exact absurd rfl (h e catches)
  | _ => simp [alone, turn, move?, next, upTo]

theorem upTo_nil (tasks : List Task) (panic? : Option String) :
    upTo replies σ [] tasks panic? = (⟨tasks, panic?.isSome, replies⟩, σ) := by
  simp [upTo, Session.answers, Session.replies, Session.after]

theorem upTo_append (ms ns : List Move) (tasks : List Task) (panic? : Option String) :
    upTo replies σ (ms ++ ns) tasks panic? =
      upTo (replies ++ σ.answers ms) (σ.after ms) ns tasks panic? := by
  simp only [upTo, List.append_assoc, Session.answers_append, Session.after_append]

theorem upTo_cons (m : Move) (ms : List Move) (tasks : List Task) (panic? : Option String) :
    upTo replies σ (m :: ms) tasks panic? =
      upTo (replies ++ (m.reply? σ).toList) (m.run σ) ms tasks panic? := by
  simp only [upTo, List.append_assoc, Session.answers_cons, Session.after_cons]

/-- A guard closes its block, and lets a panic go on unless it catches. -/
theorem reaches_leave (e : String) (catches : Bool) (ms : List Move) (panic? : Option String) :
    Reaches (upTo replies σ ms (.leave e catches :: rest) panic?)
      (upTo replies σ (ms ++ [.act (.closeBlock e none)]) rest
        (if catches then none else panic?)) := by
  rw [upTo_append]
  refine .head ⟨0, ?_⟩
  cases panic? <;> cases catches <;> rfl

/-- Rounds, given how a thread runs their body. -/
theorem reaches_rounds {detail : Detail} {body : List Step}
    (hbody : ∀ (σ : Session) rest replies, Reaches (⟨.steps body :: rest, false, replies⟩, σ)
      (upTo replies σ (Step.movesAll detail body σ) rest (Step.runAll detail body σ).panic))
    (n : Nat) (σ : Session) (last : List Entry) (replies : List (Action × Answer)) :
    Reaches (⟨.rounds n body :: rest, false, replies⟩, σ)
      (upTo replies σ (Session.repeatMoves (Step.runAll detail body) (Step.movesAll detail body) n σ)
        rest (Session.repeatBody (Step.runAll detail body) n σ last).panic) := by
  induction n generalizing σ last replies with
  | zero =>
    refine .head ?_
    rw [turn_of_silent rfl, Session.repeatMoves, upTo_nil]
    exact .refl _
  | succ n ih =>
    refine .head ?_
    rw [turn_of_silent rfl]
    have hfirst := hbody σ (.rounds n body :: rest) replies
    have hsession := Step.runAll_session detail body σ
    rw [Session.repeatMoves, Session.repeatBody]
    generalize Step.runAll detail body σ = done at hfirst hsession ⊢
    obtain ⟨τ, log, _ | message⟩ := done
    · obtain rfl : τ = _ := hsession
      have hmore := ih (σ.after (Step.movesAll detail body σ)) log
        (replies ++ σ.answers (Step.movesAll detail body σ))
      rw [← upTo_append] at hmore
      exact hfirst.trans hmore
    · rw [List.append_nil]
      exact hfirst.trans (reaches_drop (by simp) _ message)

mutual

theorem reaches_step (detail : Detail) : ∀ (s : Step) (σ : Session) (later : List Step)
    (rest : List Task) (replies : List (Action × Answer)),
    Reaches (⟨.steps (s :: later) :: rest, false, replies⟩, σ)
      (upTo replies σ (Step.moves detail s σ) (.note :: .steps later :: rest)
        (Step.run detail s σ).2.panic?)
  | .act a, σ, later, rest, replies => ⟨1, rfl⟩
  | .block e catches body, σ, later, rest, replies => by
    refine .head ?_
    rw [turn_of_move (m := .act (.openBlock e)) rfl, Step.moves, Step.run, upTo_cons]
    -- whether the body is entered is told by the answer
    have hrun : (Action.openBlock e).run σ = match σ.openBlock e with
      | (τ, .ok ()) => (τ, .opened)
      | (τ, .error r) => (τ, .refused r) := rfl
    generalize σ.openBlock e = opened at hrun ⊢
    obtain ⟨τ, r | ⟨⟩⟩ := opened
    · simp only [Move.reply?, Move.run, hrun, upTo_nil]
      exact .refl _
    · simp only [Move.reply?, Move.run, hrun, Session.panic?_leaveBlock]
      exact (reaches_steps detail body τ _ _).trans (reaches_leave e catches _ _)
  | .rounds n body, σ, later, rest, replies => by
    refine .head ?_
    rw [turn_of_silent rfl, Step.run, Stretch.panic?_ofRounds]
    exact reaches_rounds (reaches_steps detail body) n σ [] replies
  | .panic message, σ, later, rest, replies => ⟨1, rfl⟩

/-- A thread goes through a list of steps as the list runs. -/
theorem reaches_steps (detail : Detail) : ∀ (script : List Step) (σ : Session) (rest : List Task)
    (replies : List (Action × Answer)),
    Reaches (⟨.steps script :: rest, false, replies⟩, σ)
      (upTo replies σ (Step.movesAll detail script σ) rest (Step.runAll detail script σ).panic)
  | [], σ, rest, replies => ⟨1, rfl⟩
  | s :: later, σ, rest, replies => by
    have hstep := reaches_step detail s σ later rest replies
    have hsession := Step.run_session detail s σ
    rw [Step.movesAll, Step.runAll]
    generalize Step.run detail s σ = done at hstep hsession ⊢
    obtain ⟨τ, a | message⟩ := done
    · obtain rfl : τ = _ := hsession
      refine hstep.trans (.head ?_)
      rw [upTo_append, upTo_cons]
      exact reaches_steps detail later _ rest _
    · rw [List.append_nil]
      exact (hstep.trans (reaches_drop (by simp) _ message)).trans
        (reaches_drop (by simp) _ message)

end

/-- A thread with nothing left stays as it is. -/
theorem alone_done (n : Nat) {t : Thread} (h : t.tasks = []) (σ : Session) :
    alone n (t, σ) = (t, σ) := by
  induction n with
  | zero => rfl
  | succ n ih =>
    obtain ⟨tasks, panicking, replies⟩ := t
    obtain rfl : tasks = [] := h
    have hturn : (⟨[], panicking, replies⟩ : Thread).turn σ = (⟨[], panicking, replies⟩, σ) := by
      simp [turn, move?, next]
    rw [alone, hturn]
    exact ih

/-- **A thread alone does what its script does.** After finitely many turns
it has done the same, and it stays there. -/
theorem alone_script (detail : Detail) (script : List Step) (σ : Session) :
    ∃ n, ∀ k, n ≤ k → alone k (ofScript script, σ) =
      (⟨[], (Step.runAll detail script σ).panic.isSome, σ.answers (Step.movesAll detail script σ)⟩,
        (Step.runAll detail script σ).session) := by
  obtain ⟨n, hn⟩ := reaches_steps detail script σ [] []
  refine ⟨n, fun k hk => ?_⟩
  obtain ⟨m, rfl⟩ := Nat.exists_eq_add_of_le hk
  rw [ofScript, alone_add, hn, upTo, alone_done m rfl, Step.runAll_session]
  rfl

end Thread

end ScopeChain

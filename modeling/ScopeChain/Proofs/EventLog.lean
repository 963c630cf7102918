/-
ScopeChain.Proofs.EventLog — the depth of an environment can be replayed
from what it reports.

An environment reports each block that it opens or closes, with the depth
that comes of it. The two depths are computed at different moments: that of
an opening before the block is on the stack, that of a closing after it is
off. Read in order they must still fit together, as a WALK over depths: one
up for each opening, one down for each closing, never below the base, and
at the depth of the environment when the run gets there.

Events of all environments go to one record. `Session.emitted` is what a
single action adds to it, `Session.reports` what a run adds, each event
with the environment it was reported through, and `Session.logOf` the part
of one environment. No action reports more than one event
(`Action.event?`, `Session.emitted_eq`); from there on the walk is a step
lemma (`Action.run_walk`) and an induction over the moves
(`Session.walk_after`), so that guards, panics and refused blocks need no
case of their own.
-/
import ScopeChain.Proofs.Bookkeeping

namespace ScopeChain

/-! ## 1. What one action reports -/

/-- The events that an action adds to the record. -/
def Session.emitted (σ : Session) (a : Action) : List Event :=
  (a.run σ).1.arena.eventsSince σ.arena.events.size

/-- The event that an action reports, if any. -/
def Action.event? (a : Action) (σ : Session) : Option Event :=
  match a with
  | .write (.environment e) .global name _ => σ.environments[e]?.map fun _ => .globalWritten name
  | .enterClosure e h _ => σ.environments[e]?.bind fun env => σ.handles[h]?.map fun i =>
    match env.policy.objection? (σ.heap.depth i + 1) with
    | none => .closureEntered (σ.heap.depth i + 1)
    | some (.depthExceeded tried limit) => .limitReached tried limit
  | .openBlock e => σ.environments[e]?.map fun env =>
    match env.policy.objection? (env.depth + 1) with
    | none => .blockOpened (env.depth + 1)
    | some (.depthExceeded tried limit) => .limitReached tried limit
  | .closeBlock e _ => σ.environments[e]?.bind fun env =>
    env.blocks.head?.map fun _ => .blockClosed env.closed.depth
  | _ => none

namespace Session

variable {σ : Session} {name : String}

/-! A step that looks something up records what the rest of it records, and
nothing if the name stands for nothing. -/

theorem withHandle_events {next : Handle → Session × Answer} {events : Array Event}
    (hnone : σ.arena.events = events) (h : ∀ i, (next i).1.arena.events = events) :
    (σ.withHandle name next).1.arena.events = events := by
  unfold withHandle
  split
  · exact h _
  · exact hnone

theorem withOwned_events {next : Scope → Session × Answer} {events : Array Event}
    (hnone : σ.arena.events = events) (h : ∀ s, (next s).1.arena.events = events) :
    (σ.withOwned name next).1.arena.events = events := by
  unfold withOwned
  split
  · exact h _
  · exact hnone

theorem withEnvironment_events {next : Environment → Session × Answer} {events : Array Event}
    (hnone : σ.arena.events = events) (h : ∀ e, (next e).1.arena.events = events) :
    (σ.withEnvironment name next).1.arena.events = events := by
  unfold withEnvironment
  split
  · exact h _
  · exact hnone

theorem withScope_events {p : Place} {next : Scope → Session × Answer} {events : Array Event}
    (hnone : σ.arena.events = events) (h : ∀ s, (next s).1.arena.events = events) :
    (σ.withScope p next).1.arena.events = events := by
  cases p with
  | shared x => exact withHandle_events hnone fun i => h _
  | owned x => exact withOwned_events hnone h

/-- Of all writes, only one to the root through an environment is reported. -/
theorem write_events (σ : Session) (t : Target) (mode : WriteMode) (n : String) (v : Value) :
    (σ.write t mode n v).1.arena.events =
      ((Action.write t mode n v).event? σ).elim σ.arena.events σ.arena.events.push := by
  match t with
  | .place (.shared x) => exact withHandle_events rfl fun i => rfl
  | .place (.owned x) => exact withOwned_events rfl fun s => rfl
  | .environment x =>
    rw [write, withEnvironment]
    cases hx : σ.environments[x]? with
    | none => cases mode <;> simp [Action.event?, hx, misuse]
    | some env => cases mode <;> simp [Action.event?, hx] <;> rfl

end Session

/-- **What an action reports** is one event at most, the last of the record. -/
theorem Action.run_events (a : Action) (σ : Session) :
    (a.run σ).1.arena.events = (a.event? σ).elim σ.arena.events σ.arena.events.push := by
  cases a with
  | read t query name =>
    rcases t with (x | x) | x
    · exact Session.withHandle_events rfl fun i => rfl
    · exact Session.withOwned_events rfl fun s => rfl
    · exact Session.withEnvironment_events rfl fun e => rfl
  | bindsHere t name =>
    rcases t with p | x
    · exact Session.withScope_events rfl fun s => rfl
    · exact Session.withEnvironment_events rfl fun e => rfl
  | write t mode name v => exact σ.write_events t mode name v
  | writeMember t name v =>
    have hwrite := σ.write_events t .assign name (Value.ofHost v)
    rcases t with p | x <;> exact hwrite
  | inspect p =>
    rcases p with x | x
    · exact Session.withHandle_events rfl fun i => rfl
    · exact Session.withOwned_events rfl fun s => rfl
  | takeParent p name =>
    refine Session.withScope_events rfl fun s => ?_
    cases s.parent <;> rfl
  | copyScope p name => exact Session.withScope_events rfl fun s => rfl
  | share h name | newChild h name | takeRoot h name | newOwnedInside h name | chainDepth h
  | newEnvironmentOver h limits name => exact Session.withHandle_events rfl fun i => rfl
  | sameScope x y =>
    exact Session.withHandle_events rfl fun i => Session.withHandle_events rfl fun j => rfl
  | wrap s name => exact Session.withOwned_events rfl fun scope => rfl
  | store s h =>
    refine Session.withOwned_events rfl fun scope => Session.withHandle_events rfl fun i => ?_
    cases σ.arena.heap.replace? i scope <;> rfl
  | callFrom e name | depth e | policy e | takeGlobal e name | takeCurrent e name =>
    exact Session.withEnvironment_events rfl fun env => rfl
  | enterClosure e h name =>
    rw [run, event?]
    cases he : σ.environments[e]? with
    | none => simp [Session.enterClosure, Session.withEnvironment, he, Session.misuse]
    | some env =>
      cases hh : σ.handles[h]? with
      | none =>
        simp [Session.enterClosure, Session.withEnvironment, Session.withHandle, he, hh,
          Session.misuse]
      | some i =>
        simp only [σ.enterClosure_eq e h name he hh, Option.bind_some, Option.map_some,
          Option.elim_some]
        rcases env.policy.objection? (σ.heap.depth i + 1) with _ | ⟨tried, limit⟩ <;> rfl
  | openBlock e =>
    rw [Session.run_openBlock, event?]
    cases he : σ.environments[e]? with
    | none =>
      rw [σ.openBlock_unknown e he]
      rfl
    | some env =>
      simp only [σ.openBlock_eq e he, Option.map_some, Option.elim_some]
      rcases env.policy.objection? (env.depth + 1) with _ | ⟨tried, limit⟩ <;> rfl
  | closeBlock e name =>
    simp only [run, Session.withEnvironment, event?]
    cases he : σ.environments[e]? with
    | none => rfl
    | some env =>
      simp only [Session.closeBlock_eq, Environment.closeBlock_eq, Option.bind_some]
      obtain ⟨base, blocks, global, baseDepth, policy⟩ := env
      cases blocks <;> cases name <;> rfl
  | _ => rfl

theorem Session.emitted_eq (σ : Session) (a : Action) : σ.emitted a = (a.event? σ).toList := by
  rw [emitted, Arena.eventsSince, Action.run_events]
  cases a.event? σ <;> simp

/-- An action takes nothing from the record. -/
theorem Session.events_run (σ : Session) (a : Action) :
    (a.run σ).1.arena.events.toList = σ.arena.events.toList ++ σ.emitted a := by
  rw [emitted_eq, Action.run_events]
  cases a.event? σ <;> simp

/-- The action opens no block and closes none, enters no closure, and does not
write to the root through an environment. -/
def Action.silent : Action → Bool
  | .openBlock _ | .closeBlock _ _ | .enterClosure _ _ _ | .write (.environment _) .global _ _ =>
    false
  | _ => true

theorem Session.emitted_of_silent {a : Action} (ha : a.silent) (σ : Session) :
    σ.emitted a = [] := by
  rw [emitted_eq]
  cases a with
  | write t mode name v => rcases t with p | x <;> cases mode <;> first | rfl | cases ha
  | _ => first | rfl | cases ha

section Emitted

variable {σ : Session} {e : String} {env : Environment} (he : σ.environments[e]? = some env)
include he

theorem Session.emitted_openBlock (hp : env.policy.Admits (env.depth + 1)) :
    σ.emitted (.openBlock e) = [.blockOpened (env.depth + 1)] := by
  simp [emitted_eq, Action.event?, he, Policy.objection?_eq_none_iff.mpr hp]

theorem Session.emitted_openBlock_refused {limit : Nat} (hp : env.policy.maxDepth = some limit)
    (hlt : limit < env.depth + 1) :
    σ.emitted (.openBlock e) = [.limitReached (env.depth + 1) limit] := by
  simp [emitted_eq, Action.event?, he, Policy.objection?_of_lt hp hlt]

theorem Session.emitted_closeBlock (name : Option String) : σ.emitted (.closeBlock e name) =
    (env.blocks.head?.map fun _ => Event.blockClosed env.closed.depth).toList := by
  simp [emitted_eq, Action.event?, he]

theorem Session.emitted_writeGlobal (n : String) (v : Value) :
    σ.emitted (.write (.environment e) .global n v) = [.globalWritten n] := by
  simp [emitted_eq, Action.event?, he]

/-- A closure that is entered is reported with the depth of its frame. -/
theorem Session.emitted_enterClosure {h : String} {i : Handle} (hi : σ.handles[h]? = some i)
    (hp : env.policy.Admits (σ.heap.depth i + 1)) (y : String) :
    ∃ f : Environment, ((Action.enterClosure e h y).run σ).1.environments[y]? = some f ∧
      σ.emitted (.enterClosure e h y) = [.closureEntered f.depth] := by
  have hadmits := Policy.objection?_eq_none_iff.mpr hp
  refine ⟨env.frame σ.heap i ⟨σ.heap.size⟩, ?_, ?_⟩
  · rw [Action.run_environments]
    simp only [Action.environment?, he, hi, Option.bind_some, hadmits]
    exact Table.getElem?_rebind_self _ y _
  · simp [emitted_eq, Action.event?, he, hi, hadmits, Environment.frame, Environment.depth]

end Emitted

/-! ## 2. The record and the log of one environment -/

/-- The environment that an action is done through. -/
def Action.through? : Action → Option String
  | .read (.environment e) _ _ | .bindsHere (.environment e) _ | .write (.environment e) _ _ _
  | .writeMember (.environment e) _ _ | .callFrom e _ | .enterClosure e _ _ | .openBlock e
  | .closeBlock e _ | .depth e | .policy e | .takeGlobal e _ | .takeCurrent e _ => some e
  | _ => none

/-- The events that an action reports through the environment `x`. -/
def Session.logged (x : String) (σ : Session) (a : Action) : List Event :=
  if a.through? = some x then σ.emitted a else []

/-- The events that moves report, each with the environment it was reported
through. -/
def Session.reports : Session → List Move → List (Option String × Event)
  | _, [] => []
  | σ, .act a :: ms => (σ.emitted a).map (a.through?, ·) ++ (a.run σ).1.reports ms
  | σ, .mark :: ms => σ.marked.reports ms

/-- The events that moves report through the environment `x`. -/
def Session.logOf (x : String) (σ : Session) (ms : List Move) : List Event :=
  ((σ.reports ms).filter fun r => r.1 == some x).map Prod.snd

namespace Session

variable {σ : Session} {x : String}

/-- The record grows by what is reported. -/
theorem events_after (σ : Session) (ms : List Move) :
    (σ.after ms).arena.events.toList = σ.arena.events.toList ++ (σ.reports ms).map Prod.snd := by
  induction ms generalizing σ with
  | nil => simp [after, reports]
  | cons m ms ih =>
    cases m with
    | mark => exact ih σ.marked
    | act a =>
      rw [after_cons, reports, ih]
      simp only [Move.run, events_run, List.map_append, List.map_map, List.append_assoc]
      congr 2
      simp [Function.comp_def]

theorem logOf_act (x : String) (σ : Session) (a : Action) (ms : List Move) :
    σ.logOf x (.act a :: ms) = σ.logged x a ++ (a.run σ).1.logOf x ms := by
  simp only [logOf, reports, logged, List.filter_append, List.map_append]
  congr 1
  split
  · next h => simp [h, List.filter_map, Function.comp_def]
  · next h => simp [h, List.filter_map, Function.comp_def]

theorem logged_of_through? {a : Action} (h : a.through? = some x) (σ : Session) :
    σ.logged x a = σ.emitted a :=
  if_pos h

/-- What is reported is reported through an environment. -/
theorem emitted_of_through?_none {a : Action} (ha : a.through? = none) (σ : Session) :
    σ.emitted a = [] := by
  refine emitted_of_silent ?_ σ
  cases a with
  | write t mode name v => rcases t with p | x <;> first | rfl | cases ha
  | _ => first | rfl | cases ha

end Session

/-! ## 3. Walks -/

/-- The event is the opening or the closing of a block, by its message. -/
def Event.isStep (ev : Event) : Bool := ev.message == "push scope" || ev.message == "pop scope"

/-- Openings and closings with the depths they name, read from the depth `p`
on, lead to the depth `q`: one up, one down, and never below `floor`. -/
inductive DepthWalk (floor : Nat) : (p : Nat) → List Event → (q : Nat) → Prop
  | done (p : Nat) : DepthWalk floor p [] p
  | up {p q : Nat} {rest : List Event} (h : DepthWalk floor (p + 1) rest q) :
    DepthWalk floor p (.blockOpened (p + 1) :: rest) q
  | down {p q : Nat} {rest : List Event} (hp : floor ≤ p) (h : DepthWalk floor p rest q) :
    DepthWalk floor (p + 1) (.blockClosed p :: rest) q

theorem DepthWalk.append {floor p q r : Nat} {log later : List Event}
    (h : DepthWalk floor p log q) (h' : DepthWalk floor q later r) :
    DepthWalk floor p (log ++ later) r := by
  induction h with
  | done p => exact h'
  | up _ ih => exact .up (ih h')
  | down hp _ ih => exact .down hp (ih h')

/-- Only openings and closings of blocks of `x` are steps in its log. -/
theorem Session.filter_isStep_of_spares {a : Action} {x : String} (hspares : a.spares x)
    (σ : Session) : (σ.logged x a).filter Event.isStep = [] := by
  rw [List.filter_eq_nil_iff, logged]
  intro ev hev
  split at hev
  · next hthrough =>
    rw [emitted_eq] at hev
    cases a with
    | openBlock y | closeBlock y name =>
      cases hthrough
      simp [Action.spares, Action.environmentName?] at hspares
    | write t mode n v =>
      rcases t with p | y <;> cases mode <;> simp [Action.event?] at hev
      rw [← hev.2]
      simp [Event.isStep, Event.message]
    | enterClosure y h z =>
      simp only [Action.event?, Option.mem_toList, Option.bind_eq_some_iff,
        Option.map_eq_some_iff] at hev
      obtain ⟨env, -, i, -, rfl⟩ := hev
      rcases env.policy.objection? (σ.heap.depth i + 1) with _ | ⟨tried, limit⟩ <;>
        simp [Event.isStep, Event.message]
    | _ => simp [Action.event?] at hev
  · cases hev

/-- **The step lemma**: an action that keeps an environment takes its log from
the depth before to the depth after. -/
theorem Action.run_walk {a : Action} {x : String} (ha : a.keeps x) {σ : Session}
    {env : Environment} (he : σ.environments[x]? = some env) :
    ∃ blocks, (a.run σ).1.environments[x]? = some { env with blocks } ∧
      DepthWalk env.baseDepth env.depth
        ((σ.logged x a).filter Event.isStep) (env.baseDepth + blocks.length) := by
  by_cases hspares : a.spares x
  · refine ⟨env.blocks, (run_spares hspares σ).trans he, ?_⟩
    rw [Session.filter_isStep_of_spares hspares]
    exact .done _
  cases a with
  | openBlock y =>
    obtain rfl : y = x := by simpa [spares, environmentName?] using hspares
    rw [run_environments, Session.logged_of_through? rfl]
    rcases env.policy.admits_or_lt (env.depth + 1) with hp | ⟨limit, hp, hlt⟩
    · rw [σ.emitted_openBlock he hp]
      simp only [environment?, he, Option.bind_some, Policy.objection?_eq_none_iff.mpr hp]
      exact ⟨_, Table.getElem?_rebind_self _ y _, .up (.done _)⟩
    · rw [σ.emitted_openBlock_refused he hp hlt]
      simp only [environment?, he, Option.bind_some, Policy.objection?_of_lt hp hlt]
      exact ⟨env.blocks, he, .done _⟩
  | closeBlock y name =>
    obtain rfl : y = x := by simpa [spares, environmentName?] using hspares
    rw [run_environments, Session.logged_of_through? rfl, σ.emitted_closeBlock he]
    simp only [environment?, he, Option.map_some]
    refine ⟨env.blocks.tail, Table.getElem?_rebind_self _ y _, ?_⟩
    obtain ⟨base, blocks, global, baseDepth, policy⟩ := env
    cases blocks with
    | nil => exact .done _
    | cons i rest => exact .down (Nat.le_add_right _ _) (.done _)
  | _ => exact absurd ha hspares

/-- **The run lemma.** -/
theorem Session.walk_after {x : String} {ns : List Move}
    (hns : ∀ m ∈ ns, m.only (Action.keeps x)) {σ : Session} {env : Environment}
    (he : σ.environments[x]? = some env) :
    ∃ blocks, (σ.after ns).environments[x]? = some { env with blocks } ∧
      DepthWalk env.baseDepth env.depth ((σ.logOf x ns).filter Event.isStep)
        (env.baseDepth + blocks.length) := by
  induction ns generalizing σ env with
  | nil => exact ⟨env.blocks, he, .done _⟩
  | cons m ns ih =>
    have hrest : ∀ m ∈ ns, m.only (Action.keeps x) := fun k hk => hns k (List.mem_cons_of_mem _ hk)
    cases m with
    | mark => exact ih hrest (σ := σ.marked) he
    | act a =>
      obtain ⟨blocks, he', hwalk⟩ := Action.run_walk (hns _ List.mem_cons_self) he
      obtain ⟨blocks', hlast, hwalk'⟩ := ih hrest he'
      rw [logOf_act, List.filter_append]
      exact ⟨blocks', hlast, hwalk.append hwalk'⟩

/-! ## 4. What is reported next -/

/-- A refused block is reported once, as the opening that it asked for. -/
theorem Session.events_block_refused {σ : Session} {x : String} {env : Environment} {limit : Nat}
    (he : σ.environments[x]? = some env) (hp : env.policy.maxDepth = some limit)
    (hlt : limit < env.depth + 1) (detail : Detail) (catches : Bool) (body : List Step) :
    (Step.run detail (.block x catches body) σ).1 = ((Action.openBlock x).run σ).1 ∧
    ((Action.openBlock x).run σ).1.environments = σ.environments ∧
    σ.emitted (.openBlock x) = [.limitReached (env.depth + 1) limit] := by
  have hopen := σ.openBlock_refused x he hp hlt
  refine ⟨?_, ?_, σ.emitted_openBlock_refused he hp hlt⟩
  · rw [Step.run, run_openBlock, hopen]
  · rw [run_openBlock, hopen]

/-- What closing a block reports, in terms of depths. -/
theorem Session.emitted_closeBlock_depth {σ : Session} {x : String} {env : Environment}
    (he : σ.environments[x]? = some env) (name : Option String) :
    (env.depth = env.baseDepth → σ.emitted (.closeBlock x name) = []) ∧
    (env.baseDepth < env.depth →
      σ.emitted (.closeBlock x name) = [.blockClosed (env.depth - 1)]) := by
  rw [σ.emitted_closeBlock he]
  obtain ⟨base, blocks, global, baseDepth, policy⟩ := env
  cases blocks with
  | nil => exact ⟨fun _ => rfl, fun h => absurd h (Nat.lt_irrefl _)⟩
  | cons i rest =>
    refine ⟨fun h => ?_, fun _ => rfl⟩
    simp [Environment.depth] at h

/-- **The log replays the depth.** Let an action make an environment at any
point of any run, and let a script run from there that puts nothing else
under its name: blocks opened and closed, by hand or by guards nested to
any depth, refused, left by panics; reads and writes; steps on other
environments. Take any point of it. The record has grown by the reports of
the run, and

* the openings and closings reported through the environment are a walk
  from the depth of its base to the depth it has now, one up and one down,
  never below the base;
* an opening that is granted will be reported with the depth one up; one
  that is refused, as a block or by hand, with that depth and the limit,
  and the environment stays as it is;
* a closing will be reported with the depth one down, and not at all at the
  base;
* a write to the root through the environment will be reported with its
  name, a closure that is entered with the depth of its frame;
* no other action is reported, and none that is not done through an
  environment. -/
theorem log_replays_depth {detail : Detail} (ms : List Move) {a : Action} {x : String}
    {made : Environment} (hmade : a.environment? (Session.empty.after ms) = some (x, some made))
    (hnew : ¬ a.keeps x) {script : List Step} (hscript : Step.onlyAll (Action.keeps x) script)
    {ns : List Move} (hns : ns <+: Step.movesAll detail script (a.run (Session.empty.after ms)).1) :
    let start := (a.run (Session.empty.after ms)).1
    let σ := start.after ns
    let base := start.heap.depth made.base
    start.environments[x]? = some made ∧
    σ.arena.events.toList = start.arena.events.toList ++ (start.reports ns).map Prod.snd ∧
    ∃ e : Environment, σ.environments[x]? = some e ∧
      DepthWalk base base ((start.logOf x ns).filter Event.isStep) e.depth ∧
      (e.policy.Admits (e.depth + 1) → σ.emitted (.openBlock x) = [.blockOpened (e.depth + 1)]) ∧
      (∀ limit, e.policy.maxDepth = some limit → limit < e.depth + 1 →
        σ.emitted (.openBlock x) = [.limitReached (e.depth + 1) limit] ∧
        ((Action.openBlock x).run σ).1.environments = σ.environments ∧
        ∀ catches body, (Step.run detail (.block x catches body) σ).1 =
          ((Action.openBlock x).run σ).1) ∧
      (∀ name, (e.depth = base → σ.emitted (.closeBlock x name) = []) ∧
        (base < e.depth → σ.emitted (.closeBlock x name) = [.blockClosed (e.depth - 1)])) ∧
      (∀ n v, σ.emitted (.write (.environment x) .global n v) = [.globalWritten n]) ∧
      (∀ h y i, σ.handles[h]? = some i → e.policy.Admits (σ.heap.depth i + 1) →
        ∃ f : Environment, ((Action.enterClosure x h y).run σ).1.environments[y]? = some f ∧
          σ.emitted (.enterClosure x h y) = [.closureEntered f.depth]) ∧
      (∀ b : Action, b.silent ∨ b.through? = none → σ.emitted b = []) := by
  intro start σ base
  have hformed : (Session.empty.after ms).Formed := Session.formed_empty.after ms
  obtain ⟨hblocks, hmirrors⟩ := hformed.mirrors_made hmade hnew
  have hstart : start.environments[x]? = some made := by
    rw [Action.run_environments, hmade, Table.getElem?_rebind_self]
  have hbase : made.baseDepth = base := hmirrors.baseDepth_eq
  have hkeeps : ∀ m ∈ ns, m.only (Action.keeps x) := fun m hm =>
    Step.movesAll_only (fun _ => rfl) (fun _ => rfl) detail script start hscript m (hns.subset hm)
  obtain ⟨blocks, he, hwalk⟩ := Session.walk_after hkeeps hstart
  have hdepth : made.depth = base := by rw [Environment.depth_of_blocks_nil hblocks, hbase]
  rw [hdepth, hbase] at hwalk
  refine ⟨hstart, start.events_after ns, { made with blocks }, he, ?_,
    fun hp => σ.emitted_openBlock he hp, fun limit hp hlt => ?_, fun name => ?_,
    fun n v => σ.emitted_writeGlobal he n v, fun h y i hi hp => σ.emitted_enterClosure he hi hp y,
    fun b hb => ?_⟩
  · show DepthWalk base base _ (made.baseDepth + blocks.length)
    rw [hbase]
    exact hwalk
  · have hblock := Session.events_block_refused he hp hlt detail
    exact ⟨(hblock false []).2.2, (hblock false []).2.1, fun catches body =>
      (hblock catches body).1⟩
  · rw [← hbase]
    exact Session.emitted_closeBlock_depth he name
  · rcases hb with hb | hb
    · exact Session.emitted_of_silent hb σ
    · exact Session.emitted_of_through?_none hb σ

/-- Under a limit of 2: a block that asks for one more and panics, a closing at
the base, and a write to the root. -/
def loggedBlock : List Step :=
  [.block "e" true [.act (.openBlock "e"), .panic "p"], .act (.closeBlock "e" none),
    .act (.write (.environment "e") .global "n" .nil)]

theorem log_replays_depth_loggedBlock :
    let a : Action := .newEnvironment ⟨some 2⟩ "e"
    let made : Environment := ⟨⟨0⟩, [], ⟨0⟩, 1, ⟨some 2⟩⟩
    let start := (a.run Session.empty).1
    let ns := Step.movesAll ⟨false, false⟩ loggedBlock start
    let log := start.logOf "e" ns
    a.environment? Session.empty = some ("e", some made) ∧ ¬ a.keeps "e" ∧
    Step.onlyAll (Action.keeps "e") loggedBlock ∧
    log = [.blockOpened 2, .limitReached 3 2, .blockClosed 1, .globalWritten "n"] ∧
    DepthWalk 1 1 (log.filter Event.isStep) 1 ∧
    (start.after ns).arena.events.toList = log := by
  intro a made start ns log
  have hmade : a.environment? (Session.empty.after []) = some ("e", some made) := by decide
  have hnew : ¬ a.keeps "e" := by decide
  have hlog : log = [.blockOpened 2, .limitReached 3 2, .blockClosed 1, .globalWritten "n"] := by
    decide
  have hscript : Step.onlyAll (Action.keeps "e") loggedBlock := rfl
  have hns : ns <+: Step.movesAll ⟨false, false⟩ loggedBlock (a.run (Session.empty.after [])).1 :=
    List.prefix_refl _
  obtain ⟨-, hrecord, e, he, hwalk, -⟩ := log_replays_depth [] hmade hnew hscript hns
  have hleft : (start.after ns).environments["e"]? = some made := by decide
  obtain rfl : e = made := Option.some.inj (he.symm.trans hleft)
  exact ⟨hmade, hnew, hscript, hlog, hwalk, hrecord.trans (by decide)⟩

end ScopeChain

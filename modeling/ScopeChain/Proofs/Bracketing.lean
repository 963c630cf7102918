/-
ScopeChain.Proofs.Bracketing — blocks bracket the stack of their
environment.

A block pushes one scope when it is entered and pops one when it is left,
whether its body returned or panicked and whether it catches the panic.
The two meet if the body leaves the stack as it found it. So there are two
cases:

* the body touches the stack through nested blocks only
  (`Action.spares`): by induction over the body those are balanced, and
  the block gives the environment back as it was (`Step.runAll_spares`);
* the body opens and closes as it likes, but does not replace the
  environment (`Action.keeps`): its base stays (`Action.run_keeps`), and
  the pop takes the top of whatever stack is there, except that it never
  takes the base.

`block_brackets` has both, for any session that the block starts in.
-/
import ScopeChain.Proofs.Effect

namespace ScopeChain

/-! ## 1. Actions by the environment they bind -/

/-- The name of the environment that an action may bind, replace or drop. -/
def Action.environmentName? : Action → Option String
  | .newEnvironment _ x => some x
  | .newEnvironmentOver _ _ x => some x
  | .callFrom _ x => some x
  | .enterClosure _ _ x => some x
  | .openBlock x => some x
  | .closeBlock x _ => some x
  | .dropEnvironment x => some x
  | _ => none

/-- The action has no business with the stack of the environment `x`. -/
def Action.spares (x : String) (a : Action) : Bool := a.environmentName? != some x

/-- The action may open and close blocks of the environment `x`, but it
neither replaces nor drops it. -/
def Action.keeps (x : String) : Action → Bool
  | .openBlock _ => true
  | .closeBlock _ _ => true
  | a => a.spares x

theorem Action.environment?_name {a : Action} {σ : Session} {x : String}
    {env? : Option Environment} (h : a.environment? σ = some (x, env?)) :
    a.environmentName? = some x := by
  cases environment?_makes h <;> rfl

/-- An action leaves the environments alone that it spares. -/
theorem Action.run_spares {a : Action} {x : String} (h : a.spares x) (σ : Session) :
    (a.run σ).1.environments[x]? = σ.environments[x]? := by
  rw [run_environments]
  cases hc : a.environment? σ with
  | none => rfl
  | some c =>
    obtain ⟨y, env?⟩ := c
    refine Table.getElem?_rebind_ne _ (fun hyx => ?_) env?
    rw [spares, environment?_name hc, hyx] at h
    simp at h

/-! ## 2. Entering and leaving -/

/-- A block is refused and the environments are as before, or it is opened on
the environment of its name. -/
theorem Session.openBlock_cases (σ : Session) (e : String) :
    (∃ τ r, σ.openBlock e = (τ, .error r) ∧ τ.environments = σ.environments) ∨
    (∃ τ env, σ.openBlock e = (τ, .ok ()) ∧ σ.environments[e]? = some env ∧
      τ.environments = σ.environments.insert e (env.opened ⟨σ.heap.size⟩)) := by
  cases he : σ.environments[e]? with
  | none => exact .inl ⟨σ, _, σ.openBlock_unknown e he, rfl⟩
  | some env =>
    rcases env.policy.admits_or_lt (env.depth + 1) with hp | ⟨limit, hp, hlt⟩
    · exact .inr ⟨_, env, σ.openBlock_admitted e he hp, rfl, rfl⟩
    · exact .inl ⟨_, _, σ.openBlock_refused e he hp hlt, rfl⟩

theorem Session.leaveBlock_environments (e : String) (catches : Bool) (body : Stretch) :
    (leaveBlock e catches body).1.environments = body.session.environments.rebind
      (body.session.environments[e]?.map fun env => (e, some env.closed)) := by
  rw [leaveBlock_session, Action.run_environments]
  rfl

theorem Session.leaveBlock_getElem?_self (e : String) (catches : Bool) (body : Stretch) :
    (leaveBlock e catches body).1.environments[e]? =
      body.session.environments[e]?.map Environment.closed := by
  rw [leaveBlock_environments]
  cases he : body.session.environments[e]? with
  | none => exact he
  | some env => exact Table.getElem?_rebind_self _ e _

theorem Session.leaveBlock_getElem?_ne {e x : String} (h : e ≠ x) (catches : Bool)
    (body : Stretch) :
    (leaveBlock e catches body).1.environments[x]? = body.session.environments[x]? := by
  rw [leaveBlock_environments]
  cases body.session.environments[e]? with
  | none => rfl
  | some env => exact Table.getElem?_rebind_ne _ h _

/-- How a block answers, or passes the panic on, in terms of the environment
before and after it was closed. -/
theorem Session.leaveBlock_snd (e : String) (catches : Bool) (body : Stretch) {env : Environment}
    (he : body.session.environments[e]? = some env) :
    (leaveBlock e catches body).2 = match body.panic with
      | none => .answered (.block body.log env.depth env.closed.depth)
      | some message =>
        if catches then .answered (.caught body.log message env.closed.depth)
        else .panicked message := by
  obtain ⟨τ, log, panic⟩ := body
  unfold leaveBlock
  simp only [he, closeBlock_eq]
  cases panic with
  | none => rfl
  | some message => cases catches <;> rfl

/-! ## 3. Bodies that touch the stack through nested blocks only -/

theorem Session.repeatBody_spares {body : Session → Stretch} {x : String}
    (hbody : ∀ σ, (body σ).session.environments[x]? = σ.environments[x]?) (n : Nat)
    (σ : Session) (last : List Entry) :
    (repeatBody body n σ last).session.environments[x]? = σ.environments[x]? := by
  induction n generalizing σ last with
  | zero => rfl
  | succ n ih =>
    have hσ := hbody σ
    rw [repeatBody]
    generalize body σ = done at hσ ⊢
    obtain ⟨τ, log, _ | message⟩ := done
    · exact (ih τ log).trans hσ
    · exact hσ

mutual

theorem Step.run_spares (detail : Detail) {x : String} : ∀ (s : Step) (σ : Session),
    s.only (Action.spares x) → (Step.run detail s σ).1.environments[x]? = σ.environments[x]?
  | .act a, σ, h => Action.run_spares h σ
  | .block e catches body, σ, h => by
    rw [Step.run]
    rcases σ.openBlock_cases e with ⟨τ, r, hopen, hτ⟩ | ⟨τ, env, hopen, he, hτ⟩
    · rw [hopen]
      exact congrArg (·[x]?) hτ
    · rw [hopen]
      have hbody := Step.runAll_spares detail body τ h
      rw [hτ] at hbody
      -- the block is one of `x` itself or leaves `x` alone
      by_cases hex : e = x
      · subst hex
        rw [Std.ExtTreeMap.getElem?_insert_self] at hbody
        rw [Session.leaveBlock_getElem?_self, hbody, he]
        rfl
      · rw [Std.ExtTreeMap.getElem?_insert, if_neg (by simpa using hex)] at hbody
        rw [Session.leaveBlock_getElem?_ne hex, hbody]
  | .rounds n body, σ, h => by
    rw [Step.run, Session.ofRounds_session]
    exact Session.repeatBody_spares (fun τ => Step.runAll_spares detail body τ h) n σ []
  | .panic _, _, _ => rfl

/-- **Nested blocks are balanced.** A body that touches the stack of an
environment through blocks only leaves it as it was, whether it runs to
its end or panics on the way. -/
theorem Step.runAll_spares (detail : Detail) {x : String} : ∀ (body : List Step) (σ : Session),
    Step.onlyAll (Action.spares x) body →
    (Step.runAll detail body σ).session.environments[x]? = σ.environments[x]?
  | [], _, _ => rfl
  | s :: rest, σ, h => by
    rw [Step.onlyAll, Bool.and_eq_true] at h
    have hs := Step.run_spares detail s σ h.1
    rw [Step.runAll]
    generalize Step.run detail s σ = done at hs ⊢
    obtain ⟨τ, a | message⟩ := done
    · exact (Step.runAll_spares detail rest τ.marked h.2).trans hs
    · exact hs

end

/-! ## 4. Bodies that open and close as they like -/

/-- An action that keeps an environment changes nothing of it but its
blocks. -/
theorem Action.run_keeps {a : Action} {x : String} (ha : a.keeps x) {σ : Session}
    {env : Environment} (he : σ.environments[x]? = some env) :
    ∃ blocks, (a.run σ).1.environments[x]? = some { env with blocks } := by
  by_cases hspares : a.spares x
  · exact ⟨env.blocks, (run_spares hspares σ).trans he⟩
  cases a with
  | openBlock y =>
    obtain rfl : y = x := by simpa [spares, environmentName?] using hspares
    rw [run_environments, environment?, he, Option.bind_some]
    cases env.policy.objection? (env.depth + 1) with
    | none => exact ⟨_, Table.getElem?_rebind_self _ y _⟩
    | some err => exact ⟨env.blocks, he⟩
  | closeBlock y name =>
    obtain rfl : y = x := by simpa [spares, environmentName?] using hspares
    rw [run_environments, environment?, he, Option.map_some]
    exact ⟨_, Table.getElem?_rebind_self _ y _⟩
  | _ => exact absurd ha hspares

/-- A body of such actions ends or panics with an environment on the same
base. -/
theorem Step.runAll_keeps (detail : Detail) {x : String} {body : List Step}
    (hbody : Step.onlyAll (Action.keeps x) body) {σ : Session} {env : Environment}
    (he : σ.environments[x]? = some env) :
    ∃ blocks, (Step.runAll detail body σ).session.environments[x]? = some { env with blocks } := by
  rw [Step.runAll_session]
  have hmoves := Step.movesAll_only (fun _ => rfl) (fun _ => rfl) detail body σ hbody
  refine Session.after_induction
    (P := fun τ => ∃ blocks, τ.environments[x]? = some { env with blocks })
    (fun τ a ha hτ => ?_) (fun _ hτ => hτ) (Session.allActs_of_only hmoves σ) ⟨env.blocks, he⟩
  obtain ⟨blocks, hτ⟩ := hτ
  have hrun := Action.run_keeps ha hτ
  exact hrun

namespace Environment

theorem frames_closed (e : Environment) :
    e.closed.frames = if 1 < e.frames.length then e.frames.tail else e.frames := by
  -- any arena would do
  have h := closeBlock_frames (e.closeBlock_eq Arena.empty)
  by_cases hlen : 1 < e.frames.length
  · rw [if_pos hlen] at h ⊢
    exact h.2.1
  · rw [if_neg hlen] at h ⊢
    exact congrArg frames h.2.1

theorem depth_closed (e : Environment) : e.closed.depth = max e.baseDepth (e.depth - 1) := by
  obtain ⟨base, blocks, global, baseDepth, policy⟩ := e
  cases blocks with
  | nil => simp [closed, depth]
  | cons i rest => simp [closed, depth]

/-- Closing a block of `t` gives the stack of `e`, on the same base, exactly
if `t` has one scope on top of it, or if neither has any but the base. -/
theorem frames_closed_eq_iff {e t : Environment} (hbase : t.base = e.base) :
    t.closed.frames = e.frames ↔
      (∃ i, t.frames = i :: e.frames) ∨ e.frames = [e.base] ∧ t.frames = e.frames := by
  obtain ⟨base, blocks, global, baseDepth, policy⟩ := t
  obtain rfl : base = e.base := hbase
  cases blocks with
  | nil =>
    have hlen : ∀ i, [e.base] ≠ i :: e.frames := fun i h => by
      simpa [frames] using congrArg List.length h
    constructor
    · intro h
      exact .inr ⟨h.symm, h⟩
    · rintro (⟨i, h⟩ | ⟨-, h⟩)
      · exact absurd h (hlen i)
      · exact h
  | cons j rest =>
    constructor
    · intro h
      exact .inl ⟨j, congrArg (j :: ·) h⟩
    · rintro (⟨i, h⟩ | ⟨hbase, h⟩)
      · exact (List.cons.inj h).2
      · rw [hbase] at h
        simpa [frames] using congrArg List.length h

end Environment

/-- **Blocks bracket the stack.** Whatever session a block starts in, and
however it is left, by return, by refusal or by a panic:

* every environment whose stack the body touches through nested blocks only
  is as it was before;
* a refused block leaves all of them alone;
* a body that may also open and close, without replacing the environment,
  ends or panics with some stack. Leaving takes its top unless only the
  base is there, and so restores the stack from before exactly if there is
  one scope more, or if there was only the base and still is. -/
theorem block_brackets (detail : Detail) (σ : Session) (e : String) (catches : Bool)
    (body : List Step) :
    let after := Step.run detail (.block e catches body) σ
    (∀ x, Step.onlyAll (Action.spares x) body →
      after.1.environments[x]? = σ.environments[x]?) ∧
    (∀ τ r, σ.openBlock e = (τ, .error r) → after.1.environments = σ.environments) ∧
    (∀ τ env, σ.openBlock e = (τ, .ok ()) → σ.environments[e]? = some env →
      Step.onlyAll (Action.keeps e) body →
      let done := Step.runAll detail body τ
      ∃ reached left : Environment,
        done.session.environments[e]? = some reached ∧
        after.1.environments[e]? = some left ∧
        after.2 = (match done.panic with
          | none => .answered (.block done.log reached.depth left.depth)
          | some message =>
            if catches then .answered (.caught done.log message left.depth)
            else .panicked message) ∧
        reached = { env with blocks := reached.blocks } ∧
        left = { env with blocks := left.blocks } ∧
        left.frames =
          (if 1 < reached.frames.length then reached.frames.tail else reached.frames) ∧
        left.depth = max env.baseDepth (reached.depth - 1) ∧
        (left.frames = env.frames ↔ (∃ i, reached.frames = i :: env.frames) ∨
          env.frames = [env.base] ∧ reached.frames = env.frames)) := by
  intro after
  refine ⟨fun x h => Step.run_spares detail (.block e catches body) σ h, fun τ r hopen => ?_,
    fun τ env hopen he hbody => ?_⟩
  · rcases σ.openBlock_cases e with ⟨τ', r', hopen', hτ⟩ | ⟨τ', env, hopen', -⟩
    · show (Step.run detail (.block e catches body) σ).1.environments = σ.environments
      rw [Step.run, hopen']
      exact hτ
    · rw [hopen'] at hopen
      cases hopen
  · have hτ : τ.environments[e]? = some (env.opened ⟨σ.heap.size⟩) := by
      rcases σ.openBlock_cases e with ⟨τ', r', hopen', -⟩ | ⟨τ', env', hopen', he', hτ⟩
      · rw [hopen'] at hopen
        cases hopen
      · rw [hopen'] at hopen
        rw [he'] at he
        cases hopen
        cases he
        rw [hτ, Std.ExtTreeMap.getElem?_insert_self]
    obtain ⟨blocks, hdone⟩ := Step.runAll_keeps detail hbody hτ
    have hafter : after = Session.leaveBlock e catches (Step.runAll detail body τ) := by
      show Step.run detail (.block e catches body) σ = _
      rw [Step.run, hopen]
    refine ⟨{ env with blocks }, Environment.closed { env with blocks }, hdone, ?_, ?_, rfl, rfl,
      Environment.frames_closed _, Environment.depth_closed _,
      Environment.frames_closed_eq_iff rfl⟩
    · rw [hafter, Session.leaveBlock_getElem?_self, hdone]
      rfl
    · rw [hafter]
      exact Session.leaveBlock_snd e catches _ hdone

/-- A session with one environment. -/
def oneEnvironment : Session :=
  ((Action.newEnvironment Policy.standard "e").run Session.empty).1

theorem block_brackets_oneEnvironment :
    let nested : List Step := [.block "e" false [.panic "p"]]
    let loose : List Step := [.act (.openBlock "e"), .panic "p"]
    Step.onlyAll (Action.spares "e") nested ∧
    (Step.run ⟨false, false⟩ (.block "e" true nested) oneEnvironment).1.environments["e"]? =
      oneEnvironment.environments["e"]? ∧
    Step.onlyAll (Action.keeps "e") loose ∧
    ∃ left, (Step.run ⟨false, false⟩ (.block "e" true loose) oneEnvironment).1.environments["e"]? =
      some left ∧ left.frames = [⟨1⟩, ⟨0⟩] := by
  intro nested loose
  obtain ⟨hnested, -, -⟩ := block_brackets ⟨false, false⟩ oneEnvironment "e" true nested
  obtain ⟨-, -, hloose⟩ := block_brackets ⟨false, false⟩ oneEnvironment "e" true loose
  obtain ⟨reached, left, hreached, hleft, -, -, -, hframes, -⟩ :=
    hloose (oneEnvironment.openBlock "e").1 ⟨⟨0⟩, [], ⟨0⟩, 1, Policy.standard⟩ rfl (by decide) rfl
  refine ⟨rfl, hnested "e" rfl, rfl, left, hleft, ?_⟩
  have hstack : some reached = some ⟨⟨0⟩, [⟨2⟩, ⟨1⟩], ⟨0⟩, 1, Policy.standard⟩ :=
    hreached.symm.trans (by decide)
  rw [hframes, Option.some.inj hstack]
  rfl

end ScopeChain

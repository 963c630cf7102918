/-
ScopeChain.Proofs.DepthLimit — how deep environments get under a policy.

The policy is asked in two places, and each counts for itself. Opening a
block asks with the depth the environment has counted; entering a closure
asks with the depth of the captured scope, which it walks. Making an
environment on a scope that is there, or for a function call, asks nobody.

What holds in spite of that:

* `Session.Capped.run` — an environment under a limit never counts more
  than the limit and the depth of its base, whichever is more;
* `Session.Under.run` — the environments that descend from one under a
  limit, by calls and by entering closures, stay under the limit, because
  a call starts at depth 1 and a closure is asked for;
* `openBlock_limit`, `enterClosure_limit` — what is asked for is granted
  exactly if the policy admits it, and a refusal changes nothing but the
  record of events.

The depth an environment counts is that of its chain
(`Environment.Mirrors.depth_eq`), so the bound is one for real chains.
-/
import ScopeChain.Proofs.Bracketing
import ScopeChain.Proofs.StackMirror

namespace ScopeChain

/-! ## 1. Refusals -/

namespace Session

/-- The sessions have the same heap and the same tables. -/
structure Alike (σ τ : Session) : Prop where
  heap_eq : τ.heap = σ.heap
  handles_eq : τ.handles = σ.handles
  owned_eq : τ.owned = σ.owned
  environments_eq : τ.environments = σ.environments

variable {σ τ : Session}

/-- A report is no change. -/
theorem alike_report (σ : Session) (event : Event) :
    σ.Alike { σ with arena := σ.arena.report event } :=
  ⟨rfl, rfl, rfl, rfl⟩

/-- Every name reads the same through everything. -/
theorem Alike.read_eq (h : σ.Alike τ) (t : Target) (q : Query) (name : String) :
    ((Action.read t q name).run τ).2 = ((Action.read t q name).run σ).2 := by
  obtain ⟨hheap, hhandles, howned, henvironments⟩ := h
  rcases t with (x | x) | x
  · simp only [Action.run, withLookup, withHandle, hheap, hhandles]
    cases σ.handles[x]? <;> rfl
  · simp only [Action.run, withLookup, withOwned, hheap, howned]
    cases σ.owned[x]? <;> rfl
  · simp only [Action.run, withLookup, withEnvironment, hheap, henvironments]
    cases σ.environments[x]? <;> rfl

/-- The answer says that a chain of `depth` scopes would exceed the limit, and
nothing was changed. -/
structure Declines (σ : Session) (result : Session × Answer) (depth limit : Nat) : Prop where
  answer_eq : result.2 = .refused (.nesting (.depthExceeded depth limit))
  alike : σ.Alike result.1
  read_eq : ∀ t q name,
    ((Action.read t q name).run result.1).2 = ((Action.read t q name).run σ).2

theorem declines_report (σ : Session) (depth limit : Nat) :
    σ.Declines ({ σ with arena := σ.arena.report (.limitReached depth limit) },
      .refused (.nesting (.depthExceeded depth limit))) depth limit :=
  ⟨rfl, alike_report σ _, (alike_report σ _).read_eq⟩

/-- Leaving a block is never refused for its depth. -/
theorem leaveBlock_snd_ne (e : String) (catches : Bool) (body : Stretch) (err : NestingError) :
    (leaveBlock e catches body).2 ≠ .answered (.refused (.nesting err)) := by
  obtain ⟨τ, log, panic⟩ := body
  unfold leaveBlock
  cases he : τ.environments[e]? <;> simp only [he] <;> cases panic <;> cases catches <;>
    simp [misuse]

end Session

/-- Opening a block, plain or guarded, is granted exactly if the policy admits
one scope more than the environment counts. A guarded block runs its body
in the first case only. -/
theorem openBlock_limit {σ : Session} {e : String} {env : Environment}
    (he : σ.environments[e]? = some env) :
    (((Action.openBlock e).run σ).2 = .opened ↔ env.policy.Admits (env.depth + 1)) ∧
    (∀ detail catches body,
      ((∃ err, (Step.run detail (.block e catches body) σ).2 = .answered (.refused (.nesting err)))
        ↔ ¬ env.policy.Admits (env.depth + 1)) ∧
      (env.policy.Admits (env.depth + 1) → Step.run detail (.block e catches body) σ =
        Session.leaveBlock e catches (Step.runAll detail body ((Action.openBlock e).run σ).1))) ∧
    ∀ limit, env.policy.maxDepth = some limit → limit < env.depth + 1 →
      σ.Declines ((Action.openBlock e).run σ) (env.depth + 1) limit ∧
      ∀ detail catches body, Step.run detail (.block e catches body) σ =
        (((Action.openBlock e).run σ).1, .answered ((Action.openBlock e).run σ).2) := by
  rcases env.policy.admits_or_lt (env.depth + 1) with hp | ⟨limit, hlimit, hlt⟩
  · have hopen := σ.openBlock_admitted e he hp
    have hblock : ∀ detail catches body, Step.run detail (.block e catches body) σ =
        Session.leaveBlock e catches (Step.runAll detail body ((Action.openBlock e).run σ).1) := by
      intro detail catches body
      rw [Step.run, Action.run, hopen]
    refine ⟨iff_of_true (by rw [Action.run, hopen]) hp, fun detail catches body =>
      ⟨iff_of_false ?_ (not_not_intro hp), fun _ => hblock detail catches body⟩,
      fun limit hlimit hlt => absurd (hp limit hlimit) (Nat.not_le_of_lt hlt)⟩
    rintro ⟨err, herr⟩
    rw [hblock] at herr
    exact Session.leaveBlock_snd_ne e catches _ err herr
  · have hp : ¬ env.policy.Admits (env.depth + 1) :=
      fun h => Nat.not_le_of_lt hlt (h limit hlimit)
    have hopen := σ.openBlock_refused e he hlimit hlt
    have hrun : (Action.openBlock e).run σ =
        ({ σ with arena := σ.arena.report (.limitReached (env.depth + 1) limit) },
          .refused (.nesting (.depthExceeded (env.depth + 1) limit))) := by
      rw [Action.run, hopen]
    have hblock : ∀ detail catches body, Step.run detail (.block e catches body) σ =
        (((Action.openBlock e).run σ).1, .answered ((Action.openBlock e).run σ).2) := by
      intro detail catches body
      rw [Step.run, hrun, hopen]
    refine ⟨iff_of_false (by rw [hrun]; rintro ⟨⟩) hp, fun detail catches body =>
      ⟨iff_of_true ⟨_, by rw [hblock, hrun]⟩ hp, fun h => absurd h hp⟩,
      fun limit' hlimit' _ => ⟨?_, hblock⟩⟩
    obtain rfl : limit = limit' := Option.some.inj (hlimit.symm.trans hlimit')
    rw [hrun]
    exact σ.declines_report _ _

/-- Entering a closure is granted exactly if the policy admits one scope more
than the chain of the captured scope has. -/
theorem enterClosure_limit {σ : Session} {e h : String} {env : Environment} {i : Handle}
    (he : σ.environments[e]? = some env) (hi : σ.handles[h]? = some i) (name : String) :
    (((Action.enterClosure e h name).run σ).2 = .opened ↔
      env.policy.Admits (σ.heap.depth i + 1)) ∧
    ∀ limit, env.policy.maxDepth = some limit → limit < σ.heap.depth i + 1 →
      σ.Declines ((Action.enterClosure e h name).run σ) (σ.heap.depth i + 1) limit := by
  have hrun := σ.enterClosure_eq e h name he hi
  rcases env.policy.admits_or_lt (σ.heap.depth i + 1) with hp | ⟨limit, hlimit, hlt⟩
  · rw [Policy.objection?_eq_none_iff.mpr hp] at hrun
    refine ⟨iff_of_true (by rw [Action.run, hrun]) hp,
      fun limit hlimit hlt => absurd (hp limit hlimit) (Nat.not_le_of_lt hlt)⟩
  · rw [Policy.objection?_of_lt hlimit hlt] at hrun
    refine ⟨iff_of_false (by rw [Action.run, hrun]; rintro ⟨⟩)
      (fun h => Nat.not_le_of_lt hlt (h limit hlimit)), fun limit' hlimit' _ => ?_⟩
    obtain rfl : limit = limit' := Option.some.inj (hlimit.symm.trans hlimit')
    rw [Action.run, hrun]
    exact σ.declines_report _ _

/-! ## 2. Every environment under a limit -/

/-- No environment with a limit counts more than the limit and the depth of
its base, whichever is more. -/
def Session.Capped (σ : Session) : Prop :=
  ∀ (x : String) (e : Environment), σ.environments[x]? = some e →
    ∀ limit, e.policy.maxDepth = some limit → e.depth ≤ max limit e.baseDepth

theorem Environment.depth_le_max_of_blocks_nil {e : Environment} (h : e.blocks = [])
    (limit : Nat) : e.depth ≤ max limit e.baseDepth := by
  rw [depth_of_blocks_nil h]
  exact Nat.le_max_right _ _

theorem Session.Capped.run {σ : Session} (h : σ.Capped) (a : Action) : (a.run σ).1.Capped := by
  intro x e hx limit hlimit
  rw [Action.run_environments] at hx
  rcases Table.getElem?_rebind_cases hx with hx | hx
  · exact h x e hx limit hlimit
  · cases Action.environment?_makes hx with
    | created limits => exact Environment.depth_le_max_of_blocks_nil rfl limit
    | placed limits hi => exact Environment.depth_le_max_of_blocks_nil rfl limit
    | called he => exact Environment.depth_le_max_of_blocks_nil rfl limit
    | entered he hi hp => exact Environment.depth_le_max_of_blocks_nil rfl limit
    | opened he hp => exact Nat.le_trans (hp limit hlimit) (Nat.le_max_left _ _)
    | @closed env he name =>
      have hle := h x env he limit hlimit
      rw [Environment.depth_closed]
      exact Nat.max_le.mpr ⟨Nat.le_max_right _ _, Nat.le_trans (Nat.sub_le _ _) hle⟩

theorem Session.capped_empty : Session.empty.Capped := by
  intro x e hx
  simp [Session.empty] at hx

/-- Moves of any kind keep environments under their limits. -/
theorem Session.Capped.after {σ : Session} (h : σ.Capped) (ms : List Move) : (σ.after ms).Capped :=
  Session.after_induction (fun _ a _ h => h.run a) (fun _ h => h)
    (Session.allActs_of_only (p := fun _ => true) (fun m _ => by cases m <;> rfl) σ) h

/-! ## 3. The family of an environment -/

/-- The name of the environment from which the one that an action binds
descends. -/
def Action.source? : Action → Option String
  | .callFrom e _ => some e
  | .enterClosure e _ _ => some e
  | .openBlock e => some e
  | .closeBlock e _ => some e
  | _ => none

/-- The names of a family after an action, given those before it. The name
that the action binds belongs to the family if the source does. -/
def Action.family (a : Action) (σ : Session) (names : List String) : List String :=
  match a.environment? σ with
  | none => names
  | some (x, bound) =>
    let others := names.filter (· != x)
    if bound.isSome ∧ (a.source?.any names.contains) then x :: others else others

/-- The names of a family after moves. -/
def Session.family (σ : Session) (names : List String) : List Move → List String
  | [] => names
  | .act a :: ms => (a.run σ).1.family (a.family σ names) ms
  | .mark :: ms => σ.marked.family names ms

/-- A name of the family stands for what it stood for, or for an environment
that the action made from one of the family. -/
theorem Action.mem_family {a : Action} {σ : Session} {names : List String} {y : String}
    (h : y ∈ a.family σ names) :
    y ∈ names ∧ (a.run σ).1.environments[y]? = σ.environments[y]? ∨
    ∃ env e, a.environment? σ = some (y, some env) ∧ a.source? = some e ∧ e ∈ names := by
  rw [family] at h
  rw [run_environments]
  cases hc : a.environment? σ with
  | none =>
    rw [hc] at h
    exact .inl ⟨h, rfl⟩
  | some c =>
    obtain ⟨x, bound⟩ := c
    rw [hc] at h
    have hothers : y ∈ names.filter (· != x) →
        y ∈ names ∧ (σ.environments.rebind (some (x, bound)))[y]? = σ.environments[y]? := by
      intro hy
      obtain ⟨hy, hne⟩ := List.mem_filter.mp hy
      exact ⟨hy, Table.getElem?_rebind_ne _ (fun heq => by simp [heq] at hne) bound⟩
    dsimp only at h
    split at h
    · next hif =>
      obtain ⟨hbound, hsource⟩ := hif
      rcases List.mem_cons.mp h with rfl | hy
      · obtain ⟨env, rfl⟩ := Option.isSome_iff_exists.mp hbound
        obtain ⟨e, he, hmem⟩ := (Option.any_eq_true _ _).mp hsource
        exact .inr ⟨env, e, rfl, he, List.contains_iff_mem.mp hmem⟩
      · exact .inl (hothers hy)
    · exact .inl (hothers h)

/-- Each name stands for an environment under the limit that counts no more
than it. -/
def Session.Under (σ : Session) (limit : Nat) (names : List String) : Prop :=
  ∀ y ∈ names, ∃ env, σ.environments[y]? = some env ∧ env.policy.maxDepth = some limit ∧
    env.depth ≤ limit

/-- **The step lemma**: a family stays under its limit. A call starts at depth
1; everything else that makes the family deeper asks first. -/
theorem Session.Under.run {σ : Session} {limit : Nat} {names : List String}
    (h : σ.Under limit names) (hσ : σ.Sound) (hpos : 1 ≤ limit) (a : Action) :
    (a.run σ).1.Under limit (a.family σ names) := by
  intro y hy
  rcases Action.mem_family hy with ⟨hy, hsame⟩ | ⟨env, e, hmake, hsource, he⟩
  · rw [hsame]
    exact h y hy
  obtain ⟨source, hsource', hlimit, hdepth⟩ := h e he
  refine ⟨env, by rw [Action.run_environments, hmake, Table.getElem?_rebind_self], ?_⟩
  -- the two ways without a source are not ways into the family
  cases Action.environment?_makes hmake with
  | created limits => cases hsource
  | placed limits hi => cases hsource
  | called hv =>
    cases hsource
    cases hsource'.symm.trans hv
    refine ⟨hlimit, ?_⟩
    rw [(hσ.mirrors hv).depth_child hσ.acyclic]
    exact hpos
  | entered hv hi hp =>
    cases hsource
    cases hsource'.symm.trans hv
    exact ⟨hlimit, hp limit hlimit⟩
  | opened hv hp =>
    cases hsource
    cases hsource'.symm.trans hv
    exact ⟨hlimit, hp limit hlimit⟩
  | closed hv name =>
    cases hsource
    cases hsource'.symm.trans hv
    refine ⟨hlimit, ?_⟩
    rw [Environment.depth_closed]
    exact Nat.max_le.mpr ⟨Nat.le_trans (Nat.le_add_right _ _) hdepth,
      Nat.le_trans (Nat.sub_le _ _) hdepth⟩

/-- **The run lemma.** -/
theorem Session.Under.after {σ : Session} {limit : Nat} {names : List String} {ms : List Move}
    (h : σ.Under limit names) (hσ : σ.Sound) (hpos : 1 ≤ limit)
    (hms : σ.allActs Action.keepsContents ms) :
    (σ.after ms).Under limit (σ.family names ms) := by
  induction ms generalizing σ names with
  | nil => exact h
  | cons m ms ih =>
    cases m with
    | mark => exact ih (σ := σ.marked) h hσ.marked hms
    | act a =>
      obtain ⟨ha, hrest⟩ := Session.allActs_act.mp hms
      exact ih (h.run hσ hpos a) (hσ.run ha) hrest

/-- **The depth limit.**

* Take any point of a run and an environment there under a limit of 1 or
  more whose base is no deeper than that. As long as no scope is replaced,
  the chains of its family are no longer than the limit.
* At every point of any run an environment under a limit counts no more than
  the limit and the depth of its base, whichever is more.
* In any session, a block is opened and a closure is entered exactly if the
  policy admits the depth that comes of it. If not, the answer has that
  depth and the limit, the body does not run, and the heap, the tables and
  all that can be read are as before. -/
theorem depth_limit :
    (∀ (detail : Detail) (script : List Step) (ms ns : List Move),
      Step.Intact detail script (ms ++ ns) →
      ∀ (x : String) (e : Environment) (limit : Nat),
      (Session.empty.after ms).environments[x]? = some e → e.policy.maxDepth = some limit →
      1 ≤ limit → (Session.empty.after ms).heap.depth e.base ≤ limit →
      ∀ y ∈ (Session.empty.after ms).family [x] ns, ∃ env,
        (Session.empty.after (ms ++ ns)).environments[y]? = some env ∧
        env.policy.maxDepth = some limit ∧
        (Session.empty.after (ms ++ ns)).heap.depth env.current ≤ limit) ∧
    (∀ (detail : Detail) (script : List Step) (ms : List Move),
      ms <+: Step.movesAll detail script Session.empty →
      ∀ (x : String) (e : Environment) (limit : Nat),
      (Session.empty.after ms).environments[x]? = some e → e.policy.maxDepth = some limit →
      e.depth ≤ max limit e.baseDepth) ∧
    (∀ (σ : Session) (e : String) (env : Environment), σ.environments[e]? = some env →
      (((Action.openBlock e).run σ).2 = .opened ↔ env.policy.Admits (env.depth + 1)) ∧
      (∀ detail catches body,
        ((∃ err, (Step.run detail (.block e catches body) σ).2 =
          .answered (.refused (.nesting err))) ↔ ¬ env.policy.Admits (env.depth + 1)) ∧
        (env.policy.Admits (env.depth + 1) → Step.run detail (.block e catches body) σ =
          Session.leaveBlock e catches (Step.runAll detail body ((Action.openBlock e).run σ).1))) ∧
      ∀ limit, env.policy.maxDepth = some limit → limit < env.depth + 1 →
        σ.Declines ((Action.openBlock e).run σ) (env.depth + 1) limit ∧
        ∀ detail catches body, Step.run detail (.block e catches body) σ =
          (((Action.openBlock e).run σ).1, .answered ((Action.openBlock e).run σ).2)) ∧
    (∀ (σ : Session) (e h name : String) (env : Environment) (i : Handle),
      σ.environments[e]? = some env → σ.handles[h]? = some i →
      (((Action.enterClosure e h name).run σ).2 = .opened ↔
        env.policy.Admits (σ.heap.depth i + 1)) ∧
      ∀ limit, env.policy.maxDepth = some limit → limit < σ.heap.depth i + 1 →
        σ.Declines ((Action.enterClosure e h name).run σ) (σ.heap.depth i + 1) limit) := by
  refine ⟨?_, ?_, fun σ e env he => openBlock_limit he,
    fun σ e h name env i he hi => enterClosure_limit he hi name⟩
  · intro detail script ms ns h x e limit he hlimit hpos hbase y hy
    obtain ⟨hms, hns⟩ := Session.allActs_append.mp h.keeps
    have hσ := Session.sound_empty.after hms
    have hunder : (Session.empty.after ms).Under limit [x] := by
      intro z hz
      obtain rfl := List.mem_singleton.mp hz
      refine ⟨e, he, hlimit, Nat.le_trans (Session.capped_empty.after ms z e he limit hlimit) ?_⟩
      rw [(hσ.mirrors he).baseDepth_eq]
      exact Nat.max_le.mpr ⟨Nat.le_refl _, hbase⟩
    obtain ⟨env, henv, hpolicy, hdepth⟩ := hunder.after hσ hpos hns y hy
    have hτ := hσ.after hns
    rw [Session.after_append]
    refine ⟨env, henv, hpolicy, ?_⟩
    rwa [← (hτ.mirrors henv).depth_eq hτ.acyclic]
  · intro detail script ms _ x e limit he hlimit
    exact Session.capped_empty.after ms x e he limit hlimit

/-- An environment under a limit of 2, and a call from it that opens a block. -/
def limitTwo : List Step :=
  [.act (.newEnvironment ⟨some 2⟩ "e"), .act (.callFrom "e" "f"), .act (.openBlock "f")]

theorem depth_limit_limitTwo :
    let ms : List Move := [.act (.newEnvironment ⟨some 2⟩ "e"), .mark]
    let ns : List Move := [.act (.callFrom "e" "f"), .mark, .act (.openBlock "f"), .mark]
    let σ := Session.empty.after (ms ++ ns)
    let f : Environment := ⟨⟨0⟩, [⟨1⟩], ⟨0⟩, 1, ⟨some 2⟩⟩
    Step.Intact ⟨false, false⟩ limitTwo (ms ++ ns) ∧
    "f" ∈ (Session.empty.after ms).family ["e"] ns ∧
    (∃ env, σ.environments["f"]? = some env ∧ σ.heap.depth env.current ≤ 2) ∧
    σ.environments["f"]? = some f ∧ f.depth ≤ max 2 f.baseDepth ∧
    σ.Declines ((Action.openBlock "f").run σ) 3 2 := by
  intro ms ns σ f
  obtain ⟨hfamily, hcapped, hopen, -⟩ := depth_limit
  have h : Step.Intact ⟨false, false⟩ limitTwo (ms ++ ns) := ⟨⟨[], rfl⟩, rfl⟩
  have hmem : "f" ∈ (Session.empty.after ms).family ["e"] ns := by decide
  have hf : σ.environments["f"]? = some f := by decide
  obtain ⟨env, henv, -, hdepth⟩ := hfamily ⟨false, false⟩ limitTwo ms ns h "e"
    ⟨⟨0⟩, [], ⟨0⟩, 1, ⟨some 2⟩⟩ 2 (by decide) rfl (by decide) (by decide) "f" hmem
  exact ⟨h, hmem, ⟨env, henv, hdepth⟩, hf, hcapped _ limitTwo _ h.of_run "f" f 2 hf rfl,
    ((hopen σ "f" f hf).2.2 2 rfl (by decide)).1⟩

end ScopeChain

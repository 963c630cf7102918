/-
ScopeChain.Proofs.ClosureEntry — a closure entered where it was captured
is a block that was opened.

Both stand on a new scope inside the one that was current, and they get
there in different ways. A block is added to the stack of its environment,
and its depth to the depth that the environment counts. The frame of a
closure has a stack of its own and a depth that was found by walking. In a
session in which no scope was replaced the two depths are the same, because
environments mirror their chains; hence the policy grants both or neither.

From there on the frame has the stack that the block is on from that block
inward (`Environment.TopOf`). Nothing that is done to a session asks for
more of an environment than that, except for closing the block itself
(`Action.leavesOpen`). So the two sessions stay the same but for the bottom
of one stack (`Session.Abridges`), whatever else is done, scopes replaced
included: actions answer alike and keep it so (`Session.Abridges.run`), and
scripts write the same log (`Step.runAll_abridged`).
-/
import ScopeChain.Proofs.EventLog
import ScopeChain.Proofs.Related
import ScopeChain.Proofs.Threads

namespace ScopeChain

/-! ## 1. The top of a stack -/

namespace Environment

/-- The first environment is based on a block of the second and has what was
opened since. What the two count and remember is the same. -/
structure TopOf (block : Handle) (f g : Environment) : Prop where
  base_eq : f.base = block
  blocks_prefix : f.blocks ++ [block] <+: g.blocks
  depth_eq : f.depth = g.depth
  global_eq : f.global = g.global
  policy_eq : f.policy = g.policy

namespace TopOf

variable {block : Handle} {f g : Environment}

theorem current_eq (h : f.TopOf block g) : f.current = g.current := by
  obtain ⟨rest, hrest⟩ := h.blocks_prefix
  rw [current, current, ← hrest, h.base_eq]
  cases f.blocks <;> rfl

theorem opened (h : f.TopOf block g) (i : Handle) : (f.opened i).TopOf block (g.opened i) where
  base_eq := h.base_eq
  blocks_prefix := (List.prefix_cons_inj i).mpr h.blocks_prefix
  depth_eq := congrArg (· + 1) h.depth_eq
  global_eq := h.global_eq
  policy_eq := h.policy_eq

/-- Both close the same block, as long as it is not the one in question. -/
theorem closed (h : f.TopOf block g) (hblock : g.blocks.head? ≠ some block) :
    f.blocks.head? = g.blocks.head? ∧ f.closed.TopOf block g.closed := by
  obtain ⟨base, blocks, global, baseDepth, policy⟩ := f
  obtain ⟨base', blocks', global', baseDepth', policy'⟩ := g
  obtain ⟨hbase, ⟨rest, rfl⟩, hdepth, hglobal, hpolicy⟩ := h
  cases blocks with
  | nil => exact absurd rfl hblock
  | cons i inner =>
    refine ⟨rfl, hbase, ⟨rest, rfl⟩, ?_, hglobal, hpolicy⟩
    simp only [depth, List.length_append, List.length_cons, Environment.closed, List.tail_cons,
      List.cons_append] at hdepth ⊢
    omega

end TopOf

/-- The environments are the same, or the first is the top of the second. -/
def SameOrTop (block : Handle) (f g : Environment) : Prop := f = g ∨ f.TopOf block g

namespace SameOrTop

variable {block : Handle} {f g : Environment}

theorem current_eq (h : f.SameOrTop block g) : f.current = g.current :=
  h.elim (congrArg current) TopOf.current_eq

theorem depth_eq (h : f.SameOrTop block g) : f.depth = g.depth :=
  h.elim (congrArg depth) TopOf.depth_eq

theorem global_eq (h : f.SameOrTop block g) : f.global = g.global :=
  h.elim (congrArg global) TopOf.global_eq

theorem policy_eq (h : f.SameOrTop block g) : f.policy = g.policy :=
  h.elim (congrArg policy) TopOf.policy_eq

theorem opened (h : f.SameOrTop block g) (i : Handle) :
    (f.opened i).SameOrTop block (g.opened i) :=
  h.imp (congrArg fun e : Environment => e.opened i) fun h => h.opened i

theorem closed (h : f.SameOrTop block g) (hblock : g.blocks.head? ≠ some block) :
    f.blocks.head? = g.blocks.head? ∧ f.closed.SameOrTop block g.closed := by
  rcases h with rfl | h
  · exact ⟨rfl, .inl rfl⟩
  · exact ⟨(h.closed hblock).1, .inr (h.closed hblock).2⟩

theorem child_eq (h : f.SameOrTop block g) (heap : Heap) : f.child heap = g.child heap := by
  rw [child, child, h.global_eq, h.policy_eq]

theorem frame_eq (h : f.SameOrTop block g) (heap : Heap) (i k : Handle) :
    f.frame heap i k = g.frame heap i k := by
  rw [frame, frame, h.policy_eq]

end SameOrTop

end Environment

/-! ## 2. Sessions that differ in the bottom of one stack -/

/-- The sessions are the same but for environments of which the first has the
top only, and for events that the log has shown. -/
structure Session.Abridges (block : Handle) (σ τ : Session) : Prop where
  heap_eq : σ.heap = τ.heap
  handles_eq : σ.handles = τ.handles
  owned_eq : σ.owned = τ.owned
  environments : ∀ x : String,
    Option.Rel (Environment.SameOrTop block) σ.environments[x]? τ.environments[x]?
  unshown_eq : σ.arena.eventsSince σ.shown = τ.arena.eventsSince τ.shown
  shown_le : σ.shown ≤ σ.arena.events.size
  shown_le' : τ.shown ≤ τ.arena.events.size

/-- The action does not close the block. -/
def Action.leavesOpen (block : Handle) (a : Action) (τ : Session) : Bool :=
  match a with
  | .closeBlock x _ => τ.environments[x]?.all fun g => g.blocks.head? != some block
  | _ => true

theorem Action.head?_ne_of_leavesOpen {block : Handle} {x : String} {name : Option String}
    {τ : Session} {g : Environment} (ha : (Action.closeBlock x name).leavesOpen block τ)
    (hg : τ.environments[x]? = some g) : g.blocks.head? ≠ some block := by
  simpa [leavesOpen, hg] using ha

/-! ## 3. What is answered on both sides -/

namespace Session.Abridges

variable {block : Handle} {σ τ : Session} (h : σ.Abridges block τ)
include h

theorem related : σ.Related (fun _ => true) Eq Eq (Environment.SameOrTop block) τ where
  handles x _ := by
    rw [h.handles_eq]
    exact rel_self fun _ _ => rfl
  owned x _ := by
    rw [h.owned_eq]
    exact rel_self fun _ _ => rfl
  environments x _ := h.environments x

omit h in
/-- What a snapshot shows of the environments is the same on both sides. -/
theorem shown_eq (h : σ.Abridges block τ) :
    σ.environments.map (fun _ f => (f.current, f.global, f.depth)) =
      τ.environments.map (fun _ g => (g.current, g.global, g.depth)) := by
  refine Std.ExtTreeMap.ext_getElem? fun x => ?_
  rw [Std.ExtTreeMap.getElem?_map, Std.ExtTreeMap.getElem?_map]
  obtain ⟨hf, hg⟩ | ⟨f, g, hf, hg, hfg⟩ := rel_cases (h.environments x)
  · rw [hf, hg]
  · rw [hf, hg, Option.map_some, Option.map_some, hfg.current_eq, hfg.global_eq, hfg.depth_eq]

theorem snapshot_eq : σ.snapshot = τ.snapshot := by
  have hlist := congrArg Std.ExtTreeMap.toList h.shown_eq
  rw [Std.ExtTreeMap.toList_map, Std.ExtTreeMap.toList_map] at hlist
  have hstarts : σ.starts = τ.starts := by
    have hplaces := congrArg (List.flatMap fun p : String × Handle × Handle × Nat =>
      [some p.2.1, some p.2.2.1]) hlist
    simp only [List.flatMap_map] at hplaces
    simp only [starts, h.handles_eq, h.owned_eq, Table.values_eq τ.environments,
      Table.values_eq σ.environments, List.flatMap_map, hplaces]
  have hnumbering : σ.numbering = τ.numbering := by
    rw [numbering, numbering, hstarts, show σ.arena.heap = τ.arena.heap from h.heap_eq]
  have henvironments := congrArg (List.map fun p : String × Handle × Handle × Nat =>
    (p.1, SnapshotEnvironment.mk (τ.numbering.get p.2.1) (τ.numbering.get p.2.2.1) p.2.2.2)) hlist
  simp only [List.map_map, Function.comp_def] at henvironments
  simp only [snapshot, hnumbering, h.handles_eq, h.owned_eq,
    show σ.arena.heap = τ.arena.heap from h.heap_eq, henvironments]

/-- Both sides answer alike. -/
theorem answer_eq {a : Action} (ha : a.leavesOpen block τ) : (a.run σ).2 = (a.run τ).2 := by
  have hrel := h.related
  have hheap : σ.arena.heap = τ.arena.heap := h.heap_eq
  have hscope : ∀ i j, i = j → σ.heap.scope i = τ.heap.scope j := by
    rintro i _ rfl
    rw [h.heap_eq]
  cases a with
  | read t query name =>
    refine hrel.withLookup_snd rfl ?_ ?_ (fun f g hfg => hfg.current_eq) fun _ => rfl
    · rintro i _ rfl
      rw [h.heap_eq]
    · rintro s _ rfl
      rw [h.heap_eq]
  | bindsHere t name =>
    match t with
    | .place p =>
      refine hrel.withScope_snd rfl hscope ?_
      rintro s _ rfl
      rfl
    | .environment x =>
      refine hrel.withEnvironment_snd rfl fun f g hfg => ?_
      rw [hheap, hfg.current_eq]
  | write t mode name v => exact hrel.write_snd rfl mode name v
  | writeMember t name v => exact hrel.write_snd rfl .assign name (Value.ofHost v)
  | inspect p =>
    match p with
    | .shared x =>
      refine hrel.withHandle_snd rfl ?_
      rintro i _ rfl
      rw [hheap]
    | .owned x =>
      refine hrel.withOwned_snd rfl ?_
      rintro s _ rfl
      rfl
  | snapshot => exact congrArg Answer.snapshot h.snapshot_eq
  | share x y | newChild x y | takeRoot x y | newOwnedInside x y | newEnvironmentOver x _ y =>
    exact hrel.withHandle_snd rfl fun _ _ _ => rfl
  | takeParent p y =>
    refine hrel.withScope_snd rfl hscope ?_
    rintro s _ rfl
    cases s.parent <;> rfl
  | copyScope p y => exact hrel.withScope_snd rfl hscope fun _ _ _ => rfl
  | chainDepth x =>
    refine hrel.withHandle_snd rfl ?_
    rintro i _ rfl
    rw [hheap]
  | sameScope x y =>
    refine hrel.withHandle_snd rfl ?_
    rintro i _ rfl
    refine hrel.withHandle_snd rfl ?_
    rintro j _ rfl
    rfl
  | dropHandle x => simp [Action.run, h.handles_eq]
  | dropEnvironment x =>
    have hx := rel_isSome (h.environments x)
    simpa [Action.run] using hx
  | wrap x y => exact hrel.withOwned_snd rfl fun _ _ _ => rfl
  | store x y =>
    refine hrel.withOwned_snd rfl ?_
    rintro s _ rfl
    refine hrel.withHandle_snd rfl ?_
    rintro i _ rfl
    rw [hheap]
    cases τ.arena.heap.replace? i s <;> rfl
  | callFrom x y | takeGlobal x y | takeCurrent x y =>
    exact hrel.withEnvironment_snd rfl fun _ _ _ => rfl
  | depth x =>
    refine hrel.withEnvironment_snd rfl fun f g hfg => ?_
    rw [hfg.depth_eq]
  | policy x =>
    refine hrel.withEnvironment_snd rfl fun f g hfg => ?_
    rw [hfg.policy_eq]
  | enterClosure x y z =>
    refine hrel.enterClosure_snd rfl rfl z (fun f g hfg => hfg.policy_eq) ?_
    rintro i _ rfl
    rw [h.heap_eq]
  | openBlock x =>
    exact hrel.openBlock_snd rfl (fun f g hfg => hfg.policy_eq) fun f g hfg => hfg.depth_eq
  | closeBlock x y =>
    -- that it is not the block itself is known of the environment that is found, not of any two
    -- that are related
    rw [Action.run, Action.run, withEnvironment, withEnvironment]
    obtain ⟨hf, hg⟩ | ⟨f, g, hf, hg, hfg⟩ := rel_cases (h.environments x)
    · rw [hf, hg]
      rfl
    · have hhead := (hfg.closed (Action.head?_ne_of_leavesOpen ha hg)).1
      simp only [hf, hg, σ.closeBlock_eq, τ.closeBlock_eq, hhead]
      cases g.blocks.head? <;> cases y <;> rfl
  | _ => rfl

/-! ## 4. What is done on both sides -/

/-- Both sides report the same. -/
theorem event?_eq {a : Action} (ha : a.leavesOpen block τ) : a.event? σ = a.event? τ := by
  cases a with
  | write t mode name v =>
    match t, mode with
    | .environment x, .global =>
      obtain ⟨hf, hg⟩ | ⟨f, g, hf, hg, -⟩ := rel_cases (h.environments x) <;>
        simp [Action.event?, hf, hg]
    | .environment x, .declare => rfl
    | .environment x, .assign => rfl
    | .place p, mode => rfl
  | enterClosure x y z =>
    obtain ⟨hf, hg⟩ | ⟨f, g, hf, hg, hfg⟩ := rel_cases (h.environments x) <;>
      simp [Action.event?, hf, hg, h.handles_eq, h.heap_eq]
    simp [hfg.policy_eq]
  | openBlock x =>
    obtain ⟨hf, hg⟩ | ⟨f, g, hf, hg, hfg⟩ := rel_cases (h.environments x) <;>
      simp [Action.event?, hf, hg]
    simp [hfg.policy_eq, hfg.depth_eq]
  | closeBlock x y =>
    obtain ⟨hf, hg⟩ | ⟨f, g, hf, hg, hfg⟩ := rel_cases (h.environments x) <;>
      simp [Action.event?, hf, hg]
    obtain ⟨hhead, hclosed⟩ := hfg.closed (Action.head?_ne_of_leavesOpen ha hg)
    rw [hhead, hclosed.depth_eq]
  | _ => rfl

theorem writeDeed?_eq (t : Target) (mode : WriteMode) (name : String) (v : Value) :
    σ.writeDeed? t mode name v = τ.writeDeed? t mode name v := by
  match t with
  | .place (.shared x) => rw [writeDeed?, writeDeed?, h.handles_eq]
  | .place (.owned x) => rw [writeDeed?, writeDeed?, h.owned_eq]
  | .environment x =>
    obtain ⟨hf, hg⟩ | ⟨f, g, hf, hg, hfg⟩ := rel_cases (h.environments x)
    · rw [writeDeed?, writeDeed?, hf, hg]
    · rw [writeDeed?, writeDeed?, hf, hg, Option.map_some, Option.map_some, hfg.current_eq]

theorem deed?_eq (a : Action) : a.deed? σ = a.deed? τ := by
  cases a with
  | write t mode name v => exact h.writeDeed?_eq t mode name v
  | writeMember t name v => exact h.writeDeed?_eq t .assign name (Value.ofHost v)
  | newChild x y => rw [Action.deed?, Action.deed?, h.handles_eq]
  | wrap x y => rw [Action.deed?, Action.deed?, h.owned_eq]
  | enterClosure x y z =>
    obtain ⟨hf, hg⟩ | ⟨f, g, hf, hg, hfg⟩ := rel_cases (h.environments x) <;>
      simp only [Action.deed?, hf, hg, h.handles_eq, h.heap_eq, Option.bind_none, Option.bind_some]
    rw [hfg.policy_eq]
  | openBlock x =>
    obtain ⟨hf, hg⟩ | ⟨f, g, hf, hg, hfg⟩ := rel_cases (h.environments x) <;>
      simp only [Action.deed?, hf, hg, Option.bind_none, Option.bind_some]
    rw [hfg.policy_eq, hfg.depth_eq, hfg.current_eq]
  | _ => rfl

theorem scopeAt?_eq (p : Place) : σ.scopeAt? p = τ.scopeAt? p := by
  cases p with
  | shared x => rw [scopeAt?, scopeAt?, h.handles_eq, h.heap_eq]
  | owned x => rw [scopeAt?, scopeAt?, h.owned_eq]

theorem handle?_eq {a : Action} (ha : a.leavesOpen block τ) : a.handle? σ = a.handle? τ := by
  cases a with
  | newScope x => rw [Action.handle?, Action.handle?, h.heap_eq]
  | share x y | newChild x y | takeRoot x y =>
    simp only [Action.handle?, h.handles_eq, h.heap_eq]
  | takeParent p y => rw [Action.handle?, Action.handle?, h.scopeAt?_eq]
  | wrap x y => rw [Action.handle?, Action.handle?, h.owned_eq, h.heap_eq]
  | closeBlock x y =>
    cases y with
    | none => rfl
    | some y =>
      obtain ⟨hf, hg⟩ | ⟨f, g, hf, hg, hfg⟩ := rel_cases (h.environments x) <;>
        simp only [Action.handle?, hf, hg, Option.bind_none, Option.bind_some]
      rw [(hfg.closed (Action.head?_ne_of_leavesOpen ha hg)).1]
  | takeGlobal x y =>
    obtain ⟨hf, hg⟩ | ⟨f, g, hf, hg, hfg⟩ := rel_cases (h.environments x)
    · rw [Action.handle?, Action.handle?, hf, hg]
    · rw [Action.handle?, Action.handle?, hf, hg, Option.map_some, Option.map_some, hfg.global_eq]
  | takeCurrent x y =>
    obtain ⟨hf, hg⟩ | ⟨f, g, hf, hg, hfg⟩ := rel_cases (h.environments x)
    · rw [Action.handle?, Action.handle?, hf, hg]
    · rw [Action.handle?, Action.handle?, hf, hg, Option.map_some, Option.map_some, hfg.current_eq]
  | _ => rfl

theorem owned?_eq (a : Action) : a.owned? σ = a.owned? τ := by
  have hwrite : ∀ t mode name v, σ.writeOwned? t mode name v = τ.writeOwned? t mode name v := by
    intro t mode name v
    match t with
    | .place (.shared x) => rfl
    | .environment x => rfl
    | .place (.owned x) => rw [writeOwned?, writeOwned?, h.owned_eq, h.heap_eq]
  cases a with
  | write t mode name v => exact hwrite t mode name v
  | writeMember t name v => exact hwrite t .assign name (Value.ofHost v)
  | newOwnedInside x y => rw [Action.owned?, Action.owned?, h.handles_eq]
  | copyScope p y => rw [Action.owned?, Action.owned?, h.scopeAt?_eq]
  | wrap x y => rw [Action.owned?, Action.owned?, h.owned_eq]
  | _ => rfl

/-- Both sides bind the same environment, up to the bottom of its stack. -/
theorem environment?_rel {a : Action} (ha : a.leavesOpen block τ) :
    Rebinding.Agrees (Environment.SameOrTop block) (a.environment? σ) (a.environment? τ) := by
  have hsame : a.environment? σ = a.environment? τ →
      Rebinding.Agrees (Environment.SameOrTop block) (a.environment? σ) (a.environment? τ) := by
    intro heq
    rw [heq]
    exact rel_self fun c _ => ⟨rfl, rel_self fun f _ => .inl rfl⟩
  cases a with
  | newEnvironment limits x =>
    refine hsame ?_
    simp only [Action.environment?, Environment.create, Arena.add,
      show σ.arena.heap = τ.arena.heap from h.heap_eq]
  | newEnvironmentOver x limits y =>
    exact hsame (by rw [Action.environment?, Action.environment?, h.handles_eq, h.heap_eq])
  | callFrom x y =>
    refine hsame ?_
    obtain ⟨hf, hg⟩ | ⟨f, g, hf, hg, hfg⟩ := rel_cases (h.environments x)
    · rw [Action.environment?, Action.environment?, hf, hg]
      rfl
    · rw [Action.environment?, Action.environment?, hf, hg, Option.map_some, Option.map_some,
        h.heap_eq, hfg.child_eq]
  | enterClosure x y z =>
    refine hsame ?_
    obtain ⟨hf, hg⟩ | ⟨f, g, hf, hg, hfg⟩ := rel_cases (h.environments x) <;>
      simp only [Action.environment?, hf, hg, h.handles_eq, h.heap_eq, Option.bind_none,
        Option.bind_some]
    simp only [hfg.policy_eq, hfg.frame_eq]
  | openBlock x =>
    obtain ⟨hf, hg⟩ | ⟨f, g, hf, hg, hfg⟩ := rel_cases (h.environments x) <;>
      simp only [Action.environment?, hf, hg, Option.bind_none, Option.bind_some]
    · exact .none
    · rw [hfg.policy_eq, hfg.depth_eq, h.heap_eq]
      cases g.policy.objection? (g.depth + 1) with
      | none => exact .some ⟨rfl, .some (hfg.opened _)⟩
      | some err => exact .none
  | closeBlock x y =>
    obtain ⟨hf, hg⟩ | ⟨f, g, hf, hg, hfg⟩ := rel_cases (h.environments x)
    · rw [Action.environment?, Action.environment?, hf, hg]
      exact .none
    · rw [Action.environment?, Action.environment?, hf, hg]
      exact .some ⟨rfl, .some (hfg.closed (Action.head?_ne_of_leavesOpen ha hg)).2⟩
  | _ => exact hsame rfl

end Session.Abridges

/-! ## 5. One action on both sides -/

theorem Arena.eventsSince_eq_drop (a : Arena) (n : Nat) :
    a.eventsSince n = a.events.toList.drop n := by
  simp [eventsSince, List.take_of_length_le]

theorem Session.unshown_marked (σ : Session) :
    σ.marked.arena.eventsSince σ.marked.shown = [] := by
  simp [marked, Arena.eventsSince]

/-- Actions show no events. -/
theorem Action.run_shown (a : Action) (σ : Session) : (a.run σ).1.shown = σ.shown := by
  by_cases ha : a.keepsContents σ
  · rw [run_eq ha]
    rfl
  · cases a with
    | store x y =>
      obtain ⟨s, i, -, -, -, hrun⟩ := Session.store_accepted ha
      rw [hrun]
    | _ => exact absurd rfl ha

/-- What the log has not shown grows by what an action reports. -/
theorem Action.unshown_run (a : Action) {σ : Session} (hσ : σ.shown ≤ σ.arena.events.size) :
    (a.run σ).1.arena.eventsSince (a.run σ).1.shown =
      σ.arena.eventsSince σ.shown ++ (a.event? σ).toList := by
  rw [run_shown, Arena.eventsSince_eq_drop, Arena.eventsSince_eq_drop, Session.events_run,
    Session.emitted_eq, List.drop_append_of_le_length (by simpa using hσ)]

theorem Action.shown_le_run (a : Action) {σ : Session} (hσ : σ.shown ≤ σ.arena.events.size) :
    (a.run σ).1.shown ≤ (a.run σ).1.arena.events.size := by
  have hevents := congrArg List.length (σ.events_run a)
  rw [List.length_append, Array.length_toList, Array.length_toList] at hevents
  rw [run_shown]
  omega

namespace Session.Abridges

variable {block : Handle} {σ τ : Session}

theorem keepsContents_eq (h : σ.Abridges block τ) (a : Action) :
    a.keepsContents σ = a.keepsContents τ := by
  cases a with
  | store x y => simp only [Action.keepsContents, h.owned_eq, h.handles_eq, h.heap_eq]
  | _ => rfl

/-- Scopes and the names of handles and scopes stay the same on both sides. -/
theorem run_rest (h : σ.Abridges block τ) {a : Action} (ha : a.leavesOpen block τ) :
    (a.run σ).1.heap = (a.run τ).1.heap ∧ (a.run σ).1.handles = (a.run τ).1.handles ∧
    (a.run σ).1.owned = (a.run τ).1.owned := by
  by_cases hσ : a.keepsContents σ
  · have hτ : a.keepsContents τ := h.keepsContents_eq a ▸ hσ
    rw [Action.run_heap hσ, Action.run_heap hτ, Action.run_handles hσ, Action.run_handles hτ,
      Action.run_owned hσ, Action.run_owned hτ, h.deed?_eq, h.handle?_eq ha, h.owned?_eq,
      h.heap_eq, h.handles_eq, h.owned_eq]
    exact ⟨rfl, rfl, rfl⟩
  · have hτ : ¬ a.keepsContents τ := h.keepsContents_eq a ▸ hσ
    cases a with
    | store x y =>
      obtain ⟨s, i, hs, hi, -, hrun⟩ := store_accepted hσ
      obtain ⟨s', i', hs', hi', -, hrun'⟩ := store_accepted hτ
      rw [h.owned_eq, hs'] at hs
      rw [h.handles_eq, hi'] at hi
      obtain rfl := Option.some.inj hs
      obtain rfl := Option.some.inj hi
      rw [hrun, hrun']
      exact ⟨congrArg (Store.write · i' s') h.heap_eq, h.handles_eq,
        congrArg (·.insert x Scope.empty) h.owned_eq⟩
    | _ => exact absurd rfl hσ

/-- **The step lemma**: an action that does not close the block keeps the two
sides as they are to each other. -/
theorem run (h : σ.Abridges block τ) {a : Action} (ha : a.leavesOpen block τ) :
    (a.run σ).1.Abridges block (a.run τ).1 where
  heap_eq := (h.run_rest ha).1
  handles_eq := (h.run_rest ha).2.1
  owned_eq := (h.run_rest ha).2.2
  environments x := by
    rw [Action.run_environments, Action.run_environments]
    exact Table.rebind_rel (h.environments x) (h.environment?_rel ha)
  unshown_eq := by
    rw [a.unshown_run h.shown_le, a.unshown_run h.shown_le', h.unshown_eq, h.event?_eq ha]
  shown_le := a.shown_le_run h.shown_le
  shown_le' := a.shown_le_run h.shown_le'

theorem marked (h : σ.Abridges block τ) : σ.marked.Abridges block τ.marked where
  heap_eq := h.heap_eq
  handles_eq := h.handles_eq
  owned_eq := h.owned_eq
  environments := h.environments
  unshown_eq := by rw [unshown_marked, unshown_marked]
  shown_le := Nat.le_refl _
  shown_le' := Nat.le_refl _

/-- **The run lemma**: moves that leave the block open are answered alike, and
keep the two sides as they are to each other. -/
theorem after (h : σ.Abridges block τ) {ms : List Move}
    (hms : τ.allActs (Action.leavesOpen block) ms) :
    (σ.after ms).Abridges block (τ.after ms) ∧ σ.answers ms = τ.answers ms := by
  induction ms generalizing σ τ with
  | nil => exact ⟨h, rfl⟩
  | cons m ms ih =>
    rw [after_cons, after_cons, answers_cons, answers_cons]
    cases m with
    | act a =>
      obtain ⟨ha, hrest⟩ := allActs_act.mp hms
      obtain ⟨hafter, hanswers⟩ := ih (h.run ha) hrest
      exact ⟨hafter, by rw [Move.reply?, Move.reply?, h.answer_eq ha, Move.run, Move.run, hanswers]⟩
    | mark =>
      obtain ⟨hafter, hanswers⟩ := ih h.marked hms
      exact ⟨hafter, congrArg _ hanswers⟩

/-! ## 6. Scripts on both sides -/

/-- Both sides write the same line into the log. -/
theorem enter_eq (h : σ.Abridges block τ) (detail : Detail) (answer : Answer) :
    (σ.enter detail answer).2 = (τ.enter detail answer).2 := by
  rw [enter, enter, h.snapshot_eq, h.unshown_eq]

/-- A block is opened on both sides or refused on both. -/
theorem openBlock (h : σ.Abridges block τ) (e : String) :
    (∃ r, (σ.openBlock e).2 = .error r ∧ (τ.openBlock e).2 = .error r) ∨
    (σ.openBlock e).2 = .ok () ∧ (τ.openBlock e).2 = .ok () := by
  obtain ⟨hf, hg⟩ | ⟨f, g, hf, hg, hfg⟩ := rel_cases (h.environments e)
  · rw [σ.openBlock_unknown e hf, τ.openBlock_unknown e hg]
    exact .inl ⟨_, rfl, rfl⟩
  · rw [σ.openBlock_eq e hf, τ.openBlock_eq e hg, hfg.policy_eq, hfg.depth_eq]
    rcases g.policy.objection? (g.depth + 1) with _ | ⟨depth, limit⟩
    · exact .inr ⟨rfl, rfl⟩
    · exact .inl ⟨_, rfl, rfl⟩

/-- A guard ends alike on both sides. -/
theorem leaveBlock_eq (h : σ.Abridges block τ) {e : String} (catches : Bool) (log : List Entry)
    (panic : Option String) (ha : (Action.closeBlock e none).leavesOpen block τ) :
    (leaveBlock e catches ⟨σ, log, panic⟩).2 = (leaveBlock e catches ⟨τ, log, panic⟩).2 := by
  unfold leaveBlock
  obtain ⟨hf, hg⟩ | ⟨f, g, hf, hg, hfg⟩ := rel_cases (h.environments e)
  · cases panic <;> cases catches <;> simp [hf, hg, misuse]
  · have hdepth := (hfg.closed (Action.head?_ne_of_leavesOpen ha hg)).2.depth_eq
    cases panic <;> cases catches <;> simp [hf, hg, closeBlock_eq, hfg.depth_eq, hdepth]

end Session.Abridges

/-- Rounds run alike on both sides if their body does. -/
theorem Session.repeat_abridged {block : Handle} {body : Session → Stretch}
    {moves : Session → List Move} (hsession : ∀ σ, (body σ).session = σ.after (moves σ))
    (hbody : ∀ σ τ, σ.Abridges block τ → τ.allActs (Action.leavesOpen block) (moves τ) →
      moves σ = moves τ ∧ (body σ).log = (body τ).log ∧ (body σ).panic = (body τ).panic)
    (n : Nat) {σ τ : Session} (h : σ.Abridges block τ)
    (hmoves : τ.allActs (Action.leavesOpen block) (repeatMoves body moves n τ))
    (last : List Entry) :
    repeatMoves body moves n σ = repeatMoves body moves n τ ∧
    (repeatBody body n σ last).log = (repeatBody body n τ last).log ∧
    (repeatBody body n σ last).panic = (repeatBody body n τ last).panic := by
  induction n generalizing σ τ last with
  | zero => exact ⟨rfl, rfl, rfl⟩
  | succ n ih =>
    rw [repeatMoves, allActs_append] at hmoves
    obtain ⟨hfirst, hlater⟩ := hmoves
    obtain ⟨hmoves, hlog, hpanic⟩ := hbody σ τ h hfirst
    have hafter := (h.after hfirst).1
    have hσ := hsession σ
    have hτ := hsession τ
    rw [repeatMoves, repeatMoves, repeatBody, repeatBody, hmoves]
    rw [hmoves] at hσ
    generalize body σ = done at hlog hpanic hσ ⊢
    generalize body τ = done' at hlog hpanic hτ hlater ⊢
    obtain ⟨σ', log, panic⟩ := done
    obtain ⟨τ', log', panic'⟩ := done'
    obtain rfl : σ' = σ.after (moves τ) := hσ
    obtain rfl : τ' = τ.after (moves τ) := hτ
    obtain rfl : log = log' := hlog
    obtain rfl : panic = panic' := hpanic
    cases panic with
    | none =>
      obtain ⟨hrest, hlog, hpanic⟩ := ih hafter hlater log
      exact ⟨congrArg _ hrest, hlog, hpanic⟩
    | some message => exact ⟨rfl, rfl, rfl⟩

mutual

theorem Step.run_abridged {block : Handle} (detail : Detail) : ∀ (s : Step) (σ τ : Session),
    σ.Abridges block τ → τ.allActs (Action.leavesOpen block) (Step.moves detail s τ) →
    Step.moves detail s σ = Step.moves detail s τ ∧
    (Step.run detail s σ).2 = (Step.run detail s τ).2
  | .act a, σ, τ, h, hmoves =>
    ⟨rfl, congrArg Outcome.answered (h.answer_eq (Session.allActs_act.mp hmoves).1)⟩
  | .block e catches body, σ, τ, h, hmoves => by
    rw [Step.moves, Session.allActs_act] at hmoves
    have hopen := h.run hmoves.1
    rw [Session.run_openBlock, Session.run_openBlock] at hopen
    rw [Session.run_openBlock] at hmoves
    have hgranted := h.openBlock e
    rw [Step.moves, Step.moves, Step.run, Step.run]
    generalize σ.openBlock e = opened at hopen hgranted ⊢
    generalize τ.openBlock e = opened' at hopen hgranted hmoves ⊢
    obtain ⟨σ', r?⟩ := opened
    obtain ⟨τ', r'?⟩ := opened'
    rcases hgranted with ⟨r, rfl, rfl⟩ | ⟨rfl, rfl⟩
    · exact ⟨rfl, rfl⟩
    · obtain ⟨hinner, hclose⟩ := Session.allActs_append.mp hmoves.2
      obtain ⟨hbody, hlog, hpanic⟩ := Step.runAll_abridged detail body σ' τ' hopen hinner
      have hafter := (hopen.after hinner).1
      rw [← hbody, ← Step.runAll_session, hbody, ← Step.runAll_session] at hafter
      rw [← Step.runAll_session] at hclose
      dsimp only
      rw [hbody]
      generalize Step.runAll detail body σ' = done at hlog hpanic hafter ⊢
      generalize Step.runAll detail body τ' = done' at hlog hpanic hafter hclose ⊢
      obtain ⟨σ'', log, panic⟩ := done
      obtain ⟨τ'', log', panic'⟩ := done'
      obtain rfl : log = log' := hlog
      obtain rfl : panic = panic' := hpanic
      exact ⟨rfl, hafter.leaveBlock_eq catches log panic (Session.allActs_act.mp hclose).1⟩
  | .rounds n body, σ, τ, h, hmoves => by
    obtain ⟨hrounds, hlog, hpanic⟩ := Session.repeat_abridged (Step.runAll_session detail body)
      (Step.runAll_abridged detail body) n h hmoves []
    refine ⟨hrounds, ?_⟩
    rw [Step.run, Step.run, Stretch.ofRounds, Stretch.ofRounds, hlog, hpanic]
    cases (Session.repeatBody (Step.runAll detail body) n τ []).panic <;> rfl
  | .panic message, σ, τ, _, _ => ⟨rfl, rfl⟩

/-- **Scripts run alike** on both sides: they make the same moves, write the
same log and end in the same panic. -/
theorem Step.runAll_abridged {block : Handle} (detail : Detail) : ∀ (script : List Step)
    (σ τ : Session), σ.Abridges block τ →
    τ.allActs (Action.leavesOpen block) (Step.movesAll detail script τ) →
    Step.movesAll detail script σ = Step.movesAll detail script τ ∧
    (Step.runAll detail script σ).log = (Step.runAll detail script τ).log ∧
    (Step.runAll detail script σ).panic = (Step.runAll detail script τ).panic
  | [], _, _, _, _ => ⟨rfl, rfl, rfl⟩
  | s :: rest, σ, τ, h, hmoves => by
    rw [Step.movesAll, Session.allActs_append] at hmoves
    obtain ⟨hfirst, hlater⟩ := hmoves
    obtain ⟨hstep, hanswer⟩ := Step.run_abridged detail s σ τ h hfirst
    have hafter := (h.after hfirst).1
    have hσ := Step.run_session detail s σ
    have hτ := Step.run_session detail s τ
    rw [hstep] at hσ
    rw [Step.movesAll, Step.movesAll, Step.runAll, Step.runAll, hstep]
    generalize Step.run detail s σ = done at hanswer hσ ⊢
    generalize Step.run detail s τ = done' at hanswer hτ hlater ⊢
    obtain ⟨σ', outcome⟩ := done
    obtain ⟨τ', outcome'⟩ := done'
    obtain rfl : σ' = σ.after (Step.moves detail s τ) := hσ
    obtain rfl : τ' = τ.after (Step.moves detail s τ) := hτ
    obtain rfl : outcome = outcome' := hanswer
    cases outcome with
    | panicked message => exact ⟨rfl, rfl, rfl⟩
    | answered a =>
      obtain ⟨hrest, hlog, hpanic⟩ :=
        Step.runAll_abridged detail rest _ _ hafter.marked hlater
      exact ⟨congrArg (_ ++ .mark :: ·) hrest,
        congrArg₂ List.cons (hafter.enter_eq detail a) hlog, hpanic⟩

end

/-! ## 7. Entering and opening -/

/-- The frame of a closure captured from the current scope is the top of the
environment that opens a block there instead. -/
theorem Environment.Mirrors.frame_topOf {env : Environment} {heap : Heap} (h : env.Mirrors heap)
    (hac : heap.Acyclic) (block : Handle) :
    (env.frame heap env.current block).TopOf block (env.opened block) where
  base_eq := rfl
  blocks_prefix := ⟨env.blocks, rfl⟩
  depth_eq := by rw [depth_opened, h.depth_eq hac]; rfl
  global_eq := (h.global_eq_root hac).symm
  policy_eq := rfl

theorem Session.opened_eq {σ : Session} {e : String} {env : Environment}
    (he : σ.environments[e]? = some env) : (Action.openBlock e).run σ =
    match env.policy.objection? (env.depth + 1) with
    | some (.depthExceeded depth limit) =>
      ({ σ with arena := σ.arena.report (.limitReached depth limit) },
        .refused (.nesting (.depthExceeded depth limit)))
    | none => ({ σ with
        arena := (σ.arena.add (Scope.inside env.current)).1.report (.blockOpened (env.depth + 1))
        environments := σ.environments.insert e (env.opened ⟨σ.heap.size⟩) }, .opened) := by
  rw [Action.run, σ.openBlock_eq e he]
  rcases env.policy.objection? (env.depth + 1) with _ | ⟨depth, limit⟩ <;> rfl

section

variable {σ : Session} {e h : String} {env : Environment} (he : σ.environments[e]? = some env)
  (hh : σ.handles[h]? = some env.current) (hσ : σ.Sound)
include he hh hσ

/-- The policy is asked for the same depth either way. -/
theorem Session.Sound.entered_eq : (Action.enterClosure e h e).run σ =
    match env.policy.objection? (env.depth + 1) with
    | some (.depthExceeded depth limit) =>
      ({ σ with arena := σ.arena.report (.limitReached depth limit) },
        .refused (.nesting (.depthExceeded depth limit)))
    | none => ({ σ with
        arena := (σ.arena.add (Scope.inside env.current)).1.report (.closureEntered (env.depth + 1))
        environments := σ.environments.insert e (env.frame σ.heap env.current ⟨σ.heap.size⟩) },
        .opened) := by
  have hrun := σ.enterClosure_eq e h e he hh
  rw [← (hσ.mirrors he).depth_eq hσ.acyclic] at hrun
  exact hrun

/-- With the event of the entry shown, the session that entered the closure
abridges the one that opened the block. -/
theorem Session.Sound.entered_abridges (hp : env.policy.Admits (env.depth + 1)) :
    ((Action.enterClosure e h e).run σ).1.marked.Abridges ⟨σ.heap.size⟩
      ((Action.openBlock e).run σ).1.marked := by
  have hnone := Policy.objection?_eq_none_iff.mpr hp
  rw [hσ.entered_eq he hh, Session.opened_eq he, hnone]
  have htop := (hσ.mirrors he).frame_topOf hσ.acyclic ⟨σ.heap.size⟩
  refine ⟨rfl, rfl, rfl, fun x => ?_, ?_, Nat.le_refl _, Nat.le_refl _⟩
  · exact Table.rebind_rel (c := some (e, some _)) (d := some (e, some _))
      (rel_self fun f _ => .inl rfl) (.some ⟨rfl, .some (.inr htop)⟩)
  · rw [Session.unshown_marked, Session.unshown_marked]

end

/-- **Entering a closure on the spot is opening a block.** Take any environment
`e` at a point that is reached without replacing a scope, and capture its
current scope under the name `h`. From there either enter the closure, with
the frame in place of `e`, or open a block of `e`.

* Both get the same answer. If the policy is against it, that is the depth
  that both ask for and the limit, and both sessions are the same.
* Otherwise both stand on the same new scope, with the same depth, global
  scope and policy.
* Any script that goes on from there, scopes replaced and everything else
  included, as long as it leaves the new block open, makes the same moves in
  both, writes the same log and ends in the same panic or in none. At every
  point of it the answers so far are the same, every scope has the same
  bindings and parent, and every handle and owned scope is the same. -/
theorem entering_is_opening {ms : List Move}
    (hms : Session.empty.allActs Action.keepsContents ms) {e : String} {env : Environment}
    (he : (Session.empty.after ms).environments[e]? = some env) (h : String) :
    let σ := ((Action.takeCurrent e h).run (Session.empty.after ms)).1
    let entered := (Action.enterClosure e h e).run σ
    let opened := (Action.openBlock e).run σ
    let block : Handle := ⟨σ.heap.size⟩
    entered.2 = opened.2 ∧
    (∀ limit, env.policy.maxDepth = some limit → limit < env.depth + 1 →
      entered.2 = .refused (.nesting (.depthExceeded (env.depth + 1) limit)) ∧
      entered.1 = opened.1) ∧
    (env.policy.Admits (env.depth + 1) →
      entered.2 = .opened ∧
      (∃ f g, entered.1.environments[e]? = some f ∧ opened.1.environments[e]? = some g ∧
        f.current = block ∧ g.current = block ∧ f.depth = g.depth ∧ f.global = g.global ∧
        f.policy = g.policy) ∧
      ∀ (detail : Detail) (script : List Step),
        let left := entered.1.marked
        let right := opened.1.marked
        let moves := Step.movesAll detail script right
        right.allActs (Action.leavesOpen block) moves →
        Step.movesAll detail script left = moves ∧
        (Step.runAll detail script left).log = (Step.runAll detail script right).log ∧
        (Step.runAll detail script left).panic = (Step.runAll detail script right).panic ∧
        ∀ ns, ns <+: moves →
          left.answers ns = right.answers ns ∧
          (left.after ns).heap = (right.after ns).heap ∧
          (left.after ns).handles = (right.after ns).handles ∧
          (left.after ns).owned = (right.after ns).owned) := by
  intro σ entered opened block
  have hstart : (Session.empty.after ms).Sound := Session.sound_empty.after hms
  have hσ : σ.Sound := hstart.run (a := .takeCurrent e h) rfl
  have he' : σ.environments[e]? = some env := by
    rw [Action.run_environments]
    exact he
  have hh : σ.handles[h]? = some env.current := by
    rw [Action.run_handles rfl]
    simp only [Action.handle?, he, Option.map_some]
    exact Table.getElem?_rebind_self _ h _
  have hentered := hσ.entered_eq he' hh
  have hopened := Session.opened_eq he'
  refine ⟨?_, fun limit hp hlt => ?_, fun hp => ?_⟩
  · simp only [entered, opened, hentered, hopened]
    rcases env.policy.objection? (env.depth + 1) with _ | ⟨depth, limit⟩ <;> rfl
  · rw [Policy.objection?_of_lt hp hlt] at hentered hopened
    exact ⟨congrArg Prod.snd hentered, (congrArg Prod.fst hentered).trans
      (congrArg Prod.fst hopened).symm⟩
  have htop := (hσ.mirrors he').frame_topOf hσ.acyclic block
  have habridges := hσ.entered_abridges he' hh hp
  rw [Policy.objection?_eq_none_iff.mpr hp] at hentered hopened
  refine ⟨congrArg Prod.snd hentered, ⟨env.frame σ.heap env.current block, env.opened block,
    ?_, ?_, rfl, rfl, htop.depth_eq, htop.global_eq, htop.policy_eq⟩, ?_⟩
  · simp only [entered, hentered]
    exact Table.getElem?_rebind_self σ.environments e (some _)
  · simp only [opened, hopened]
    exact Table.getElem?_rebind_self σ.environments e (some _)
  · intro detail script left right moves hmoves
    obtain ⟨hsame, hlog, hpanic⟩ := Step.runAll_abridged detail script left right habridges hmoves
    refine ⟨hsame, hlog, hpanic, fun ns hns => ?_⟩
    obtain ⟨later, hlater⟩ := hns
    rw [← hlater, Session.allActs_append] at hmoves
    obtain ⟨hafter, hanswers⟩ := habridges.after hmoves.1
    exact ⟨hanswers, hafter.heap_eq, hafter.handles_eq, hafter.owned_eq⟩

/-- A declaration, a guarded block, and a read. -/
def declaringRun : List Step :=
  [.act (.write (.environment "e") .declare "n" .nil),
    .block "e" true [.act (.openBlock "e"), .panic "p"],
    .act (.read (.environment "e") .binding "n")]

theorem entering_is_opening_declaringRun :
    let ms : List Move := [.act (.newEnvironment ⟨some 3⟩ "e")]
    let σ := ((Action.takeCurrent "e" "h").run (Session.empty.after ms)).1
    let left := ((Action.enterClosure "e" "h" "e").run σ).1.marked
    let right := ((Action.openBlock "e").run σ).1.marked
    let moves := Step.movesAll ⟨false, true⟩ declaringRun right
    Session.empty.allActs Action.keepsContents ms ∧
    ((Action.enterClosure "e" "h" "e").run σ).2 = .opened ∧
    ((Action.openBlock "e").run σ).2 = .opened ∧
    right.allActs (Action.leavesOpen ⟨1⟩) moves ∧
    (Step.runAll ⟨false, true⟩ declaringRun left).log =
      (Step.runAll ⟨false, true⟩ declaringRun right).log ∧
    (left.after moves).heap = (right.after moves).heap := by
  intro ms σ left right moves
  have hms : Session.empty.allActs Action.keepsContents ms := rfl
  have he : (Session.empty.after ms).environments["e"]? =
      some ⟨⟨0⟩, [], ⟨0⟩, 1, ⟨some 3⟩⟩ := by decide
  have hmoves : right.allActs (Action.leavesOpen ⟨1⟩) moves := by decide
  obtain ⟨hanswer, -, hgranted⟩ := entering_is_opening hms he "h"
  obtain ⟨hopened, -, hruns⟩ := hgranted (Policy.objection?_eq_none_iff.mp rfl)
  obtain ⟨-, hlog, -, hpoints⟩ := hruns ⟨false, true⟩ declaringRun hmoves
  obtain ⟨-, hheap, -⟩ := hpoints moves (List.prefix_refl _)
  exact ⟨hms, hopened, hanswer.symm.trans hopened, hmoves, hlog, hheap⟩

end ScopeChain

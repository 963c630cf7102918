/-
ScopeChain.Proofs.StackMirror — the stack of an environment is the inner
end of a chain.

An environment keeps three things that the heap could tell it as well: the
scopes it has opened, the depth of its base, and the root above it. They
are settled when it is made or when a block is opened, and then the heap
goes on changing under it, through other environments too. `Mirrors` says
that they are still what the heap would tell.

The invariant of sessions, `Session.Sound`, has that for every
environment, and what it takes to keep it: the heap is acyclic, and the
tables hold handles of cells only. Every action that replaces no scope
preserves it (`Session.Sound.run`), whichever environment it is done
through, because such an action leaves parents alone. So it holds at every
point of a run, and `environment_mirrors_chain` reads off what follows for
an environment at that point.
-/
import Mathlib.Data.List.Chain
import ScopeChain.Proofs.Acyclicity

namespace ScopeChain

namespace Environment

/-! ## 1. Environments by their blocks -/

/-- Every environment has no block open or is one with a block more. -/
theorem block_induction {P : Environment → Prop} (hbase : ∀ e, e.blocks = [] → P e)
    (hopen : ∀ e i, P e → P (e.opened i)) (e : Environment) : P e := by
  obtain ⟨base, blocks, global, baseDepth, policy⟩ := e
  induction blocks with
  | nil => exact hbase _ rfl
  | cons i rest ih => exact hopen ⟨base, rest, global, baseDepth, policy⟩ i ih

@[simp] theorem frames_opened (e : Environment) (i : Handle) :
    (e.opened i).frames = i :: e.frames := rfl

@[simp] theorem current_opened (e : Environment) (i : Handle) : (e.opened i).current = i := rfl

@[simp] theorem depth_opened (e : Environment) (i : Handle) :
    (e.opened i).depth = e.depth + 1 := rfl

theorem frames_of_blocks_nil {e : Environment} (h : e.blocks = []) : e.frames = [e.base] := by
  rw [frames, h, List.nil_append]

theorem current_of_blocks_nil {e : Environment} (h : e.blocks = []) : e.current = e.base := by
  rw [current, h, List.headD_nil]

theorem depth_of_blocks_nil {e : Environment} (h : e.blocks = []) : e.depth = e.baseDepth := by
  rw [depth, h, List.length_nil, Nat.add_zero]

theorem closed_of_blocks_nil {e : Environment} (h : e.blocks = []) : e.closed = e := by
  obtain ⟨base, blocks, global, baseDepth, policy⟩ := e
  obtain rfl : blocks = [] := h
  rfl

/-! ## 2. Mirroring a chain -/

/-- What the environment keeps is what the heap would tell: its frames are
linked by parents, and the root and the depth of its base are those it was
made with. -/
structure Mirrors (e : Environment) (heap : Heap) : Prop where
  lt_size : ∀ i ∈ e.frames, i.index < heap.size
  links : e.frames.IsChain fun inner outer => (heap.scope inner).parent = some outer
  global_eq : e.global = heap.root e.base
  baseDepth_eq : e.baseDepth = heap.depth e.base

section Mirrors

variable {e : Environment} {heap later : Heap} {i : Handle}

theorem Mirrors.current_lt (h : e.Mirrors heap) : e.current.index < heap.size :=
  h.lt_size _ e.current_mem_frames

theorem Mirrors.base_lt (h : e.Mirrors heap) : e.base.index < heap.size :=
  h.lt_size _ (List.mem_append_right _ List.mem_cons_self)

theorem Mirrors.global_lt (h : e.Mirrors heap) (hac : heap.Acyclic) :
    e.global.index < heap.size := by
  rw [h.global_eq]
  exact hac.root_lt h.base_lt

theorem mirrors_of_blocks_nil (hb : e.blocks = []) (hlt : e.base.index < heap.size)
    (hg : e.global = heap.root e.base) (hd : e.baseDepth = heap.depth e.base) :
    e.Mirrors heap := by
  have hframes := frames_of_blocks_nil hb
  refine ⟨fun k hk => ?_, ?_, hg, hd⟩
  · rw [hframes, List.mem_singleton] at hk
    exact hk ▸ hlt
  · rw [hframes]
    exact .singleton _

/-- One block more mirrors the chain exactly if its scope is a child of the
current one. -/
theorem mirrors_opened_iff :
    (e.opened i).Mirrors heap ↔
      i.index < heap.size ∧ (heap.scope i).parent = some e.current ∧ e.Mirrors heap := by
  obtain ⟨outer, hframes⟩ := e.frames_eq_cons
  constructor
  · intro h
    have hlinks := h.links
    rw [frames_opened, hframes, List.isChain_cons_cons, ← hframes] at hlinks
    exact ⟨h.current_lt, hlinks.1, fun k hk => h.lt_size k (List.mem_cons_of_mem _ hk),
      hlinks.2, h.global_eq, h.baseDepth_eq⟩
  · rintro ⟨hlt, hparent, h⟩
    refine ⟨fun k hk => ?_, ?_, h.global_eq, h.baseDepth_eq⟩
    · rcases List.mem_cons.mp hk with rfl | hk
      · exact hlt
      · exact h.lt_size k hk
    · rw [frames_opened, hframes, List.isChain_cons_cons, ← hframes]
      exact ⟨hparent, h.links⟩

/-- The depth an environment counts is that of its current scope. -/
theorem Mirrors.depth_eq (h : e.Mirrors heap) (hac : heap.Acyclic) :
    e.depth = heap.depth e.current := by
  induction e using block_induction with
  | hbase e hb => rw [depth_of_blocks_nil hb, current_of_blocks_nil hb, h.baseDepth_eq]
  | hopen e i ih =>
    obtain ⟨hlt, hparent, h⟩ := mirrors_opened_iff.mp h
    rw [depth_opened, current_opened, hac.depth_of_parent hlt hparent, ih h]

/-- The root an environment remembers is that of its current scope. -/
theorem Mirrors.global_eq_root (h : e.Mirrors heap) (hac : heap.Acyclic) :
    e.global = heap.root e.current := by
  induction e using block_induction with
  | hbase e hb => rw [current_of_blocks_nil hb, h.global_eq]
  | hopen e i ih =>
    obtain ⟨hlt, hparent, h⟩ := mirrors_opened_iff.mp h
    rw [current_opened, hac.root_of_parent hlt hparent, ← ih h]
    rfl

/-- The frames are the inner end of the chain of the current scope. -/
theorem Mirrors.frames_prefix (h : e.Mirrors heap) (hac : heap.Acyclic) :
    e.frames <+: heap.chain e.current := by
  induction e using block_induction with
  | hbase e hb =>
    rw [frames_of_blocks_nil hb, current_of_blocks_nil hb, hac.chain_eq h.base_lt]
    exact ⟨_, rfl⟩
  | hopen e i ih =>
    obtain ⟨hlt, hparent, h⟩ := mirrors_opened_iff.mp h
    rw [frames_opened, current_opened, hac.chain_of_parent hlt hparent]
    exact (List.prefix_cons_inj i).mpr (ih h)

/-! ## 3. What preserves it -/

theorem Mirrors.grow (h : e.Mirrors heap) (hac : heap.Acyclic) (hg : Heap.Grows heap later) :
    e.Mirrors later where
  lt_size k hk := hg.lt_size (h.lt_size k hk)
  links := h.links.imp_of_mem_imp fun k l hk _ hl => by
    rw [hg.parent_eq k (h.lt_size k hk)]
    exact hl
  global_eq := by rw [h.global_eq, hac.root_grow hg h.base_lt]
  baseDepth_eq := by rw [h.baseDepth_eq, hac.depth_grow hg h.base_lt]

theorem mirrors_ofScope (hi : i.index < heap.size) (policy : Policy) :
    (ofScope heap i policy).Mirrors heap :=
  mirrors_of_blocks_nil rfl hi rfl rfl

theorem Mirrors.child (h : e.Mirrors heap) (hac : heap.Acyclic) : (e.child heap).Mirrors heap :=
  mirrors_ofScope (h.global_lt hac) e.policy

theorem Mirrors.closed (h : e.Mirrors heap) : e.closed.Mirrors heap := by
  induction e using block_induction with
  | hbase e hb => rwa [closed_of_blocks_nil hb]
  | hopen e i _ => exact (mirrors_opened_iff.mp h).2.2

theorem mirrors_create (a : Arena) (policy : Policy) :
    (create a policy).1.Mirrors (a.heap.add Scope.empty).1 :=
  mirrors_ofScope (Heap.new_lt_size_add a.heap Scope.empty) policy

theorem Mirrors.opened_add (h : e.Mirrors heap) (hac : heap.Acyclic) :
    (e.opened ⟨heap.size⟩).Mirrors (heap.add (Scope.inside e.current)).1 := by
  have hgrown := h.grow hac (Heap.grows_add heap (Scope.inside e.current))
  refine mirrors_opened_iff.mpr ⟨Heap.new_lt_size_add heap _, ?_, hgrown⟩
  rw [Heap.scope_add_new]
  rfl

theorem mirrors_frame_add (e : Environment) (hac : heap.Acyclic) (hi : i.index < heap.size) :
    (e.frame heap i ⟨heap.size⟩).Mirrors (heap.add (Scope.inside i)).1 := by
  have hs : ∀ p ∈ (Scope.inside i).parent, p.index < heap.size := by
    rintro p ⟨⟩
    exact hi
  have hlt := Heap.new_lt_size_add heap (Scope.inside i)
  have hparent : ((heap.add (Scope.inside i)).1.scope ⟨heap.size⟩).parent = some i := by
    rw [Heap.scope_add_new]
    rfl
  have hg := Heap.grows_add heap (Scope.inside i)
  have hac' := hac.add hs
  refine mirrors_of_blocks_nil rfl hlt ?_ ?_
  · exact (hac.root_grow hg hi).symm.trans (hac'.root_of_parent hlt hparent).symm
  · refine Eq.trans ?_ (hac'.depth_of_parent hlt hparent).symm
    exact congrArg (· + 1) (hac.depth_grow hg hi).symm

/-! ## 4. What follows from it -/

/-- A write to the root through the environment goes to the root it
remembers, and to nothing else. -/
theorem Mirrors.write_global {a : Arena} (h : e.Mirrors a.heap) (hac : a.heap.Acyclic)
    (name : String) (v : Value) :
    (e.write a .global name v).heap = a.heap.bindAt e.global name v := by
  rw [h.global_eq_root hac]
  rfl

theorem Mirrors.depth_child (h : e.Mirrors heap) (hac : heap.Acyclic) :
    (e.child heap).depth = 1 := by
  show heap.depth e.global = 1
  rw [h.global_eq]
  exact hac.depth_root h.base_lt

theorem Mirrors.global_child (h : e.Mirrors heap) (hac : heap.Acyclic) :
    (e.child heap).global = e.global := by
  show heap.root e.global = e.global
  rw [h.global_eq]
  exact hac.root_root h.base_lt

end Mirrors

end Environment

/-! ## 5. Sessions -/

namespace Session

/-- The heap is acyclic, the tables hold handles of cells, and every
environment mirrors its chain. -/
structure Sound (σ : Session) : Prop where
  acyclic : σ.heap.Acyclic
  handle_lt : ∀ {x : String} {i : Handle}, σ.handles[x]? = some i → i.index < σ.heap.size
  parent_lt : ∀ {x : String} {s : Scope}, σ.owned[x]? = some s →
    ∀ i ∈ s.parent, i.index < σ.heap.size
  mirrors : ∀ {x : String} {e : Environment}, σ.environments[x]? = some e → e.Mirrors σ.heap

theorem sound_empty : Session.empty.Sound where
  acyclic := Heap.acyclic_empty
  handle_lt h := by simp [Session.empty] at h
  parent_lt h := by simp [Session.empty] at h
  mirrors h := by simp [Session.empty] at h

variable {σ : Session}

theorem Sound.marked (h : σ.Sound) : σ.marked.Sound :=
  ⟨h.acyclic, h.handle_lt, h.parent_lt, h.mirrors⟩

theorem Sound.formed (h : σ.Sound) : σ.Formed where
  acyclic := h.acyclic
  handle_lt := h.handle_lt
  parent_lt := h.parent_lt
  held_lt he k hk := by
    rcases Environment.mem_held.mp hk with hk | rfl
    · exact (h.mirrors he).lt_size k hk
    · exact (h.mirrors he).global_lt h.acyclic

/-- **The step lemma**: an action that replaces no scope keeps a session
sound. -/
theorem Sound.run (h : σ.Sound) {a : Action} (ha : a.keepsContents σ) : (a.run σ).1.Sound := by
  have hformed := h.formed.run a
  refine ⟨hformed.acyclic, hformed.handle_lt, hformed.parent_lt, fun {x e} hx => ?_⟩
  have hheap := Action.run_heap ha
  rw [Action.run_environments] at hx
  rw [hheap]
  rcases Table.getElem?_rebind_cases hx with hx | hx
  · -- what was there sees the heap grow
    exact (h.mirrors hx).grow h.acyclic (σ.heap.grows_perform _)
  · cases Action.environment?_makes hx with
    | created limits => exact Environment.mirrors_create σ.arena limits
    | placed limits hi => exact Environment.mirrors_ofScope (h.handle_lt hi) limits
    | called he => exact (h.mirrors he).child h.acyclic
    | @entered _ _ env _ he hi hp =>
      rw [Action.deed?_enterClosure he hi hp]
      exact Environment.mirrors_frame_add env h.acyclic (h.handle_lt hi)
    | opened he hp =>
      rw [Action.deed?_openBlock he hp]
      exact (h.mirrors he).opened_add h.acyclic
    | closed he name => exact (h.mirrors he).closed

/-- **The run lemma**: a session stays sound as long as no scope is
replaced. -/
theorem Sound.after (h : σ.Sound) {ms : List Move} (hms : σ.allActs Action.keepsContents ms) :
    (σ.after ms).Sound :=
  after_induction (fun _ _ ha h => h.run ha) (fun _ h => h.marked) hms h

end Session

/-- A point of a run up to which no scope was replaced: moves that the script
makes first, with the actions among them keeping contents. -/
structure Step.Intact (detail : Detail) (script : List Step) (ms : List Move) : Prop where
  of_run : ms <+: Step.movesAll detail script Session.empty
  keeps : Session.empty.allActs Action.keepsContents ms

/-- **Environments mirror their chains.** As long as a run replaces no scope,
every environment at every point of it has a stack, linked by parents; the
chain that really starts at its current scope has the length it counts
and ends in the root it remembers. So a write to the root through it lands
in its global scope, and a function call from it starts at depth 1 on the
same global scope. -/
theorem environment_mirrors_chain {detail : Detail} {script : List Step} {ms : List Move}
    (h : Step.Intact detail script ms) {x : String} {e : Environment}
    (he : (Session.empty.after ms).environments[x]? = some e) :
    let σ := Session.empty.after ms
    e.frames ≠ [] ∧
    e.frames.IsChain (fun inner outer => (σ.heap.scope inner).parent = some outer) ∧
    (∃ path, σ.heap.IsPath (some e.current) path ∧ e.frames <+: path ∧
      path.length = e.depth ∧ path.getLast? = some e.global) ∧
    e.depth = σ.heap.depth e.current ∧
    e.global = σ.heap.root e.current ∧
    (∀ name v, (e.write σ.arena .global name v).heap = σ.heap.bindAt e.global name v ∧
      ((σ.heap.bindAt e.global name v).scope e.global).find? name = some v) ∧
    (e.child σ.heap).depth = 1 ∧
    (e.child σ.heap).global = e.global := by
  intro σ
  have hσ : σ.Sound := Session.sound_empty.after h.keeps
  have hac := hσ.acyclic
  have hm : e.Mirrors σ.heap := hσ.mirrors he
  have hpath := hac.isPath_chain hm.current_lt
  have hdepth := hm.depth_eq hac
  have hglobal := hm.global_eq_root hac
  have hnonempty : e.frames ≠ [] := List.ne_nil_of_mem e.current_mem_frames
  refine ⟨hnonempty, hm.links, ⟨_, hpath, hm.frames_prefix hac, ?_, ?_⟩, hdepth, hglobal,
    fun name v => ⟨hm.write_global hac name v, ?_⟩, hm.depth_child hac, hm.global_child hac⟩
  · rw [← Heap.depth_eq_length_chain, hdepth]
  · rw [hpath.root_eq, hglobal]
  · rw [Heap.scope_bindAt, if_pos ⟨rfl, hm.global_lt hac⟩, Scope.find?_bind, if_pos rfl]

/-- A new environment with one block open. -/
def oneBlock : List Step := [.act (.newEnvironment Policy.standard "e"), .act (.openBlock "e")]

theorem environment_mirrors_chain_oneBlock :
    let ms := Step.movesAll ⟨false, false⟩ oneBlock Session.empty
    let σ := Session.empty.after ms
    let e : Environment := ⟨⟨0⟩, [⟨1⟩], ⟨0⟩, 1, Policy.standard⟩
    Step.Intact ⟨false, false⟩ oneBlock ms ∧
    σ.environments["e"]? = some e ∧
    e.depth = σ.heap.depth e.current ∧ e.global = σ.heap.root e.current := by
  intro ms σ e
  have h : Step.Intact ⟨false, false⟩ oneBlock ms := ⟨List.prefix_refl _, rfl⟩
  have he : σ.environments["e"]? = some e := by decide
  obtain ⟨-, -, -, hdepth, hglobal, -⟩ := environment_mirrors_chain h he
  exact ⟨h, he, hdepth, hglobal⟩

end ScopeChain

/-
ScopeChain.Proofs.Forest — the heap refines a forest of maps and paths.

The reference model has no parents to climb. Each scope is a PLOT: its
bindings, and the list of the scopes on its path to the root, itself
first, written down once when the scope is made. A lookup is the first hit
along that list; a write goes to the first, the nearest binding or the
last plot of it.

`Refines` relates a heap to a forest: plot by plot the same bindings, and
for a path the chain that climbing finds. What is done to both is a deed,
and a deed that plants a scope says what it is to bind and which handle is
its parent; the scope that the heap makes of this the forest does not see.
A deed done to both keeps them related (`Refines.perform`), so the forest
that is fed the deeds of a run describes every scope of its heap at every
point (`heap_refines_forest`), the scopes that no handle names any more
among them.
-/
import ScopeChain.Proofs.StackMirror

namespace ScopeChain

/-! ## 1. The model -/

/-- One scope of the model: its bindings and its path to the root, itself
first. -/
structure Plot where
  bindings : Bindings
  path : List Handle

/-- A row of plots, numbered as the cells of a heap are. -/
abbrev Forest := Store Plot

namespace Forest

/-- The forest without plots. -/
def empty : Forest := Store.empty

/-- The plot of a scope. -/
def plot (forest : Forest) (i : Handle) : Plot := (forest.read? i).getD ⟨∅, []⟩

/-- The value of a name seen from a scope: the first on its path. -/
def lookup (forest : Forest) (i : Handle) (name : String) : Option Value :=
  (forest.plot i).path.findSome? fun k => (forest.plot k).bindings[name]?

/-- The last scope on a path. -/
def rootEnd (forest : Forest) (i : Handle) : Handle := (forest.plot i).path.getLastD i

/-- The scope that a write through `i` goes to. -/
def target (forest : Forest) (mode : WriteMode) (i : Handle) (name : String) : Handle :=
  match mode with
  | .declare => i
  | .assign => ((forest.plot i).path.find? fun k => (forest.plot k).bindings.contains name).getD
    (forest.rootEnd i)
  | .global => forest.rootEnd i

/-- Binds a name in the map of one plot. -/
def bindAt (forest : Forest) (i : Handle) (name : String) (v : Value) : Forest :=
  forest.modify i fun p => { p with bindings := p.bindings.insert name v }

/-- The path of a parent; empty if there is none. -/
def pathFrom (forest : Forest) : Option Handle → List Handle
  | none => []
  | some p => (forest.plot p).path

/-- A new plot; its path is itself and then the path of its parent. -/
def plant (forest : Forest) (bindings : Bindings) (parent : Option Handle) : Forest :=
  (forest.alloc ⟨bindings, ⟨forest.size⟩ :: forest.pathFrom parent⟩).1

/-- Does a deed. -/
def perform (forest : Forest) : Deed → Forest
  | .plant bindings parent => forest.plant bindings parent
  | .write mode i name v => forest.bindAt (forest.target mode i name) name v

/-- Does deeds in order. -/
def performAll (forest : Forest) (ds : List Deed) : Forest := ds.foldl perform forest

/-! ## 2. Plots -/

theorem plot_plant (forest : Forest) (bindings : Bindings) (parent : Option Handle) (k : Handle) :
    (forest.plant bindings parent).plot k =
      if k = ⟨forest.size⟩ then ⟨bindings, ⟨forest.size⟩ :: forest.pathFrom parent⟩
      else forest.plot k := by
  unfold plot plant
  rw [Store.read?_alloc]
  split <;> rfl

theorem path_bindAt (forest : Forest) (i : Handle) (name : String) (v : Value) (k : Handle) :
    ((forest.bindAt i name v).plot k).path = (forest.plot k).path := by
  unfold plot bindAt
  rw [Store.read?_modify]
  split
  · cases forest.read? k <;> rfl
  · rfl

theorem bindings_bindAt (forest : Forest) (i : Handle) (name : String) (v : Value) (k : Handle) :
    ((forest.bindAt i name v).plot k).bindings =
      if k = i ∧ k.index < forest.size then (forest.plot k).bindings.insert name v
      else (forest.plot k).bindings := by
  unfold plot bindAt
  rw [Store.read?_modify]
  by_cases hk : k = i
  · subst hk
    cases h : forest.read? k with
    | none =>
      have hle := Store.read?_eq_none_iff.mp h
      rw [if_pos rfl, if_neg (fun hlt => Nat.not_lt.mpr hle hlt.2)]
      rfl
    | some p =>
      have hlt : k.index < forest.size := by
        by_contra hle
        rw [Store.read?_eq_none_iff.mpr (Nat.not_lt.mp hle)] at h
        cases h
      rw [if_pos rfl, if_pos ⟨rfl, hlt⟩]
      rfl
  · rw [if_neg hk, if_neg (fun h => hk h.1)]

end Forest

/-! ## 3. The relation -/

/-- The forest has the scopes of the heap, with the bindings they have and
the chains that climbing from them gives. -/
structure Refines (heap : Heap) (forest : Forest) : Prop where
  size_eq : forest.size = heap.size
  bindings_eq : ∀ i, (forest.plot i).bindings = (heap.scope i).bindings
  path_eq : ∀ i : Handle, i.index < heap.size → (forest.plot i).path = heap.chain i

theorem refines_empty : Refines Heap.empty Forest.empty where
  size_eq := rfl
  bindings_eq _ := rfl
  path_eq _ hi := absurd hi (Nat.not_lt_zero _)

section Refines

variable {heap : Heap} {forest : Forest} {i : Handle}

theorem Refines.lookup_eq (h : Refines heap forest) (hi : i.index < heap.size) (name : String) :
    heap.lookup i name = forest.lookup i name := by
  rw [heap.lookup_eq_findSome?, Forest.lookup, h.path_eq i hi]
  simp only [h.bindings_eq]
  rfl

theorem Refines.rootEnd_eq (h : Refines heap forest) (hac : heap.Acyclic)
    (hi : i.index < heap.size) : forest.rootEnd i = heap.root i := by
  rw [Forest.rootEnd, h.path_eq i hi, List.getLastD_eq_getLast?, hac.getLast?_chain hi,
    Option.getD_some]

theorem Refines.pathFrom_eq (h : Refines heap forest) {parent : Option Handle}
    (hp : ∀ p ∈ parent, p.index < heap.size) : forest.pathFrom parent = heap.path parent := by
  cases parent with
  | none => exact Heap.IsPath.done.path_eq.symm
  | some p => exact h.path_eq p (hp p rfl)

/-- Both send a write to the same scope. -/
theorem Refines.target_eq (h : Refines heap forest) (hac : heap.Acyclic)
    (hi : i.index < heap.size) (mode : WriteMode) (name : String) :
    forest.target mode i name = heap.target mode i name := by
  cases mode with
  | declare => rfl
  | assign =>
    have hfind : (heap.binder? (some i) name) =
        (forest.plot i).path.find? fun k => (forest.plot k).bindings.contains name := by
      rw [Heap.binder?, Heap.firstUp?_eq_find?, h.path_eq i hi]
      simp only [h.bindings_eq]
      rfl
    rw [Forest.target, Heap.target, ← hfind, h.rootEnd_eq hac hi]
    cases heap.binder? (some i) name <;> rfl
  | global => exact h.rootEnd_eq hac hi

theorem Refines.bindAt (h : Refines heap forest) (i : Handle) (name : String) (v : Value) :
    Refines (heap.bindAt i name v) (forest.bindAt i name v) where
  size_eq := by
    rw [Heap.size_bindAt, ← h.size_eq]
    exact Store.size_modify forest i _
  bindings_eq k := by
    rw [Forest.bindings_bindAt, Heap.scope_bindAt, h.size_eq, h.bindings_eq]
    split <;> rfl
  path_eq k hk := by
    rw [Heap.size_bindAt] at hk
    rw [Forest.path_bindAt, h.path_eq k hk]
    exact (heap.path_bindAt i name v (some k)).symm

theorem Refines.plant (h : Refines heap forest) (hac : heap.Acyclic) {bindings : Bindings}
    {parent : Option Handle} (hp : ∀ p ∈ parent, p.index < heap.size) :
    Refines (heap.add ⟨bindings, parent⟩).1 (forest.plant bindings parent) where
  size_eq := by
    rw [Heap.size_add, ← h.size_eq]
    exact Store.size_alloc forest _
  bindings_eq k := by
    rw [Forest.plot_plant, Heap.scope_add, h.size_eq]
    split
    · rfl
    · exact h.bindings_eq k
  path_eq k hk := by
    rw [Forest.plot_plant, h.size_eq]
    -- the new cell extends the path of its parent, the others keep theirs
    split
    · next hnew =>
      rw [hnew, Heap.chain, (hac.isPath_add hp).path_eq, h.pathFrom_eq hp]
    · next hold =>
      have hlt : k.index < heap.size := by
        rw [Heap.size_add] at hk
        rcases Nat.lt_succ_iff_lt_or_eq.mp hk with hlt | heq
        · exact hlt
        · exact absurd (congrArg Handle.mk heq) hold
      rw [h.path_eq k hlt, hac.chain_grow (heap.grows_add _) hlt]

/-- **The step lemma**: a deed that uses cells only, done to the heap and to
the forest, keeps them related. -/
theorem Refines.perform (h : Refines heap forest) (hac : heap.Acyclic) {d : Deed}
    (hd : ∀ i ∈ d.uses, i.index < heap.size) :
    Refines (heap.perform (some d)) (forest.perform d) := by
  cases d with
  | plant bindings parent => exact h.plant hac fun p hp => hd p (Option.mem_toList.mpr hp)
  | write mode i name v =>
    rw [Forest.perform, h.target_eq hac (hd i (List.mem_singleton_self i))]
    exact h.bindAt _ name v

end Refines

/-! ## 4. Runs -/

/-- The deed of a move; the log does none. -/
def Move.deed? (m : Move) (σ : Session) : Option Deed :=
  match m with
  | .act a => a.deed? σ
  | .mark => none

/-- The deeds of moves, in order. -/
def Session.deeds (σ : Session) : List Move → List Deed
  | [] => []
  | m :: ms => (m.deed? σ).toList ++ (m.run σ).deeds ms

/-- The heap after deeds done in order. -/
def Heap.performAll (heap : Heap) (ds : List Deed) : Heap :=
  ds.foldl (fun heap d => heap.perform (some d)) heap

/-- The heap of a run is what its deeds make of the heap before. -/
theorem Session.heap_after {σ : Session} {ms : List Move}
    (hms : σ.allActs Action.keepsContents ms) :
    (σ.after ms).heap = σ.heap.performAll (σ.deeds ms) := by
  induction ms generalizing σ with
  | nil => rfl
  | cons m ms ih =>
    cases m with
    | mark => exact ih (σ := σ.marked) hms
    | act a =>
      obtain ⟨ha, hrest⟩ := allActs_act.mp hms
      rw [after_cons, deeds, Heap.performAll, List.foldl_append]
      refine (ih hrest).trans (congrArg (Heap.performAll · _) ?_)
      rw [Action.run_heap ha, Move.deed?]
      cases a.deed? σ <;> rfl

/-- **The run lemma**: the forest that is fed the deeds of a run stays with
the heap. -/
theorem Refines.after {σ : Session} {forest : Forest} {ms : List Move}
    (hms : σ.allActs Action.keepsContents ms) (hσ : σ.Sound) (h : Refines σ.heap forest) :
    Refines (σ.after ms).heap (forest.performAll (σ.deeds ms)) := by
  induction ms generalizing σ forest with
  | nil => exact h
  | cons m ms ih =>
    cases m with
    | mark => exact ih hms hσ.marked h
    | act a =>
      obtain ⟨ha, hrest⟩ := Session.allActs_act.mp hms
      rw [Session.after_cons, Session.deeds, Forest.performAll, List.foldl_append]
      refine ih hrest (hσ.run ha) ?_
      rw [Move.run, Action.run_heap ha, Move.deed?]
      cases hd : a.deed? σ with
      | none => exact h
      | some d => exact h.perform hσ.acyclic (hσ.formed.deed_lt a d hd)

/-- **The heap refines the forest.** Let a run that has replaced no scope get
anywhere. Its heap is what its deeds make of the empty one; feed the same
deeds to the model. Then the model has the scopes of the heap, and for
every scope and every name they agree on lookup, on the value, on whether
the scope itself binds the name and on how many it binds. The lookup fails
exactly when no map on the path has the name, and else gives the innermost
value, nil as well as any other. -/
theorem heap_refines_forest {detail : Detail} {script : List Step} {ms : List Move}
    (h : Step.Intact detail script ms) :
    let heap := (Session.empty.after ms).heap
    let forest := Forest.empty.performAll (Session.empty.deeds ms)
    heap = Heap.empty.performAll (Session.empty.deeds ms) ∧
    forest.size = heap.size ∧
    ∀ i : Handle, i.index < heap.size →
      (forest.plot i).path = heap.chain i ∧
      (heap.scope i).size = (forest.plot i).bindings.size ∧
      ∀ name,
        heap.lookup i name = forest.lookup i name ∧
        Query.value.answer (heap.lookup i name) = .value ((forest.lookup i name).getD .nil) ∧
        (heap.scope i).binds name = (forest.plot i).bindings.contains name ∧
        (heap.lookup i name = none ↔
          ∀ k ∈ (forest.plot i).path, (forest.plot k).bindings[name]? = none) ∧
        (∀ v, heap.lookup i name = some v ↔ ∃ inner k outer,
          (forest.plot i).path = inner ++ k :: outer ∧
          (forest.plot k).bindings[name]? = some v ∧
          ∀ m ∈ inner, (forest.plot m).bindings[name]? = none) := by
  intro heap forest
  have hdeeds : heap = Heap.empty.performAll (Session.empty.deeds ms) := Session.heap_after h.keeps
  have h : Refines heap forest := Refines.after h.keeps Session.sound_empty refines_empty
  refine ⟨hdeeds, h.size_eq, fun i hi => ⟨h.path_eq i hi, ?_, fun name => ?_⟩⟩
  · rw [h.bindings_eq]
    rfl
  have hlookup := h.lookup_eq hi name
  refine ⟨hlookup, ?_, ?_, ?_, fun v => ?_⟩
  · rw [hlookup]
    rfl
  · rw [h.bindings_eq]
    rfl
  · rw [hlookup]
    exact List.findSome?_eq_none_iff
  · rw [hlookup]
    exact List.findSome?_eq_some_iff

/-- Two scopes with a parent in common, one of which binds a name to nil that
the parent binds too. -/
def siblings : List Step :=
  [.act (.newScope "g"), .act (.write (.place (.shared "g")) .declare "x" (.boolean true)),
    .act (.newChild "g" "a"), .act (.newChild "g" "b"),
    .act (.write (.place (.shared "a")) .declare "x" .nil)]

theorem heap_refines_forest_siblings :
    let ms := Step.movesAll ⟨false, false⟩ siblings Session.empty
    let heap := (Session.empty.after ms).heap
    Step.Intact ⟨false, false⟩ siblings ms ∧
    heap.lookup ⟨1⟩ "x" = some .nil ∧ heap.lookup ⟨2⟩ "x" = some (.boolean true) := by
  intro ms heap
  have h : Step.Intact ⟨false, false⟩ siblings ms := ⟨List.prefix_refl _, rfl⟩
  obtain ⟨-, -, hscopes⟩ := heap_refines_forest h
  refine ⟨h, ?_, ?_⟩
  · exact ((hscopes ⟨1⟩ (by decide)).2.2 "x").1.trans (by rfl)
  · exact ((hscopes ⟨2⟩ (by decide)).2.2 "x").1.trans (by rfl)

end ScopeChain

/-
ScopeChain.Proofs.Agreement — sessions that agree on a part of what they
hold.

Two sessions may differ in most things and still be the same to someone
who sees only a part of them: the names in the tables that are `mine`, the
variables that are kept (`keep`), and of the heap what can be reached
from there. `Session.Agrees` says so. Cells need not have the same
positions in both; a one-to-one correspondence `ρ` tells which cell of one
stands for which of the other.

Doing the same to both keeps them in agreement and gives the same answer,
provided the action uses only names that are mine and writes only
variables that are kept (`Session.Agrees.run`, `Session.Agrees.answer_eq`).
A scope planted on both sides joins the correspondence. What lies outside
of it is left alone.
-/
import Mathlib.Data.List.Forall2
import ScopeChain.Proofs.Acyclicity
import ScopeChain.Proofs.Related

namespace ScopeChain

/-- Which cell of one heap stands for which of another. -/
abbrev Correspondence := Handle → Handle → Prop

/-- The correspondence with one pair more. -/
def Correspondence.extend (ρ : Correspondence) (i j : Handle) : Correspondence :=
  fun a b => ρ a b ∨ a = i ∧ b = j

theorem rel_find? {α β : Type} {R : α → β → Prop} {p : α → Bool} {q : β → Bool}
    (hpq : ∀ a b, R a b → p a = q b) {l : List α} {m : List β} (h : List.Forall₂ R l m) :
    Option.Rel R (l.find? p) (m.find? q) := by
  induction h with
  | nil => exact .none
  | cons hab _ ih =>
    rw [List.find?_cons, List.find?_cons, hpq _ _ hab]
    split
    · exact .some hab
    · exact ih

/-! ## 1. Scopes -/

/-- The scopes bind the kept variables alike, and their parents correspond. -/
structure Scope.Agrees (keep : String → Bool) (ρ : Correspondence) (s t : Scope) : Prop where
  parent : Option.Rel ρ s.parent t.parent
  find?_eq : ∀ n, keep n → s.find? n = t.find? n

namespace Scope.Agrees

variable {keep : String → Bool} {ρ ρ' : Correspondence} {s t : Scope}

theorem empty (keep : String → Bool) (ρ : Correspondence) :
    Scope.empty.Agrees keep ρ Scope.empty :=
  ⟨.none, fun _ _ => rfl⟩

theorem inside {i j : Handle} (hij : ρ i j) :
    (Scope.inside i).Agrees keep ρ (Scope.inside j) :=
  ⟨.some hij, fun _ _ => rfl⟩

theorem mono (h : s.Agrees keep ρ t) (hρ : ∀ i j, ρ i j → ρ' i j) : s.Agrees keep ρ' t :=
  ⟨rel_mono hρ h.parent, h.find?_eq⟩

theorem bind (h : s.Agrees keep ρ t) (name : String) (v : Value) :
    (s.bind name v).Agrees keep ρ (t.bind name v) :=
  ⟨h.parent, fun n hn => by rw [find?_bind, find?_bind, h.find?_eq n hn]⟩

theorem binds_eq (h : s.Agrees keep ρ t) {name : String} (hn : keep name) :
    s.binds name = t.binds name := by
  rw [binds_eq_isSome, binds_eq_isSome, h.find?_eq name hn]

theorem isRoot_eq (h : s.Agrees keep ρ t) : s.isRoot = t.isRoot := by
  obtain ⟨hs, ht⟩ | ⟨i, j, hs, ht, -⟩ := rel_cases h.parent <;> simp [isRoot, hs, ht]

end Scope.Agrees

/-! ## 2. Heaps -/

/-- Corresponding cells are there on both sides and hold scopes that agree. -/
structure Heap.Agrees (keep : String → Bool) (ρ : Correspondence) (heap other : Heap) : Prop where
  oneToOne : Relator.BiUnique ρ
  lt_size : ∀ i j, ρ i j → i.index < heap.size ∧ j.index < other.size
  scope : ∀ i j, ρ i j → (heap.scope i).Agrees keep ρ (other.scope j)

namespace Heap.Agrees

variable {keep : String → Bool} {ρ : Correspondence} {heap other : Heap} {i j : Handle}

section Reading

variable (h : heap.Agrees keep ρ other)
include h

theorem eq_iff {k l : Handle} (hij : ρ i j) (hkl : ρ k l) : i = k ↔ j = l := by
  constructor
  · rintro rfl
    exact h.oneToOne.2 hij hkl
  · rintro rfl
    exact h.oneToOne.1 hij hkl

theorem isPath {start : Option Handle} {path : List Handle} (hpath : heap.IsPath start path)
    {start' : Option Handle} (hstart : Option.Rel ρ start start') :
    ∃ path', other.IsPath start' path' ∧ List.Forall₂ ρ path path' := by
  induction hpath generalizing start' with
  | done =>
    cases hstart with
    | none => exact ⟨[], .done, .nil⟩
  | up _ _ ih =>
    cases hstart with
    | some hij =>
      obtain ⟨path', hpath', hrel⟩ := ih (h.scope _ _ hij).parent
      exact ⟨_, .up (h.lt_size _ _ hij).2 hpath', .cons hij hrel⟩

variable (hac : heap.Acyclic)
include hac

/-- Climbing from corresponding starting points meets corresponding cells. -/
theorem path {start start' : Option Handle} (hstart : Option.Rel ρ start start') :
    List.Forall₂ ρ (heap.path start) (other.path start') := by
  have hlt : ∀ i ∈ start, i.index < heap.size := by
    rintro i ⟨⟩
    cases hstart with
    | some hij => exact (h.lt_size _ _ hij).1
  obtain ⟨path', hpath', hrel⟩ := h.isPath (hac.isPath_path hlt) hstart
  rwa [hpath'.path_eq]

theorem firstUp? {test : Scope → Bool}
    (htest : ∀ i j, ρ i j → test (heap.scope i) = test (other.scope j))
    {start start' : Option Handle} (hstart : Option.Rel ρ start start') :
    Option.Rel ρ (heap.firstUp? test start) (other.firstUp? test start') := by
  rw [firstUp?_eq_find?, firstUp?_eq_find?]
  exact rel_find? htest (h.path hac hstart)

theorem root (hij : ρ i j) : ρ (heap.root i) (other.root j) := by
  have hfirst := h.firstUp? hac (fun k l hkl => (h.scope k l hkl).isRoot_eq) (.some hij)
  obtain ⟨hi, hj⟩ | ⟨k, l, hi, hj, hkl⟩ := rel_cases hfirst
  · simpa [Heap.root, hi, hj] using hij
  · simpa [Heap.root, hi, hj] using hkl

theorem depth_eq (hij : ρ i j) : heap.depth i = other.depth j := by
  rw [depth_eq_length_chain, depth_eq_length_chain]
  exact (h.path hac (.some hij)).length_eq

theorem binder? {start start' : Option Handle} (hstart : Option.Rel ρ start start') {name : String}
    (hn : keep name) : Option.Rel ρ (heap.binder? start name) (other.binder? start' name) :=
  h.firstUp? hac (fun k l hkl => (h.scope k l hkl).binds_eq hn) hstart

theorem resolve?_eq {start start' : Option Handle} (hstart : Option.Rel ρ start start')
    {name : String} (hn : keep name) : heap.resolve? start name = other.resolve? start' name := by
  rw [resolve?, resolve?]
  obtain ⟨hk, hl⟩ | ⟨k, l, hk, hl, hkl⟩ := rel_cases (h.binder? hac hstart hn)
  · simp [hk, hl]
  · simp [hk, hl, (h.scope k l hkl).find?_eq name hn]

theorem target (hij : ρ i j) {name : String} (hn : keep name) (mode : WriteMode) :
    ρ (heap.target mode i name) (other.target mode j name) := by
  have hroot := h.root hac hij
  cases mode with
  | declare => exact hij
  | global => exact hroot
  | assign =>
    rw [Heap.target, Heap.target]
    obtain ⟨hk, hl⟩ | ⟨k, l, hk, hl, hkl⟩ := rel_cases (h.binder? hac (.some hij) hn)
    · rw [hk, hl]
      exact hroot
    · rw [hk, hl]
      exact hkl

/-- A cell encloses a scope on both sides or on neither. -/
theorem mem_path_iff {start start' : Option Handle} (hstart : Option.Rel ρ start start')
    (hij : ρ i j) : i ∈ heap.path start ↔ j ∈ other.path start' :=
  List.rel_mem h.oneToOne hij (h.path hac hstart)

end Reading

section Changing

variable (h : heap.Agrees keep ρ other)
include h

theorem bindAt (hij : ρ i j) (name : String) (v : Value) :
    (heap.bindAt i name v).Agrees keep ρ (other.bindAt j name v) where
  oneToOne := h.oneToOne
  lt_size k l hkl := by simpa using h.lt_size k l hkl
  scope k l hkl := by
    have hlt := h.lt_size k l hkl
    have hiff := h.eq_iff hkl hij
    rw [scope_bindAt, scope_bindAt]
    by_cases hk : k = i
    · rw [if_pos ⟨hk, hlt.1⟩, if_pos ⟨hiff.mp hk, hlt.2⟩]
      exact (h.scope k l hkl).bind name v
    · rw [if_neg (fun hc => hk hc.1), if_neg (fun hc => hk (hiff.mpr hc.1))]
      exact h.scope k l hkl

theorem add {s t : Scope} (hst : s.Agrees keep ρ t) :
    (heap.add s).1.Agrees keep (ρ.extend ⟨heap.size⟩ ⟨other.size⟩) (other.add t).1 where
  oneToOne := by
    constructor
    · rintro a b c (hac | ⟨rfl, rfl⟩) (hbc | ⟨rfl, hc⟩)
      · exact h.oneToOne.1 hac hbc
      · exact absurd (h.lt_size a c hac).2 (by simp [hc])
      · exact absurd (h.lt_size b _ hbc).2 (by simp)
      · rfl
    · rintro a b c (hab | ⟨rfl, rfl⟩) (hac | ⟨ha, rfl⟩)
      · exact h.oneToOne.2 hab hac
      · exact absurd (h.lt_size a b hab).1 (by simp [ha])
      · exact absurd (h.lt_size _ c hac).1 (by simp)
      · rfl
  lt_size k l hkl := by
    rw [size_add, size_add]
    rcases hkl with hkl | ⟨rfl, rfl⟩
    · exact ⟨Nat.lt_succ_of_lt (h.lt_size k l hkl).1, Nat.lt_succ_of_lt (h.lt_size k l hkl).2⟩
    · exact ⟨Nat.lt_succ_self _, Nat.lt_succ_self _⟩
  scope k l hkl := by
    rcases hkl with hkl | ⟨rfl, rfl⟩
    · have hlt := h.lt_size k l hkl
      rw [scope_add_of_lt heap s hlt.1, scope_add_of_lt other t hlt.2]
      exact (h.scope k l hkl).mono fun _ _ => .inl
    · rw [scope_add_new, scope_add_new]
      exact hst.mono fun _ _ => .inl

theorem replace (hij : ρ i j) {s t : Scope} (hst : s.Agrees keep ρ t) :
    Heap.Agrees keep ρ (Store.write heap i s) (Store.write other j t) where
  oneToOne := h.oneToOne
  lt_size k l hkl := by simpa using h.lt_size k l hkl
  scope k l hkl := by
    have hlt := h.lt_size k l hkl
    have hiff := h.eq_iff hkl hij
    rw [scope_replace, scope_replace]
    by_cases hk : k = i
    · rw [if_pos ⟨hk, hlt.1⟩, if_pos ⟨hiff.mp hk, hlt.2⟩]
      exact hst
    · rw [if_neg (fun hc => hk hc.1), if_neg (fun hc => hk (hiff.mpr hc.1))]
      exact h.scope k l hkl

/-- What happens on one side outside the correspondence is not noticed. -/
theorem frame {later : Heap} (hsize : other.size ≤ later.size)
    (hscope : ∀ i j, ρ i j → later.scope j = other.scope j) : heap.Agrees keep ρ later where
  oneToOne := h.oneToOne
  lt_size k l hkl :=
    ⟨(h.lt_size k l hkl).1, Nat.lt_of_lt_of_le (h.lt_size k l hkl).2 hsize⟩
  scope k l hkl := by
    rw [hscope k l hkl]
    exact h.scope k l hkl

end Changing

end Heap.Agrees

/-! ## 3. Owned scopes, environments and deeds -/

section

variable {keep : String → Bool} {ρ ρ' : Correspondence} {heap other : Heap}

theorem Scope.Agrees.lookup_eq {s t : Scope} (hst : s.Agrees keep ρ t)
    (h : heap.Agrees keep ρ other) (hac : heap.Acyclic) {name : String} (hn : keep name) :
    s.lookup heap name = t.lookup other name := by
  rw [lookup, lookup, hst.find?_eq name hn, h.resolve?_eq hac hst.parent hn]

/-- Something done to the one heap, and the same done to the other. -/
inductive Deed.Agrees (keep : String → Bool) (ρ : Correspondence) : Deed → Deed → Prop
  | plant {b c : Bindings} {p q : Option Handle} (hst : Scope.Agrees keep ρ ⟨b, p⟩ ⟨c, q⟩) :
    Agrees keep ρ (.plant b p) (.plant c q)
  | write {i j : Handle} (mode : WriteMode) (hij : ρ i j) {name : String} (hn : keep name)
    (v : Value) : Agrees keep ρ (.write mode i name v) (.write mode j name v)

/-- An owned scope writes to itself or through its parent, on both sides the
same. -/
theorem Scope.Agrees.write {s t : Scope} (hst : s.Agrees keep ρ t) (heap other : Heap)
    {name : String} (hn : keep name) (mode : WriteMode) (v : Value) :
    Option.Rel (Deed.Agrees keep ρ) (s.deed? mode name v) (t.deed? mode name v) ∧
    (s.write heap mode name v).1.Agrees keep ρ (t.write other mode name v).1 := by
  have hbind := hst.bind name v
  have hbinds := hst.binds_eq hn
  unfold Scope.write target? deed?
  cases mode with
  | declare => exact ⟨.none, hbind⟩
  | assign =>
    rw [hbinds]
    cases t.binds name with
    | true => exact ⟨.none, hbind⟩
    | false =>
      obtain ⟨hs, ht⟩ | ⟨i, j, hs, ht, hij⟩ := rel_cases hst.parent
      · rw [hs, ht]
        exact ⟨.none, hbind⟩
      · rw [hs, ht]
        exact ⟨.some (.write .assign hij hn v), hst⟩
  | global =>
    obtain ⟨hs, ht⟩ | ⟨i, j, hs, ht, hij⟩ := rel_cases hst.parent
    · rw [hs, ht]
      exact ⟨.none, hbind⟩
    · rw [hs, ht]
      exact ⟨.some (.write .global hij hn v), hst⟩

/-- The correspondence after a deed that is done on both sides. -/
def Correspondence.after (ρ : Correspondence) (heap other : Heap) : Option Deed → Correspondence
  | some (.plant _ _) => ρ.extend ⟨heap.size⟩ ⟨other.size⟩
  | _ => ρ

theorem Correspondence.le_after (ρ : Correspondence) (heap other : Heap) (d? : Option Deed)
    {i j : Handle} (hij : ρ i j) : ρ.after heap other d? i j := by
  match d? with
  | none => exact hij
  | some (.plant bindings parent) => exact .inl hij
  | some (.write mode k name v) => exact hij

theorem Heap.Agrees.perform (h : heap.Agrees keep ρ other) (hac : heap.Acyclic)
    {d? d'? : Option Deed} (hd : Option.Rel (Deed.Agrees keep ρ) d? d'?) :
    (heap.perform d?).Agrees keep (ρ.after heap other d?) (other.perform d'?) := by
  cases hd with
  | none => exact h
  | some hd =>
    cases hd with
    | plant hst => exact h.add hst
    | write mode hij hn v => exact h.bindAt (h.target hac hij hn mode) _ v

/-- The environments keep corresponding handles, and otherwise the same. -/
structure Environment.Agrees (ρ : Correspondence) (e f : Environment) : Prop where
  base : ρ e.base f.base
  blocks : List.Forall₂ ρ e.blocks f.blocks
  global : ρ e.global f.global
  baseDepth_eq : e.baseDepth = f.baseDepth
  policy_eq : e.policy = f.policy

namespace Environment.Agrees

variable {e f : Environment}

theorem mono (h : e.Agrees ρ f) (hρ : ∀ i j, ρ i j → ρ' i j) : e.Agrees ρ' f :=
  ⟨hρ _ _ h.base, h.blocks.imp hρ, hρ _ _ h.global, h.baseDepth_eq, h.policy_eq⟩

theorem current (h : e.Agrees ρ f) : ρ e.current f.current := by
  obtain ⟨base, blocks, global, baseDepth, policy⟩ := e
  obtain ⟨base', blocks', global', baseDepth', policy'⟩ := f
  cases h.blocks with
  | nil => exact h.base
  | cons hij _ => exact hij

theorem depth_eq (h : e.Agrees ρ f) : e.depth = f.depth := by
  rw [depth, depth, h.baseDepth_eq, h.blocks.length_eq]

theorem opened (h : e.Agrees ρ f) {i j : Handle} (hij : ρ i j) :
    (e.opened i).Agrees ρ (f.opened j) :=
  ⟨h.base, .cons hij h.blocks, h.global, h.baseDepth_eq, h.policy_eq⟩

theorem closed (h : e.Agrees ρ f) : e.closed.Agrees ρ f.closed := by
  obtain ⟨base, blocks, global, baseDepth, policy⟩ := e
  obtain ⟨base', blocks', global', baseDepth', policy'⟩ := f
  obtain ⟨hbase, hblocks, hglobal, hdepth, hpolicy⟩ := h
  refine ⟨hbase, ?_, hglobal, hdepth, hpolicy⟩
  cases hblocks with
  | nil => exact .nil
  | cons _ hrest => exact hrest

theorem head? (h : e.Agrees ρ f) : Option.Rel ρ e.blocks.head? f.blocks.head? := by
  obtain ⟨base, blocks, global, baseDepth, policy⟩ := e
  obtain ⟨base', blocks', global', baseDepth', policy'⟩ := f
  cases h.blocks with
  | nil => exact .none
  | cons hij _ => exact .some hij

end Environment.Agrees

variable (h : heap.Agrees keep ρ other) (hac : heap.Acyclic)
include h hac

theorem Heap.Agrees.ofScope {i j : Handle} (hij : ρ i j) (policy : Policy) :
    (Environment.ofScope heap i policy).Agrees ρ (Environment.ofScope other j policy) :=
  ⟨hij, .nil, h.root hac hij, h.depth_eq hac hij, rfl⟩

theorem Heap.Agrees.child {e f : Environment} (hef : e.Agrees ρ f) :
    (e.child heap).Agrees ρ (f.child other) := by
  rw [Environment.child, Environment.child, ← hef.policy_eq]
  exact h.ofScope hac hef.global e.policy

theorem Heap.Agrees.frameOf {e f : Environment} (hef : e.Agrees ρ f) {i j k l : Handle}
    (hij : ρ i j) (hρ : ∀ i j, ρ i j → ρ' i j) (hkl : ρ' k l) :
    (e.frame heap i k).Agrees ρ' (f.frame other j l) :=
  ⟨hkl, .nil, hρ _ _ (h.root hac hij), congrArg (· + 1) (h.depth_eq hac hij), hef.policy_eq⟩

end

/-! ## 4. Sessions -/

/-- What is mine agrees: the names that are mine stand for the same on both
sides, up to the correspondence, and so do the heaps below. -/
structure Session.Agrees (mine keep : String → Bool) (ρ : Correspondence) (σ τ : Session) :
    Prop where
  heap : σ.heap.Agrees keep ρ τ.heap
  handles : ∀ x, mine x → Option.Rel ρ σ.handles[x]? τ.handles[x]?
  owned : ∀ x, mine x → Option.Rel (Scope.Agrees keep ρ) σ.owned[x]? τ.owned[x]?
  environments : ∀ x, mine x →
    Option.Rel (Environment.Agrees ρ) σ.environments[x]? τ.environments[x]?

/-- A heap agrees with itself on any cells that include the parents of all of
them. -/
theorem Heap.agrees_self {heap : Heap} {P : Handle → Prop} (keep : String → Bool)
    (hlt : ∀ i, P i → i.index < heap.size)
    (hup : ∀ i, P i → ∀ p, (heap.scope i).parent = some p → P p) :
    heap.Agrees keep (fun i j => i = j ∧ P i) heap where
  oneToOne := by
    constructor
    · rintro a b c ⟨rfl, -⟩ ⟨rfl, -⟩
      rfl
    · rintro a b c ⟨rfl, -⟩ ⟨rfl, -⟩
      rfl
  lt_size := by
    rintro i j ⟨rfl, hi⟩
    exact ⟨hlt i hi, hlt i hi⟩
  scope := by
    rintro i j ⟨rfl, hi⟩
    exact ⟨rel_self fun p hp => ⟨rfl, hup i hi p hp⟩, fun n _ => rfl⟩

/-- A session agrees with itself on such cells if all that is mine is among
them. -/
theorem Session.agrees_self {mine keep : String → Bool} {σ : Session} {P : Handle → Prop}
    (hlt : ∀ i, P i → i.index < σ.heap.size)
    (hup : ∀ i, P i → ∀ p, (σ.heap.scope i).parent = some p → P p)
    (hhandle : ∀ x i, mine x → σ.handles[x]? = some i → P i)
    (hparent : ∀ x s, mine x → σ.owned[x]? = some s → ∀ p, s.parent = some p → P p)
    (hheld : ∀ x e, mine x → σ.environments[x]? = some e → ∀ k ∈ e.held, P k) :
    σ.Agrees mine keep (fun i j => i = j ∧ P i) σ where
  heap := Heap.agrees_self keep hlt hup
  handles x hx := rel_self fun i hi => ⟨rfl, hhandle x i hx hi⟩
  owned x hx := rel_self fun s hs =>
    ⟨rel_self fun p hp => ⟨rfl, hparent x s hx hs p hp⟩, fun n _ => rfl⟩
  environments x hx := rel_self fun e he => by
    have hframe : ∀ k ∈ e.frames, P k :=
      fun k hk => hheld x e hx he k (Environment.mem_held.mpr (.inl hk))
    refine ⟨⟨rfl, hframe _ (by simp [Environment.frames])⟩, ?_,
      ⟨rfl, hheld x e hx he _ (Environment.mem_held.mpr (.inr rfl))⟩, rfl, rfl⟩
    exact List.forall₂_same.mpr fun k hk => ⟨rfl, hframe k (List.mem_append_left _ hk)⟩

/-- The variable that an action writes. -/
def Action.variable? : Action → Option String
  | .write _ _ name _ => some name
  | .writeMember _ name _ => some name
  | _ => none

/-- The action answers from the kept variables alone. Descriptions of whole
scopes do not, and they show where cells are. -/
def Action.shows (keep : String → Bool) : Action → Bool
  | .read _ _ name => keep name
  | .bindsHere _ name => keep name
  | .inspect _ => false
  | .snapshot => false
  | _ => true

namespace Session.Agrees

variable {mine keep : String → Bool} {ρ ρ' : Correspondence} {σ τ : Session}

theorem scopeAt? (h : σ.Agrees mine keep ρ τ) (p : Place) (hp : mine p.tableName) :
    Option.Rel (Scope.Agrees keep ρ) (σ.scopeAt? p) (τ.scopeAt? p) := by
  cases p with
  | owned x => exact h.owned x hp
  | shared x => exact rel_map (h.handles x hp) h.heap.scope

/-! ### Deeds and rebindings -/

theorem writeDeed? (h : σ.Agrees mine keep ρ τ) (t : Target) (ht : mine t.tableName)
    {name : String} (hn : keep name) (mode : WriteMode) (v : Value) :
    Option.Rel (Deed.Agrees keep ρ) (σ.writeDeed? t mode name v) (τ.writeDeed? t mode name v) := by
  match t with
  | .place (.shared x) => exact rel_map (h.handles x ht) fun i j hij => .write mode hij hn v
  | .place (.owned x) =>
    exact rel_bind (h.owned x ht) fun s t hst => (hst.write σ.heap τ.heap hn mode v).1
  | .environment x =>
    exact rel_map (h.environments x ht) fun e f hef => .write mode hef.current hn v

theorem writeOwned? (h : σ.Agrees mine keep ρ τ) (t : Target) (ht : mine t.tableName)
    {name : String} (hn : keep name) (mode : WriteMode) (v : Value)
    (hρ : ∀ i j, ρ i j → ρ' i j) :
    Rebinding.Agrees (Scope.Agrees keep ρ') (σ.writeOwned? t mode name v)
      (τ.writeOwned? t mode name v) := by
  match t with
  | .place (.shared x) => exact .none
  | .environment x => exact .none
  | .place (.owned x) =>
    exact rel_map (h.owned x ht) fun s t hst =>
      ⟨rfl, .some ((hst.write σ.heap τ.heap hn mode v).2.mono hρ)⟩

/-- An action has the same deed on both sides and binds the same. -/
structure Lockstep (keep : String → Bool) (ρ : Correspondence) (a : Action) (σ τ : Session) :
    Prop where
  deed : Option.Rel (Deed.Agrees keep ρ) (a.deed? σ) (a.deed? τ)
  handle : Rebinding.Agrees (ρ.after σ.heap τ.heap (a.deed? σ)) (a.handle? σ) (a.handle? τ)
  owned : Rebinding.Agrees (Scope.Agrees keep (ρ.after σ.heap τ.heap (a.deed? σ)))
    (a.owned? σ) (a.owned? τ)
  environment : Rebinding.Agrees (Environment.Agrees (ρ.after σ.heap τ.heap (a.deed? σ)))
    (a.environment? σ) (a.environment? τ)

theorem lockstep (h : σ.Agrees mine keep ρ τ) (hac : σ.heap.Acyclic) {a : Action}
    (hmine : ∀ x ∈ a.names, mine x) (hkeep : ∀ n ∈ a.variable?, keep n) :
    Lockstep keep ρ a σ τ := by
  have hold : ∀ i j, ρ i j → ρ.extend ⟨σ.heap.size⟩ ⟨τ.heap.size⟩ i j := fun _ _ => .inl
  have hnew : ρ.extend ⟨σ.heap.size⟩ ⟨τ.heap.size⟩ ⟨σ.heap.size⟩ ⟨τ.heap.size⟩ := .inr ⟨rfl, rfl⟩
  cases a with
  | write t mode name v =>
    have ht := hmine _ (List.mem_singleton_self _)
    exact ⟨h.writeDeed? t ht (hkeep name rfl) mode v, .none,
      h.writeOwned? t ht (hkeep name rfl) mode v fun _ _ => ρ.le_after _ _ _, .none⟩
  | writeMember t name v =>
    have ht := hmine _ (List.mem_singleton_self _)
    exact ⟨h.writeDeed? t ht (hkeep name rfl) .assign (Value.ofHost v), .none,
      h.writeOwned? t ht (hkeep name rfl) .assign (Value.ofHost v) fun _ _ => ρ.le_after _ _ _,
      .none⟩
  | newScope x => exact ⟨.some (.plant (.empty keep ρ)), .some ⟨rfl, .some hnew⟩, .none, .none⟩
  | newEnvironment limits x =>
    have hempty : Scope.empty.Agrees keep ρ Scope.empty := .empty keep ρ
    have hac' : (σ.heap.add Scope.empty).1.Acyclic := hac.add (by rintro p ⟨⟩)
    refine ⟨.some (.plant hempty), .none, .none, .some ⟨rfl, .some ?_⟩⟩
    exact (h.heap.add hempty).ofScope hac' hnew limits
  -- the actions that plant a scope inside another bind what stands for it on either side
  | newChild x y =>
    have hx := h.handles x (hmine x (by simp [Action.names]))
    obtain ⟨hi, hj⟩ | ⟨i, j, hi, hj, hij⟩ := rel_cases hx <;>
      refine ⟨?_, ?_, .none, .none⟩ <;> simp only [Action.deed?, Action.handle?, hi, hj]
    · exact .none
    · exact .none
    · exact .some (.plant (.inside hij))
    · exact .some ⟨rfl, .some hnew⟩
  | wrap x y =>
    have hx := h.owned x (hmine x (by simp [Action.names]))
    obtain ⟨hs, ht⟩ | ⟨s, t, hs, ht, hst⟩ := rel_cases hx <;>
      refine ⟨?_, ?_, ?_, .none⟩ <;>
      simp only [Action.deed?, Action.handle?, Action.owned?, hs, ht]
    · exact .none
    · exact .none
    · exact .none
    · exact .some (.plant hst)
    · exact .some ⟨rfl, .some hnew⟩
    · exact .some ⟨rfl, .some (.empty keep _)⟩
  | openBlock x =>
    have hx := h.environments x (hmine x (by simp [Action.names]))
    obtain ⟨he, hf⟩ | ⟨e, f, he, hf, hef⟩ := rel_cases hx
    · refine ⟨?_, .none, .none, ?_⟩ <;> simp only [Action.deed?, Action.environment?, he, hf] <;>
        exact .none
    · refine ⟨?_, .none, .none, ?_⟩ <;>
        simp only [Action.deed?, Action.environment?, he, hf, Option.bind_some, ← hef.policy_eq,
          ← hef.depth_eq] <;>
        cases e.policy.objection? (e.depth + 1) <;> dsimp only
      · exact .some (.plant (.inside hef.current))
      · exact .none
      · exact .some ⟨rfl, .some ((hef.mono hold).opened hnew)⟩
      · exact .none
  | enterClosure x y z =>
    have hx := h.environments x (hmine x (by simp [Action.names]))
    have hy := h.handles y (hmine y (by simp [Action.names]))
    obtain ⟨he, hf⟩ | ⟨e, f, he, hf, hef⟩ := rel_cases hx
    · refine ⟨?_, .none, .none, ?_⟩ <;> simp only [Action.deed?, Action.environment?, he, hf] <;>
        exact .none
    obtain ⟨hi, hj⟩ | ⟨i, j, hi, hj, hij⟩ := rel_cases hy
    · refine ⟨?_, .none, .none, ?_⟩ <;>
        simp only [Action.deed?, Action.environment?, he, hf, hi, hj] <;> exact .none
    · refine ⟨?_, .none, .none, ?_⟩ <;>
        simp only [Action.deed?, Action.environment?, he, hf, hi, hj, Option.bind_some,
          ← hef.policy_eq, ← h.heap.depth_eq hac hij] <;>
        cases e.policy.objection? (σ.heap.depth i + 1) <;> dsimp only
      · exact .some (.plant (.inside hij))
      · exact .none
      · exact .some ⟨rfl, .some (h.heap.frameOf hac hef hij hold hnew)⟩
      · exact .none
  -- the others bind something that was there, or drop it
  | share x y =>
    have hx := h.handles x (hmine x (by simp [Action.names]))
    exact ⟨.none, rel_map hx fun i j hij => ⟨rfl, .some hij⟩, .none, .none⟩
  | takeRoot x y =>
    have hx := h.handles x (hmine x (by simp [Action.names]))
    exact ⟨.none, rel_map hx fun i j hij => ⟨rfl, .some (h.heap.root hac hij)⟩, .none, .none⟩
  | takeParent p y =>
    have hp := h.scopeAt? p (hmine _ (by simp [Action.names]))
    refine ⟨.none, rel_bind hp fun s t hst => ?_, .none, .none⟩
    exact rel_map hst.parent fun i j hij => ⟨rfl, .some hij⟩
  | dropHandle x => exact ⟨.none, .some ⟨rfl, .none⟩, .none, .none⟩
  | newOwned x => exact ⟨.none, .none, .some ⟨rfl, .some (.empty keep _)⟩, .none⟩
  | newOwnedInside x y =>
    have hx := h.handles x (hmine x (by simp [Action.names]))
    exact ⟨.none, .none, rel_map hx fun i j hij => ⟨rfl, .some (.inside hij)⟩, .none⟩
  | copyScope p y =>
    have hp := h.scopeAt? p (hmine _ (by simp [Action.names]))
    exact ⟨.none, .none, rel_map hp fun s t hst => ⟨rfl, .some hst⟩, .none⟩
  | newEnvironmentOver x limits y =>
    have hx := h.handles x (hmine x (by simp [Action.names]))
    refine ⟨.none, .none, .none, rel_map hx fun i j hij => ⟨rfl, .some ?_⟩⟩
    exact h.heap.ofScope hac hij limits
  | callFrom x y =>
    have hx := h.environments x (hmine x (by simp [Action.names]))
    refine ⟨.none, .none, .none, rel_map hx fun e f hef => ⟨rfl, .some ?_⟩⟩
    exact h.heap.child hac hef
  | closeBlock x y =>
    have hx := h.environments x (hmine x (by cases y <;> simp [Action.names]))
    refine ⟨.none, ?_, .none, rel_map hx fun e f hef => ⟨rfl, .some hef.closed⟩⟩
    cases y with
    | none => exact .none
    | some y =>
      refine rel_bind hx fun e f hef => rel_map hef.head? fun i j hij => ⟨rfl, .some hij⟩
  | takeGlobal x y =>
    have hx := h.environments x (hmine x (by simp [Action.names]))
    exact ⟨.none, rel_map hx fun e f hef => ⟨rfl, .some hef.global⟩, .none, .none⟩
  | takeCurrent x y =>
    have hx := h.environments x (hmine x (by simp [Action.names]))
    exact ⟨.none, rel_map hx fun e f hef => ⟨rfl, .some hef.current⟩, .none, .none⟩
  | dropEnvironment x => exact ⟨.none, .none, .none, .some ⟨rfl, .none⟩⟩
  | _ => exact ⟨.none, .none, .none, .none⟩

end Session.Agrees

/-! ## 5. One action on both sides -/

/-- How two heaps change when the same is done to both: the correspondence
gains at most the pair of new cells, both gain as many cells, and outside of
the correspondence the second stays as it was. -/
structure Heap.Evolves (ρ ρ' : Correspondence) (heap other heap' other' : Heap) : Prop where
  le : ∀ i j, ρ i j → ρ' i j
  new : ∀ i j, ρ' i j → ρ i j ∨ i = ⟨heap.size⟩ ∧ j = ⟨other.size⟩
  size_eq : heap'.size + other.size = heap.size + other'.size
  size_le : heap.size ≤ heap'.size
  kept : ∀ k : Handle, k.index < other.size → (∀ i, ¬ ρ i k) → other'.scope k = other.scope k

namespace Heap.Agrees

variable {keep : String → Bool} {ρ : Correspondence} {heap other : Heap}

theorem evolves (h : heap.Agrees keep ρ other) (hac : heap.Acyclic) {d? d'? : Option Deed}
    (hd : Option.Rel (Deed.Agrees keep ρ) d? d'?) :
    Heap.Evolves ρ (ρ.after heap other d?) heap other (heap.perform d?) (other.perform d'?) := by
  cases hd with
  | none => exact ⟨fun _ _ => id, fun _ _ => .inl, rfl, Nat.le_refl _, fun _ _ _ => rfl⟩
  | some hd =>
    cases hd with
    | plant hst =>
      refine ⟨fun _ _ => .inl, fun _ _ => id, ?_, ?_, fun k hk _ => other.scope_add_of_lt _ hk⟩
      · simp only [Heap.perform, size_add]
        omega
      · simp only [Heap.perform, size_add]
        omega
    | @write i j mode hij name hn v =>
      have htarget := h.target hac hij hn mode
      refine ⟨fun _ _ => id, fun _ _ => .inl, ?_, ?_, fun k _ hout => ?_⟩
      · simp [Heap.perform, Heap.write]
      · simp [Heap.perform, Heap.write]
      · simp only [Heap.perform, Heap.write]
        rw [scope_bindAt, if_neg]
        rintro ⟨rfl, -⟩
        exact hout _ htarget

theorem evolves_replace {i j : Handle} (hij : ρ i j) (s t : Scope) :
    Heap.Evolves ρ ρ heap other (Store.write heap i s) (Store.write other j t) := by
  refine ⟨fun _ _ => id, fun _ _ => .inl, by simp, by simp, fun k _ hout => ?_⟩
  refine scope_replace_of_ne ?_ t
  rintro rfl
  exact hout i hij

end Heap.Agrees

namespace Session.Agrees

variable {mine keep : String → Bool} {ρ ρ' : Correspondence} {σ τ : Session}

theorem keepsContents_eq (h : σ.Agrees mine keep ρ τ) (hac : σ.heap.Acyclic) {a : Action}
    (hmine : ∀ x ∈ a.names, mine x) : a.keepsContents σ = a.keepsContents τ := by
  cases a with
  | store x y =>
    have hx := h.owned x (hmine x (by simp [Action.names]))
    have hy := h.handles y (hmine y (by simp [Action.names]))
    obtain ⟨hs, ht⟩ | ⟨s, t, hs, ht, hst⟩ := rel_cases hx
    · simp [Action.keepsContents, hs, ht]
    obtain ⟨hi, hj⟩ | ⟨i, j, hi, hj, hij⟩ := rel_cases hy
    · simp [Action.keepsContents, hi, hj]
    · have hmem := h.heap.mem_path_iff hac hst.parent hij
      rw [Bool.eq_iff_iff]
      simp only [Action.keepsContents, hs, ht, hi, hj, Option.bind_some,
        Option.isNone_iff_eq_none, Heap.replace?_eq_none_iff, hmem]
  | _ => rfl

theorem run_keeping (h : σ.Agrees mine keep ρ τ) (hac : σ.heap.Acyclic) {a : Action}
    (hmine : ∀ x ∈ a.names, mine x) (hkeep : ∀ n ∈ a.variable?, keep n)
    (hσ : a.keepsContents σ) (hτ : a.keepsContents τ) :
    let ρ' := ρ.after σ.heap τ.heap (a.deed? σ)
    (a.run σ).1.Agrees mine keep ρ' (a.run τ).1 ∧
    Heap.Evolves ρ ρ' σ.heap τ.heap (a.run σ).1.heap (a.run τ).1.heap := by
  intro ρ'
  have hlock := h.lockstep hac hmine hkeep
  have hle : ∀ i j, ρ i j → ρ' i j := fun _ _ => ρ.le_after _ _ _
  rw [Action.run_eq hσ, Action.run_eq hτ]
  refine ⟨⟨h.heap.perform hac hlock.deed, fun x hx => ?_, fun x hx => ?_, fun x hx => ?_⟩,
    h.heap.evolves hac hlock.deed⟩
  · exact Table.rebind_rel (rel_mono hle (h.handles x hx)) hlock.handle
  · exact Table.rebind_rel (rel_mono (fun _ _ hst => hst.mono hle) (h.owned x hx)) hlock.owned
  · exact Table.rebind_rel (rel_mono (fun _ _ hef => hef.mono hle) (h.environments x hx))
      hlock.environment

theorem run_store (h : σ.Agrees mine keep ρ τ) {x y : String} (hx : mine x) (hy : mine y)
    (hσ : ¬ (Action.store x y).keepsContents σ) (hτ : ¬ (Action.store x y).keepsContents τ) :
    ((Action.store x y).run σ).1.Agrees mine keep ρ ((Action.store x y).run τ).1 ∧
    Heap.Evolves ρ ρ σ.heap τ.heap ((Action.store x y).run σ).1.heap
      ((Action.store x y).run τ).1.heap := by
  obtain ⟨s, i, hs, hi, -, hrun⟩ := store_accepted hσ
  obtain ⟨t, j, ht, hj, -, hrun'⟩ := store_accepted hτ
  have hst := h.owned x hx
  have hij := h.handles y hy
  rw [hs, ht] at hst
  rw [hi, hj] at hij
  rw [hrun, hrun']
  cases hst with
  | some hst =>
    cases hij with
    | some hij =>
      refine ⟨⟨h.heap.replace hij hst, h.handles, fun z hz => ?_, h.environments⟩,
        Heap.Agrees.evolves_replace hij s t⟩
      exact Table.rebind_rel (c := some (x, some Scope.empty)) (d := some (x, some Scope.empty))
        (h.owned z hz) (.some ⟨rfl, .some (.empty keep ρ)⟩)

/-- **The step lemma**: an action that mentions only what is mine, and writes
only variables that are kept, done on both sides keeps them in agreement. -/
theorem run (h : σ.Agrees mine keep ρ τ) (hac : σ.heap.Acyclic) {a : Action}
    (hmine : ∀ x ∈ a.names, mine x) (hkeep : ∀ n ∈ a.variable?, keep n) :
    ∃ ρ', (a.run σ).1.Agrees mine keep ρ' (a.run τ).1 ∧
      Heap.Evolves ρ ρ' σ.heap τ.heap (a.run σ).1.heap (a.run τ).1.heap := by
  have heq := h.keepsContents_eq hac hmine
  by_cases hσ : a.keepsContents σ
  · exact ⟨_, h.run_keeping hac hmine hkeep hσ (heq ▸ hσ)⟩
  · cases a with
    | store x y =>
      exact ⟨ρ, h.run_store (hmine x (by simp [Action.names])) (hmine y (by simp [Action.names]))
        hσ (heq ▸ hσ)⟩
    | _ => exact absurd rfl hσ

/-! ### Answers -/

theorem related (h : σ.Agrees mine keep ρ τ) :
    σ.Related mine ρ (Scope.Agrees keep ρ) (Environment.Agrees ρ) τ :=
  ⟨h.handles, h.owned, h.environments⟩

/-- What an action that shows kept variables only answers is the same on both
sides. -/
theorem answer_eq (h : σ.Agrees mine keep ρ τ) (hac : σ.heap.Acyclic) {a : Action}
    (hmine : ∀ x ∈ a.names, mine x) (hshows : a.shows keep) : (a.run σ).2 = (a.run τ).2 := by
  have hrel := h.related
  cases a with
  | read t query name =>
    have ht := hmine _ (List.mem_singleton_self _)
    exact hrel.withLookup_snd ht (fun i j hij => h.heap.resolve?_eq hac (.some hij) hshows)
      (fun s t hst => hst.lookup_eq h.heap hac hshows) (fun e f hef => hef.current) fun _ => rfl
  | bindsHere t name =>
    have ht := hmine _ (List.mem_singleton_self _)
    match t with
    | .place p =>
      refine hrel.withScope_snd ht h.heap.scope fun s t hst => ?_
      rw [hst.binds_eq hshows]
    | .environment x =>
      refine hrel.withEnvironment_snd ht fun e f hef => ?_
      rw [(h.heap.scope _ _ hef.current).binds_eq hshows]
  | write t mode name v => exact hrel.write_snd (hmine _ (List.mem_singleton_self _)) mode name v
  | writeMember t name v =>
    exact hrel.write_snd (hmine _ (List.mem_singleton_self _)) .assign name (Value.ofHost v)
  | inspect p => cases hshows
  | snapshot => cases hshows
  | share x y | newChild x y | takeRoot x y | newOwnedInside x y | newEnvironmentOver x _ y =>
    exact hrel.withHandle_snd (hmine x (by simp [Action.names])) fun _ _ _ => rfl
  | takeParent p y =>
    have hp := hmine p.tableName (by simp [Action.names])
    refine hrel.withScope_snd hp h.heap.scope fun s t hst => ?_
    obtain ⟨hs, ht⟩ | ⟨i, j, hs, ht, -⟩ := rel_cases hst.parent <;> simp [hs, ht]
  | copyScope p y =>
    exact hrel.withScope_snd (hmine _ (by simp [Action.names])) h.heap.scope fun _ _ _ => rfl
  | chainDepth x =>
    refine hrel.withHandle_snd (hmine x (by simp [Action.names])) fun i j hij => ?_
    rw [h.heap.depth_eq hac hij]
  | sameScope x y =>
    refine hrel.withHandle_snd (hmine x (by simp [Action.names])) fun i j hij => ?_
    refine hrel.withHandle_snd (hmine y (by simp [Action.names])) fun k l hkl => ?_
    have hiff := h.heap.eq_iff hij hkl
    by_cases hik : i = k
    · simp [hik, hiff.mp hik]
    · have hjl : j ≠ l := fun hjl => hik (hiff.mpr hjl)
      simp [hik, hjl]
  | dropHandle x =>
    have hx := h.handles x (hmine x (by simp [Action.names]))
    simpa [Action.run] using rel_isSome hx
  | dropEnvironment x =>
    have hx := h.environments x (hmine x (by simp [Action.names]))
    simpa [Action.run] using rel_isSome hx
  | wrap x y => exact hrel.withOwned_snd (hmine x (by simp [Action.names])) fun _ _ _ => rfl
  | store x y =>
    refine hrel.withOwned_snd (hmine x (by simp [Action.names])) fun s t hst => ?_
    refine hrel.withHandle_snd (hmine y (by simp [Action.names])) fun i j hij => ?_
    have hnone : σ.heap.replace? i s = none ↔ τ.heap.replace? j t = none := by
      rw [Heap.replace?_eq_none_iff, Heap.replace?_eq_none_iff]
      exact h.heap.mem_path_iff hac hst.parent hij
    cases hr : σ.heap.replace? i s <;> cases hr' : τ.heap.replace? j t <;>
      simp_all [misuse]
  | callFrom x y | takeGlobal x y | takeCurrent x y =>
    exact hrel.withEnvironment_snd (hmine x (by simp [Action.names])) fun _ _ _ => rfl
  | depth x =>
    refine hrel.withEnvironment_snd (hmine x (by simp [Action.names])) fun e f hef => ?_
    rw [hef.depth_eq]
  | policy x =>
    refine hrel.withEnvironment_snd (hmine x (by simp [Action.names])) fun e f hef => ?_
    rw [hef.policy_eq]
  | enterClosure x y z =>
    exact hrel.enterClosure_snd (hmine x (by simp [Action.names]))
      (hmine y (by simp [Action.names])) z (fun e f hef => hef.policy_eq)
      fun i j hij => h.heap.depth_eq hac hij
  | openBlock x =>
    exact hrel.openBlock_snd (hmine x (by simp [Action.names])) (fun e f hef => hef.policy_eq)
      fun e f hef => hef.depth_eq
  | closeBlock x y =>
    have hx := hmine x (by cases y <;> simp [Action.names])
    refine hrel.withEnvironment_snd hx fun e f hef => ?_
    rw [σ.closeBlock_eq, τ.closeBlock_eq]
    obtain ⟨hi, hj⟩ | ⟨i, j, hi, hj, hij⟩ := rel_cases hef.head? <;> cases y <;> rw [hi, hj]
  | _ => rfl

end Session.Agrees

/-! ## 6. Names that an action does not mention -/

theorem Table.getElem?_rebind_other {α : Type} {t : Table α} {c : Rebinding α} {x : String}
    (h : ∀ a?, c ≠ some (x, a?)) : (t.rebind c)[x]? = t[x]? := by
  cases c with
  | none => rfl
  | some c =>
    obtain ⟨y, a?⟩ := c
    refine getElem?_rebind_ne t ?_ a?
    rintro rfl
    exact h a? rfl

section

variable {a : Action} {σ : Session} {x : String}

theorem Action.handle?_names {i? : Option Handle} (h : a.handle? σ = some (x, i?)) :
    x ∈ a.names := by
  cases a with
  | closeBlock e y =>
    cases y with
    | none => cases h
    | some y =>
      obtain ⟨env, -, h⟩ := Option.bind_eq_some_iff.mp h
      obtain ⟨i, -, h⟩ := Option.map_eq_some_iff.mp h
      cases h
      simp [names]
  | _ => simp_all [handle?, names, Option.bind_eq_some_iff] <;> grind

theorem Session.writeOwned?_name {t : Target} {mode : WriteMode} {name : String} {v : Value}
    {s? : Option Scope} (h : σ.writeOwned? t mode name v = some (x, s?)) : x = t.tableName := by
  match t with
  | .place (.owned y) =>
    obtain ⟨s, -, h⟩ := Option.map_eq_some_iff.mp h
    cases h
    rfl

theorem Action.owned?_names {s? : Option Scope} (h : a.owned? σ = some (x, s?)) :
    x ∈ a.names := by
  cases a with
  | write t mode name v => simp [names, Session.writeOwned?_name h]
  | writeMember t name v => simp [names, Session.writeOwned?_name h]
  | _ => simp_all [owned?, names] <;> grind

theorem Action.environment?_names {e? : Option Environment}
    (h : a.environment? σ = some (x, e?)) : x ∈ a.names := by
  cases Action.environment?_makes h with
  | closed he name => cases name <;> simp [names]
  | _ => simp [names]

/-- What an action does not mention stands for what it stood for. -/
theorem Action.run_other (hx : x ∉ a.names) :
    (a.run σ).1.handles[x]? = σ.handles[x]? ∧ (a.run σ).1.owned[x]? = σ.owned[x]? ∧
    (a.run σ).1.environments[x]? = σ.environments[x]? := by
  have henvironment : (a.run σ).1.environments[x]? = σ.environments[x]? := by
    rw [run_environments]
    exact Table.getElem?_rebind_other fun e? he => hx (environment?_names he)
  by_cases ha : a.keepsContents σ
  · refine ⟨?_, ?_, henvironment⟩
    · rw [run_handles ha]
      exact Table.getElem?_rebind_other fun i? hi => hx (handle?_names hi)
    · rw [run_owned ha]
      exact Table.getElem?_rebind_other fun s? hs => hx (owned?_names hs)
  · cases a with
    | store s h =>
      obtain ⟨scope, i, -, -, -, hrun⟩ := Session.store_accepted ha
      have hne : s ≠ x := by
        rintro rfl
        exact hx (by simp [names])
      rw [hrun]
      refine ⟨rfl, ?_, rfl⟩
      simp [Std.ExtTreeMap.getElem?_insert, hne]
    | _ => exact absurd rfl ha

end

end ScopeChain

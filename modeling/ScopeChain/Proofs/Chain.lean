/-
ScopeChain.Proofs.Chain — the chains of an acyclic heap.

The operations on a heap climb with a bound, the number of its cells, and
so say nothing about what happens when the bound is felt. `IsPath` says
what climbing is FOR: the list of cells met by following parents from a
cell until a scope has none. A heap is `Acyclic` when every cell has such
a list.

In an acyclic heap the bound is never felt (`IsPath.path_eq`): a path
repeats no cell (`IsPath.nodup`), hence is no longer than the heap. From
there on chains are lists with an equation, and root, depth and lookup
are what one reads off them:

* `Acyclic.chain_eq` — a chain is its cell, then the path of the parent;
* `Acyclic.getLast?_chain` — it ends in the root;
* `lookup_eq_findSome?` — a lookup is the first hit along it.

`Grows` is the frame of every step that replaces no scope: cells are
added, contents may change, parents do not. Paths survive it.
-/
import ScopeChain.Scope.Heap

namespace ScopeChain

namespace Heap

/-! ## 1. Paths -/

/-- The cells met by following parents from a starting point until a scope
has none; all of them are cells of the heap. -/
inductive IsPath (heap : Heap) : Option Handle → List Handle → Prop
  | done : IsPath heap none []
  | up {i : Handle} {rest : List Handle} (hi : i.index < heap.size)
      (h : IsPath heap (heap.scope i).parent rest) : IsPath heap (some i) (i :: rest)

variable {heap later : Heap} {start : Option Handle} {path : List Handle}

/-- A starting point has at most one path. -/
theorem IsPath.unique {other : List Handle} (h : heap.IsPath start path)
    (h' : heap.IsPath start other) : path = other := by
  induction h generalizing other with
  | done => cases h'; rfl
  | up _ _ ih =>
    cases h' with
    | up _ h' => rw [ih h']

theorem IsPath.lt_size (h : heap.IsPath start path) : ∀ i ∈ path, i.index < heap.size := by
  induction h with
  | done => intro i hi; cases hi
  | up hi _ ih =>
    intro k hk
    rcases List.mem_cons.mp hk with rfl | hk
    · exact hi
    · exact ih k hk

/-- Every cell met has a path of its own, a tail of the one it is met on. -/
theorem IsPath.of_mem (h : heap.IsPath start path) {i : Handle} (hi : i ∈ path) :
    ∃ rest, heap.IsPath (some i) rest ∧ rest <:+ path := by
  induction h with
  | done => cases hi
  | @up k rest hk h ih =>
    rcases List.mem_cons.mp hi with rfl | hi
    · exact ⟨_, .up hk h, List.suffix_refl _⟩
    · obtain ⟨l, hl, hsuf⟩ := ih hi
      exact ⟨l, hl, hsuf.trans (List.suffix_cons _ _)⟩

/-- No cell is met twice: it would have two paths, one longer than the
other. -/
theorem IsPath.nodup (h : heap.IsPath start path) : path.Nodup := by
  induction h with
  | done => exact List.nodup_nil
  | @up i rest hi h ih =>
    refine List.nodup_cons.mpr ⟨fun hmem => ?_, ih⟩
    obtain ⟨l, hl, hsuf⟩ := h.of_mem hmem
    have heq : l = i :: rest := hl.unique (.up hi h)
    have hle := hsuf.length_le
    rw [heq, List.length_cons] at hle
    omega

/-- A path is no longer than a list that has the positions of all its cells. -/
theorem IsPath.length_le_of_mem (h : heap.IsPath start path) {positions : List Nat}
    (hmem : ∀ i ∈ path, i.index ∈ positions) : path.length ≤ positions.length := by
  have hsub : path.map Handle.index ⊆ positions := by
    intro n hn
    obtain ⟨i, hi, rfl⟩ := List.mem_map.mp hn
    exact hmem i hi
  have hnd : (path.map Handle.index).Nodup := by
    refine List.Pairwise.map _ (fun a b hab he => hab ?_) h.nodup
    cases a; cases b; cases he; rfl
  simpa using hnd.length_le_of_subset hsub

/-- A path is no longer than the heap. -/
theorem IsPath.length_le (h : heap.IsPath start path) : path.length ≤ heap.size := by
  have hrange : ∀ i ∈ path, i.index ∈ List.range heap.size :=
    fun i hi => List.mem_range.mpr (h.lt_size i hi)
  simpa using h.length_le_of_mem hrange

/-- A bound that covers the path is not felt. -/
theorem IsPath.climb_eq (h : heap.IsPath start path) :
    ∀ {bound : Nat}, path.length ≤ bound → heap.climb bound start = path := by
  induction h with
  | done => intro bound _; cases bound <;> rfl
  | up _ _ ih =>
    intro bound hb
    cases bound with
    | zero => simp at hb
    | succ bound => rw [climb, ih (by simpa using hb)]

theorem IsPath.path_eq (h : heap.IsPath start path) : heap.path start = path :=
  h.climb_eq h.length_le

/-- The first scope without a parent is the last of its path. -/
theorem IsPath.find?_isRoot (h : heap.IsPath start path) :
    path.find? (fun i => (heap.scope i).isRoot) = path.getLast? := by
  induction h with
  | done => rfl
  | @up i rest hi h ih =>
    rw [List.find?_cons]
    cases hp : (heap.scope i).parent with
    | none =>
      rw [hp] at h
      cases h
      simp [Scope.isRoot, hp]
    | some p =>
      rw [hp] at h
      cases h with
      | up _ _ =>
        rw [List.getLast?_cons_cons, ← ih]
        simp [Scope.isRoot, hp]

/-! ## 2. Acyclic heaps -/

/-- From every cell the parents lead to a root. -/
def Acyclic (heap : Heap) : Prop := ∀ i : Handle, i.index < heap.size → ∃ l, heap.IsPath (some i) l

theorem acyclic_empty : Acyclic empty := fun _ hi => absurd hi (Nat.not_lt_zero _)

theorem Acyclic.isPath_chain (h : heap.Acyclic) {i : Handle} (hi : i.index < heap.size) :
    heap.IsPath (some i) (heap.chain i) := by
  obtain ⟨l, hl⟩ := h i hi
  rw [chain, hl.path_eq]
  exact hl

/-- The parent of a cell's scope is a cell. -/
theorem Acyclic.parent_lt (h : heap.Acyclic) {i p : Handle} (hi : i.index < heap.size)
    (hp : (heap.scope i).parent = some p) : p.index < heap.size := by
  have hpath := h.isPath_chain hi
  generalize heap.chain i = l at hpath
  cases hpath with
  | up _ hrest =>
    rw [hp] at hrest
    cases hrest with
    | up hlt _ => exact hlt

theorem Acyclic.isPath_path (h : heap.Acyclic) (hs : ∀ i ∈ start, i.index < heap.size) :
    heap.IsPath start (heap.path start) := by
  cases start with
  | none => rw [IsPath.done.path_eq]; exact .done
  | some i => exact h.isPath_chain (hs i rfl)

/-- A chain is its cell and then the path of the parent. -/
theorem Acyclic.chain_eq (h : heap.Acyclic) {i : Handle} (hi : i.index < heap.size) :
    heap.chain i = i :: heap.path (heap.scope i).parent := by
  have hp : ∀ p ∈ (heap.scope i).parent, p.index < heap.size := fun p hp =>
    h.parent_lt hi (Option.mem_def.mp hp)
  exact (IsPath.up hi (h.isPath_path hp)).path_eq

theorem Acyclic.chain_of_parent (h : heap.Acyclic) {i p : Handle} (hi : i.index < heap.size)
    (hp : (heap.scope i).parent = some p) : heap.chain i = i :: heap.chain p := by
  rw [h.chain_eq hi, hp, chain]

/-! ## 3. Root, depth and lookup, read off the chain -/

theorem IsPath.root_eq {i : Handle} (h : heap.IsPath (some i) path) :
    path.getLast? = some (heap.root i) := by
  rw [root, firstUp?_eq_find?, h.path_eq, h.find?_isRoot]
  cases h with
  | up _ _ => simp [List.getLast?_cons]

/-- A chain ends in the root. -/
theorem Acyclic.getLast?_chain (h : heap.Acyclic) {i : Handle} (hi : i.index < heap.size) :
    (heap.chain i).getLast? = some (heap.root i) :=
  (h.isPath_chain hi).root_eq

theorem Acyclic.root_lt (h : heap.Acyclic) {i : Handle} (hi : i.index < heap.size) :
    (heap.root i).index < heap.size :=
  (h.isPath_chain hi).lt_size _ (List.mem_of_getLast? (h.getLast?_chain hi))

theorem Acyclic.root_of_parent (h : heap.Acyclic) {i p : Handle} (hi : i.index < heap.size)
    (hp : (heap.scope i).parent = some p) : heap.root i = heap.root p := by
  have hlast := h.getLast?_chain hi
  rw [h.chain_of_parent hi hp, List.getLast?_cons, h.getLast?_chain (h.parent_lt hi hp)] at hlast
  exact (Option.some.inj hlast).symm

theorem Acyclic.chain_of_root (h : heap.Acyclic) {i : Handle} (hi : i.index < heap.size)
    (hp : (heap.scope i).parent = none) : heap.chain i = [i] := by
  rw [h.chain_eq hi, hp, IsPath.done.path_eq]

theorem Acyclic.depth_of_parent (h : heap.Acyclic) {i p : Handle} (hi : i.index < heap.size)
    (hp : (heap.scope i).parent = some p) : heap.depth i = heap.depth p + 1 := by
  rw [depth_eq_length_chain, depth_eq_length_chain, h.chain_of_parent hi hp, List.length_cons]

/-- The root of a chain is a root, and its own one. -/
theorem Acyclic.parent_root (h : heap.Acyclic) {i : Handle} (hi : i.index < heap.size) :
    (heap.scope (heap.root i)).parent = none := by
  have hfind := (h.isPath_chain hi).find?_isRoot
  rw [h.getLast?_chain hi] at hfind
  have hroot := List.find?_some hfind
  exact Option.isNone_iff_eq_none.mp hroot

theorem Acyclic.chain_root (h : heap.Acyclic) {i : Handle} (hi : i.index < heap.size) :
    heap.chain (heap.root i) = [heap.root i] :=
  h.chain_of_root (h.root_lt hi) (h.parent_root hi)

theorem Acyclic.depth_root (h : heap.Acyclic) {i : Handle} (hi : i.index < heap.size) :
    heap.depth (heap.root i) = 1 := by
  rw [depth_eq_length_chain, h.chain_root hi, List.length_singleton]

theorem Acyclic.root_root (h : heap.Acyclic) {i : Handle} (hi : i.index < heap.size) :
    heap.root (heap.root i) = heap.root i := by
  have hlast := h.getLast?_chain (h.root_lt hi)
  rw [h.chain_root hi] at hlast
  exact (Option.some.inj hlast).symm

/-- The chain of a scope met on the way is the rest of the way. -/
theorem Acyclic.chain_suffix (h : heap.Acyclic) {i k : Handle} (hi : i.index < heap.size)
    (hk : k ∈ heap.chain i) : heap.chain k <:+ heap.chain i := by
  obtain ⟨l, hl, hsuffix⟩ := (h.isPath_chain hi).of_mem hk
  rw [chain, hl.path_eq]
  exact hsuffix

theorem Acyclic.root_of_mem_chain (h : heap.Acyclic) {i k : Handle} (hi : i.index < heap.size)
    (hk : k ∈ heap.chain i) : heap.root k = heap.root i := by
  obtain ⟨before, hbefore⟩ := h.chain_suffix hi hk
  have hlast := h.getLast?_chain hi
  rw [← hbefore, List.getLast?_append,
    h.getLast?_chain ((h.isPath_chain hi).lt_size k hk)] at hlast
  exact Option.some.inj hlast

theorem Acyclic.root_mem_chain (h : heap.Acyclic) {i : Handle} (hi : i.index < heap.size) :
    heap.root i ∈ heap.chain i :=
  List.mem_of_getLast? (h.getLast?_chain hi)

/-- A chain has one scope without a parent. -/
theorem Acyclic.eq_root_of_mem_chain (h : heap.Acyclic) {i k : Handle} (hi : i.index < heap.size)
    (hk : k ∈ heap.chain i) (hp : (heap.scope k).parent = none) : k = heap.root i := by
  have hlt := (h.isPath_chain hi).lt_size k hk
  have hlast := h.getLast?_chain hlt
  rw [h.chain_of_root hlt hp, h.root_of_mem_chain hi hk] at hlast
  exact Option.some.inj hlast

theorem Acyclic.parent_mem_chain (h : heap.Acyclic) {i k p : Handle} (hi : i.index < heap.size)
    (hk : k ∈ heap.chain i) (hp : (heap.scope k).parent = some p) : p ∈ heap.chain i := by
  have hlt := (h.isPath_chain hi).lt_size k hk
  refine (h.chain_suffix hi hk).subset ?_
  rw [h.chain_of_parent hlt hp, h.chain_eq (h.parent_lt hlt hp)]
  simp

/-- Resolving a name is finding the first scope on the path that has it. -/
theorem resolve?_eq_findSome? (heap : Heap) (start : Option Handle) (name : String) :
    heap.resolve? start name = (heap.path start).findSome? fun i => (heap.scope i).find? name := by
  rw [resolve?, binder?, firstUp?_eq_find?]
  induction heap.path start with
  | nil => rfl
  | cons i rest ih =>
    rw [List.find?_cons, List.findSome?_cons, Scope.binds_eq_isSome]
    cases hf : (heap.scope i).find? name with
    | none => simpa using ih
    | some v => simp [hf]

theorem lookup_eq_findSome? (heap : Heap) (i : Handle) (name : String) :
    heap.lookup i name = (heap.chain i).findSome? fun k => (heap.scope k).find? name :=
  heap.resolve?_eq_findSome? (some i) name

/-! ## 4. Writes -/

theorem find?_bindAt_ne (heap : Heap) (t : Handle) {name n : String} (v : Value) (k : Handle)
    (hn : n ≠ name) : ((heap.bindAt t name v).scope k).find? n = (heap.scope k).find? n := by
  rw [scope_bindAt]
  split
  · rw [Scope.find?_bind, if_neg hn]
  · rfl

theorem binds_bindAt_mono (heap : Heap) (t : Handle) (name : String) (v : Value) {k : Handle}
    {n : String} (hn : (heap.scope k).binds n) : ((heap.bindAt t name v).scope k).binds n := by
  rw [scope_bindAt]
  split
  · rw [Scope.binds_eq_isSome, Scope.find?_bind]
    split
    · rfl
    · rwa [← Scope.binds_eq_isSome]
  · exact hn

/-- A scope that is given a value for a name it binds binds no others. -/
theorem binds_bindAt_of_binds (heap : Heap) {t k : Handle} {name : String}
    (ht : (heap.scope t).binds name) (v : Value) {n : String} :
    ((heap.bindAt t name v).scope k).binds n = (heap.scope k).binds n := by
  by_cases hn : n = name
  · subst hn
    rw [scope_bindAt]
    split
    · next hk =>
      rw [hk.1, ht, Scope.binds_eq_isSome, Scope.find?_bind, if_pos rfl]
      rfl
    · rfl
  · rw [Scope.binds_eq_isSome, find?_bindAt_ne heap t v k hn, ← Scope.binds_eq_isSome]

/-- A write through a scope goes to one of its chain. -/
theorem Acyclic.target_mem_chain (h : heap.Acyclic) {i : Handle} (hi : i.index < heap.size)
    (mode : WriteMode) (name : String) : heap.target mode i name ∈ heap.chain i := by
  have hroot := h.root_mem_chain hi
  cases mode with
  | declare =>
    rw [target, h.chain_eq hi]
    exact List.mem_cons_self
  | global => exact hroot
  | assign =>
    rw [target]
    cases hbinder : heap.binder? (some i) name with
    | none => exact hroot
    | some t =>
      rw [binder?, firstUp?_eq_find?] at hbinder
      exact List.mem_of_find?_eq_some hbinder

theorem Acyclic.target_lt (h : heap.Acyclic) {i : Handle} (hi : i.index < heap.size)
    (mode : WriteMode) (name : String) : (heap.target mode i name).index < heap.size :=
  (h.isPath_chain hi).lt_size _ (h.target_mem_chain hi mode name)

/-! ## 5. Growth

Every step but the replacement of a scope adds cells and changes contents
only. What hangs on parents is then as it was, for the cells that were
there. -/

/-- `later` has the cells of `heap`, with the parents they had. -/
structure Grows (heap later : Heap) : Prop where
  size_le : heap.size ≤ later.size
  parent_eq : ∀ i : Handle, i.index < heap.size →
    (later.scope i).parent = (heap.scope i).parent

theorem Grows.refl (heap : Heap) : Grows heap heap := ⟨Nat.le_refl _, fun _ _ => rfl⟩

theorem Grows.lt_size (h : Grows heap later) {i : Handle} (hi : i.index < heap.size) :
    i.index < later.size :=
  Nat.lt_of_lt_of_le hi h.size_le

theorem size_add (heap : Heap) (s : Scope) : (heap.add s).1.size = heap.size + 1 :=
  Store.size_alloc heap s

theorem scope_add_of_lt (heap : Heap) (s : Scope) {i : Handle} (hi : i.index < heap.size) :
    (heap.add s).1.scope i = heap.scope i := by
  rw [scope_add, if_neg]
  rintro rfl
  exact Nat.lt_irrefl _ hi

/-- The cell of a new scope is one. -/
theorem new_lt_size_add (heap : Heap) (s : Scope) :
    (⟨heap.size⟩ : Handle).index < (heap.add s).1.size := by
  rw [size_add]
  exact Nat.lt_succ_self _

theorem scope_add_new (heap : Heap) (s : Scope) : (heap.add s).1.scope ⟨heap.size⟩ = s := by
  rw [scope_add, if_pos rfl]

theorem grows_add (heap : Heap) (s : Scope) : Grows heap (heap.add s).1 where
  size_le := by rw [size_add]; exact Nat.le_succ _
  parent_eq i hi := by rw [scope_add_of_lt heap s hi]

theorem grows_write (heap : Heap) (mode : WriteMode) (i : Handle) (name : String) (v : Value) :
    Grows heap (heap.write mode i name v) where
  size_le := Nat.le_of_eq (size_bindAt heap _ name v).symm
  parent_eq k _ := parent_bindAt heap _ name v k

theorem IsPath.grow (h : heap.IsPath start path) (hg : Grows heap later) :
    later.IsPath start path := by
  induction h with
  | done => exact .done
  | up hi _ ih =>
    refine .up (hg.lt_size hi) ?_
    rw [hg.parent_eq _ hi]
    exact ih

theorem Acyclic.chain_grow (h : heap.Acyclic) (hg : Grows heap later) {i : Handle}
    (hi : i.index < heap.size) : later.chain i = heap.chain i :=
  ((h.isPath_chain hi).grow hg).path_eq

theorem Acyclic.root_grow (h : heap.Acyclic) (hg : Grows heap later) {i : Handle}
    (hi : i.index < heap.size) : later.root i = heap.root i := by
  have hpath := h.isPath_chain hi
  have hlast := (hpath.grow hg).root_eq
  rw [hpath.root_eq] at hlast
  exact (Option.some.inj hlast).symm

theorem Acyclic.depth_grow (h : heap.Acyclic) (hg : Grows heap later) {i : Handle}
    (hi : i.index < heap.size) : later.depth i = heap.depth i := by
  rw [depth_eq_length_chain, depth_eq_length_chain, h.chain_grow hg hi]

/-- The chain of a new scope is that scope and the path of its parent. -/
theorem Acyclic.isPath_add (h : heap.Acyclic) {s : Scope}
    (hs : ∀ p ∈ s.parent, p.index < heap.size) :
    (heap.add s).1.IsPath (some ⟨heap.size⟩) (⟨heap.size⟩ :: heap.path s.parent) := by
  refine .up (new_lt_size_add heap s) ?_
  rw [scope_add_new]
  exact (h.isPath_path hs).grow (grows_add heap s)

/-- A new scope whose parent, if it has one, is a cell closes no cycle:
nobody has it for a parent yet. -/
theorem Acyclic.add (h : heap.Acyclic) {s : Scope}
    (hs : ∀ p ∈ s.parent, p.index < heap.size) : (heap.add s).1.Acyclic := by
  rintro ⟨n⟩ hn
  rw [size_add] at hn
  rcases Nat.lt_succ_iff_lt_or_eq.mp hn with hlt | rfl
  · exact ⟨_, (h.isPath_chain hlt).grow (grows_add heap s)⟩
  · exact ⟨_, h.isPath_add hs⟩

theorem Acyclic.write (h : heap.Acyclic) (mode : WriteMode) (i : Handle) (name : String)
    (v : Value) : (heap.write mode i name v).Acyclic := by
  intro k hk
  have hlt : k.index < heap.size := by
    rwa [Heap.write, size_bindAt] at hk
  exact ⟨_, (h.isPath_chain hlt).grow (grows_write heap mode i name v)⟩

end Heap

end ScopeChain

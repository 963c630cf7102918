/-
ScopeChain.Proofs.Splicing — what replacing a scope is to everybody
inside it.

A scope that is put into a cell brings its bindings and its parent. All
chains through the cell are cut there and go on along the new parent, in
one step and for whoever looks through them. What a chain was before the
cell it remains (`Fits.path_through`), and what the new scope's own chain
was it remains too, because the cell is not on it (`Fits.path_off`): a
splice moves two lists together and changes neither. Lookup, root, depth
and the targets of writes are read off the spliced list.

Environments know of a splice only what they look up. Their depth and
their global scope were settled when they were made.
-/
import Mathlib.Data.List.Find
import ScopeChain.Proofs.Acyclicity

namespace ScopeChain

/-- The number of scopes in the chain of an owned scope, that scope counted. -/
def Scope.chainLength (s : Scope) (heap : Heap) : Nat := 1 + (heap.path s.parent).length

namespace Heap

/-- The scope `s` can be put into the cell `h` of an acyclic heap: its parent
is a cell, and its chain does not come by the cell. -/
structure Fits (heap : Heap) (h : Handle) (s : Scope) : Prop where
  acyclic : heap.Acyclic
  lt_size : h.index < heap.size
  parent_lt : ∀ p ∈ s.parent, p.index < heap.size
  not_mem : h ∉ heap.path s.parent

variable {heap : Heap} {h g : Handle} {s : Scope} {start : Option Handle}
  {inner outer : List Handle}

/-! ## 1. Paths off the cell, and through it -/

/-- A search that starts at a cell starts at a cell. -/
theorem lt_of_mem_some (hg : g.index < heap.size) : ∀ i ∈ some g, i.index < heap.size := fun _ hi =>
  Option.mem_some.mp hi ▸ hg

theorem Fits.scope_self (hfit : heap.Fits h s) : Heap.scope (Store.write heap h s) h = s := by
  rw [scope_replace, if_pos ⟨rfl, hfit.lt_size⟩]

theorem Fits.acyclic_later (hfit : heap.Fits h s) : Heap.Acyclic (Store.write heap h s) :=
  hfit.acyclic.replace hfit.parent_lt hfit.not_mem

/-- A path that does not come by the cell is what it was. -/
theorem Fits.path_off (hfit : heap.Fits h s) (hstart : ∀ i ∈ start, i.index < heap.size)
    (hoff : h ∉ heap.path start) : Heap.path (Store.write heap h s) start = heap.path start :=
  ((hfit.acyclic.isPath_path hstart).replace_off hoff s).path_eq

/-- A path through the cell is what it was up to the cell, and then that of the
new scope. -/
theorem Fits.path_through (hfit : heap.Fits h s) (hstart : ∀ i ∈ start, i.index < heap.size)
    (hpath : heap.path start = inner ++ h :: outer) :
    Heap.path (Store.write heap h s) start = inner ++ h :: heap.path s.parent := by
  have hold := hfit.acyclic.isPath_path hstart
  rw [hpath] at hold
  exact (hold.replace_through (hfit.acyclic.isPath_path hfit.parent_lt) hfit.not_mem).path_eq

/-- The cell is met once. -/
theorem Fits.not_mem_inner (hfit : heap.Fits h s) (hstart : ∀ i ∈ start, i.index < heap.size)
    (hpath : heap.path start = inner ++ h :: outer) : h ∉ inner := by
  have hnodup := (hfit.acyclic.isPath_path hstart).nodup
  rw [hpath] at hnodup
  exact fun hmem => (List.nodup_append.mp hnodup).2.2 h hmem h List.mem_cons_self rfl

/-! ## 2. Searching along them

The same two lemmas twice, for the value of a name and for the scope that
binds it. -/

/-- What is found in cells other than `h` is found there afterwards. -/
theorem findSome?_replace (s : Scope) {l : List Handle} (hl : h ∉ l) (name : String) :
    (l.findSome? fun k => (Heap.scope (Store.write heap h s) k).find? name) =
      l.findSome? fun k => (heap.scope k).find? name := by
  induction l with
  | nil => rfl
  | cons k l ih =>
    rw [List.mem_cons, not_or] at hl
    rw [List.findSome?_cons, List.findSome?_cons, ih hl.2, scope_replace_of_ne (Ne.symm hl.1)]

theorem find?_replace (s : Scope) {l : List Handle} (hl : h ∉ l) (name : String) :
    (l.find? fun k => (Heap.scope (Store.write heap h s) k).binds name) =
      l.find? fun k => (heap.scope k).binds name := by
  refine List.find?_congr fun k hk => ?_
  rw [scope_replace_of_ne (ne_of_mem_of_not_mem hk hl)]

theorem Fits.resolve?_off (hfit : heap.Fits h s) (hstart : ∀ i ∈ start, i.index < heap.size)
    (hoff : h ∉ heap.path start) (name : String) :
    Heap.resolve? (Store.write heap h s) start name = heap.resolve? start name := by
  rw [resolve?_eq_findSome?, hfit.path_off hstart hoff, findSome?_replace s hoff,
    resolve?_eq_findSome?]

theorem Fits.binder?_off (hfit : heap.Fits h s) (hstart : ∀ i ∈ start, i.index < heap.size)
    (hoff : h ∉ heap.path start) (name : String) :
    Heap.binder? (Store.write heap h s) start name = heap.binder? start name := by
  rw [binder?, binder?, firstUp?_eq_find?, firstUp?_eq_find?, hfit.path_off hstart hoff,
    find?_replace s hoff]

/-- **What is found through the cell**: the nearest binding before it, or what
is found from the new scope. -/
theorem Fits.resolve?_through (hfit : heap.Fits h s)
    (hstart : ∀ i ∈ start, i.index < heap.size)
    (hpath : heap.path start = inner ++ h :: outer) (name : String) :
    Heap.resolve? (Store.write heap h s) start name =
      (inner.findSome? fun k => (heap.scope k).find? name).or (s.lookup heap name) := by
  have hinner := hfit.not_mem_inner hstart hpath
  rw [resolve?_eq_findSome?, hfit.path_through hstart hpath, List.findSome?_append,
    findSome?_replace s hinner, List.findSome?_cons, hfit.scope_self,
    findSome?_replace s hfit.not_mem, ← resolve?_eq_findSome?]
  unfold Scope.lookup
  cases s.find? name <;> rfl

/-- Which scope binds a name: the nearest before the cell, or the cell itself,
or the one that the new scope sees. -/
theorem Fits.binder?_through (hfit : heap.Fits h s)
    (hstart : ∀ i ∈ start, i.index < heap.size)
    (hpath : heap.path start = inner ++ h :: outer) (name : String) :
    Heap.binder? (Store.write heap h s) start name =
      (inner.find? fun k => (heap.scope k).binds name).or
        (if s.binds name then some h else heap.binder? s.parent name) := by
  have hinner := hfit.not_mem_inner hstart hpath
  rw [binder?, firstUp?_eq_find?, hfit.path_through hstart hpath, List.find?_append,
    find?_replace s hinner, List.find?_cons, hfit.scope_self, find?_replace s hfit.not_mem,
    binder?, firstUp?_eq_find?]
  cases s.binds name <;> rfl

/-! ## 3. Chains of cells -/

/-- For the scope at `g`, nothing is different in `later`. -/
structure SeesAlike (heap later : Heap) (g : Handle) : Prop where
  chain_eq : later.chain g = heap.chain g
  lookup_eq : ∀ name, later.lookup g name = heap.lookup g name
  root_eq : later.root g = heap.root g
  depth_eq : later.depth g = heap.depth g
  target_eq : ∀ mode name, later.target mode g name = heap.target mode g name

/-- For the scope at `g`, the chain is `inner` and then that of `s`, which is
now in the cell `h`. -/
structure SeesSpliced (heap : Heap) (h : Handle) (s : Scope) (inner : List Handle) (later : Heap)
    (g : Handle) : Prop where
  chain_eq : later.chain g = inner ++ h :: heap.path s.parent
  lookup_eq : ∀ name, later.lookup g name =
    (inner.findSome? fun k => (heap.scope k).find? name).or (s.lookup heap name)
  root_eq : later.root g = s.parent.elim h heap.root
  depth_eq : later.depth g = inner.length + s.chainLength heap
  global_eq : ∀ name, later.target .global g name = (s.target? heap .global name).getD h
  assign_eq : ∀ name, later.target .assign g name =
    ((inner.find? fun k => (heap.scope k).binds name).or (s.target? heap .assign name)).getD h

/-- A chain of cells through the cell, then, is spliced there. -/
theorem Fits.chain_through (hfit : heap.Fits h s) (hg : g.index < heap.size)
    (hchain : heap.chain g = inner ++ h :: outer) :
    Heap.chain (Store.write heap h s) g = inner ++ h :: heap.path s.parent :=
  hfit.path_through (lt_of_mem_some hg) hchain

theorem Fits.seesAlike (hfit : heap.Fits h s) (hg : g.index < heap.size)
    (hoff : h ∉ heap.chain g) : heap.SeesAlike (Store.write heap h s) g := by
  have hstart := lt_of_mem_some hg
  have hchain : Heap.chain (Store.write heap h s) g = heap.chain g := hfit.path_off hstart hoff
  have hroot : Heap.root (Store.write heap h s) g = heap.root g := by
    have hlast := hfit.acyclic_later.getLast?_chain (i := g) (by simpa using hg)
    rw [hchain, hfit.acyclic.getLast?_chain hg] at hlast
    exact (Option.some.inj hlast).symm
  refine ⟨hchain, hfit.resolve?_off hstart hoff, hroot, ?_, fun mode name => ?_⟩
  · rw [depth_eq_length_chain, depth_eq_length_chain, hchain]
  · cases mode with
    | declare => rfl
    | global => exact hroot
    | assign => simp only [target, hfit.binder?_off hstart hoff, hroot]

/-- The root of the new scope ends the spliced chain. -/
theorem Fits.root_through (hfit : heap.Fits h s) (hg : g.index < heap.size)
    (hchain : heap.chain g = inner ++ h :: outer) :
    Heap.root (Store.write heap h s) g = s.parent.elim h heap.root := by
  have hlast := hfit.acyclic_later.getLast?_chain (i := g) (by simpa using hg)
  rw [hfit.chain_through hg hchain, List.getLast?_append, List.getLast?_cons] at hlast
  cases hp : s.parent with
  | none =>
    rw [hp, path_none] at hlast
    exact (Option.some.inj hlast).symm
  | some p =>
    have hparent : (heap.path (some p)).getLast? = some (heap.root p) :=
      hfit.acyclic.getLast?_chain (hfit.parent_lt p hp)
    rw [hp, hparent] at hlast
    exact (Option.some.inj hlast).symm

theorem Fits.seesSpliced (hfit : heap.Fits h s) (hg : g.index < heap.size)
    (hchain : heap.chain g = inner ++ h :: outer) :
    heap.SeesSpliced h s inner (Store.write heap h s) g := by
  have hstart := lt_of_mem_some hg
  have hlater := hfit.chain_through hg hchain
  have hroot := hfit.root_through hg hchain
  refine ⟨hlater, hfit.resolve?_through hstart hchain, hroot, ?_, fun name => ?_, fun name => ?_⟩
  · rw [depth_eq_length_chain, hlater, Scope.chainLength, List.length_append, List.length_cons]
    omega
  · rw [target, hroot, Scope.target?]
    cases s.parent <;> rfl
  · simp only [target, hfit.binder?_through hstart hchain, hroot, Scope.target?]
    cases inner.find? fun k => (heap.scope k).binds name with
    | some k => rfl
    | none =>
      cases s.binds name with
      | true => rfl
      | false =>
        cases hp : s.parent with
        | none => simp [binder?, firstUp?_eq_find?, path_none]
        | some p => rfl

/-! ## 4. Scopes outside of cells -/

theorem Fits.owned_off (hfit : heap.Fits h s) {w : Scope}
    (hw : ∀ p ∈ w.parent, p.index < heap.size) (hoff : h ∉ heap.path w.parent) (name : String) :
    w.lookup (Store.write heap h s) name = w.lookup heap name := by
  unfold Scope.lookup
  rw [hfit.resolve?_off hw hoff]

theorem Fits.owned_through (hfit : heap.Fits h s) {w : Scope}
    (hw : ∀ p ∈ w.parent, p.index < heap.size)
    (hpath : heap.path w.parent = inner ++ h :: outer) (name : String) :
    w.lookup (Store.write heap h s) name =
      ((w.find? name).or (inner.findSome? fun k => (heap.scope k).find? name)).or
        (s.lookup heap name) := by
  rw [Scope.lookup, hfit.resolve?_through hw hpath]
  cases w.find? name <;> rfl

theorem Fits.chainLength_through (hfit : heap.Fits h s) {w : Scope}
    (hw : ∀ p ∈ w.parent, p.index < heap.size)
    (hpath : heap.path w.parent = inner ++ h :: outer) :
    w.chainLength (Store.write heap h s) = (1 + inner.length) + s.chainLength heap := by
  rw [Scope.chainLength, hfit.path_through hw hpath, List.length_append, List.length_cons,
    Scope.chainLength]
  omega

end Heap

/-! ## 5. Environments -/

/-- What a script gets from the environment `e` that is stored under `z`, in a
session with the heap `later`: its depth and its global scope from the
environment itself, everything else from the heap. -/
structure Session.Consults (τ : Session) (later : Heap) (z : String) (e : Environment) :
    Prop where
  stored : τ.environments[z]? = some e
  depth_eq : ((Action.depth z).run τ).2 = .count e.depth
  global_eq : ∀ x, ((Action.takeGlobal z x).run τ).1.handles[x]? = some e.global
  read_eq : ∀ query name,
    ((Action.read (.environment z) query name).run τ).2 = query.answer (later.lookup e.current name)
  write_eq : ∀ mode name v, ((Action.write (.environment z) mode name v).run τ).1.heap =
    later.bindAt (later.target mode e.current name) name v

theorem Session.consults {τ : Session} {z : String} {e : Environment}
    (he : τ.environments[z]? = some e) : τ.Consults τ.heap z e where
  stored := he
  depth_eq := by simp only [Action.run, withEnvironment, he]
  global_eq x := by simp [Action.run, withEnvironment, he, putHandle]
  read_eq query name := by
    simp only [Action.run, withLookup, withEnvironment, he]
    rfl
  write_eq mode name v := by
    simp only [Action.run, write, withEnvironment, he]
    cases mode <;> rfl

/-- Storing a scope in a cell that it fits into is replacing the scope there. -/
theorem Session.store_fits {σ : Session} {x y : String} {s : Scope} {h : Handle}
    (hx : σ.owned[x]? = some s) (hy : σ.handles[y]? = some h) (hfit : σ.heap.Fits h s) :
    (Action.store x y).run σ =
      ({ σ with
        arena := { σ.arena with heap := Store.write σ.heap h s }
        owned := σ.owned.insert x Scope.empty }, .done) := by
  have hreplace := Heap.replace?_eq_some_iff.mpr ⟨hfit.not_mem, rfl⟩
  simp only [Action.run, store, withOwned, withHandle, hx, hy, hreplace]
  rfl

/-- **The splicing law.** Replace the scope in a cell `h` of an acyclic heap
by an owned scope `s` whose chain does not come by the cell. No cycle
arises, no other scope is touched, and

* for every scope whose chain did not contain `h`, nothing is different;
* for every scope whose chain did, with the scopes `inner` before `h`, the
  chain is now `inner`, then `h`, then what lies above `s`: the nearest
  binding in `inner` is found, and else what `s` would have found; the root
  is that of `s`, or `h` if `s` has no parent; the depth is the length of
  `inner` plus that of the chain of `s`; assignments and global writes go
  where they would have gone through `s`, unless a scope of `inner` takes
  them;
* the same for scopes outside of cells, which come before `inner`;
* every environment is left with the depth and the global scope it had,
  while what is read and written through it follows the new chain. -/
theorem replace_splices {heap : Heap} (hac : heap.Acyclic) {h : Handle}
    (hh : h.index < heap.size) {s : Scope} (hs : ∀ p ∈ s.parent, p.index < heap.size)
    (hout : h ∉ heap.path s.parent) :
    ∃ later : Heap, heap.replace? h s = some later ∧ later.Acyclic ∧
      later.size = heap.size ∧ later.scope h = s ∧ (∀ k, k ≠ h → later.scope k = heap.scope k) ∧
      (∀ g : Handle, g.index < heap.size → h ∉ heap.chain g → heap.SeesAlike later g) ∧
      (∀ (g : Handle) (inner outer : List Handle), g.index < heap.size →
        heap.chain g = inner ++ h :: outer → heap.SeesSpliced h s inner later g) ∧
      (∀ w : Scope, (∀ p ∈ w.parent, p.index < heap.size) → h ∉ heap.path w.parent →
        w.chainLength later = w.chainLength heap ∧
        ∀ name, w.lookup later name = w.lookup heap name) ∧
      (∀ (w : Scope) (inner outer : List Handle), (∀ p ∈ w.parent, p.index < heap.size) →
        heap.path w.parent = inner ++ h :: outer →
        w.chainLength later = (1 + inner.length) + s.chainLength heap ∧
        ∀ name, w.lookup later name =
          ((w.find? name).or (inner.findSome? fun k => (heap.scope k).find? name)).or
            (s.lookup heap name)) ∧
      (∀ (σ : Session) (x y : String), σ.heap = heap → σ.owned[x]? = some s →
        σ.handles[y]? = some h →
        let τ := ((Action.store x y).run σ).1
        τ.heap = later ∧ τ.handles = σ.handles ∧ τ.environments = σ.environments ∧
        ∀ (z : String) (e : Environment), σ.environments[z]? = some e →
          σ.Consults heap z e ∧ τ.Consults later z e) := by
  have hfit : heap.Fits h s := ⟨hac, hh, hs, hout⟩
  refine ⟨Store.write heap h s, Heap.replace?_eq_some_iff.mpr ⟨hout, rfl⟩, hfit.acyclic_later,
    Store.size_write _ _ _, hfit.scope_self, fun k hk => Heap.scope_replace_of_ne hk s,
    fun g hg hoff => hfit.seesAlike hg hoff, fun g inner outer hg hchain =>
    hfit.seesSpliced hg hchain, fun w hw hoff => ⟨?_, hfit.owned_off hw hoff⟩,
    fun w inner outer hw hpath => ⟨hfit.chainLength_through hw hpath, hfit.owned_through hw hpath⟩,
    ?_⟩
  · rw [Scope.chainLength, hfit.path_off hw hoff, Scope.chainLength]
  · rintro σ x y rfl hx hy τ
    have hτ : τ = _ := congrArg Prod.fst (Session.store_fits hx hy hfit)
    rw [hτ]
    exact ⟨rfl, rfl, rfl, fun z e he => ⟨Session.consults he, Session.consults he⟩⟩

/-- A root, a scope inside it, and one inside that; and a root apart. -/
def twoTrees : Heap :=
  ((((Heap.empty.add (Scope.empty.bind "x" .nil)).1.child ⟨0⟩).1.child ⟨1⟩).1.add
    (Scope.empty.bind "x" (.boolean true))).1

theorem replace_splices_twoTrees :
    let s := (Scope.inside ⟨3⟩).bind "y" (.boolean false)
    twoTrees.Acyclic ∧ (⟨1⟩ : Handle).index < twoTrees.size ∧
    (∀ p ∈ s.parent, p.index < twoTrees.size) ∧ (⟨1⟩ : Handle) ∉ twoTrees.path s.parent ∧
    ∃ later, twoTrees.replace? ⟨1⟩ s = some later ∧
      later.chain ⟨2⟩ = [⟨2⟩, ⟨1⟩, ⟨3⟩] ∧ later.root ⟨2⟩ = ⟨3⟩ ∧
      later.lookup ⟨2⟩ "x" = some (.boolean true) ∧ later.lookup ⟨0⟩ "x" = some .nil := by
  intro s
  have hac : twoTrees.Acyclic := by
    refine (((Heap.acyclic_empty.add ?_).add ?_).add ?_).add ?_ <;> intro p hp <;> cases hp <;>
      decide
  have hlt : (⟨1⟩ : Handle).index < twoTrees.size := by decide
  have hs : ∀ p ∈ s.parent, p.index < twoTrees.size := by
    intro p hp
    cases hp
    decide
  have hout : (⟨1⟩ : Handle) ∉ twoTrees.path s.parent := by decide
  obtain ⟨later, hlater, -, -, -, -, halike, hspliced, -⟩ := replace_splices hac hlt hs hout
  have hin := hspliced ⟨2⟩ [⟨2⟩] [⟨0⟩] (by decide) (by decide)
  have hoff := halike ⟨0⟩ (by decide) (by decide)
  refine ⟨hac, hlt, hs, hout, later, hlater, hin.chain_eq.trans (by decide),
    hin.root_eq.trans (by decide), (hin.lookup_eq "x").trans (by decide),
    (hoff.lookup_eq "x").trans (by decide)⟩

end ScopeChain

/-
ScopeChain.Proofs.ScopeCopies — a copy of a scope has its own bindings and
shares the rest.

A copy has the bindings of the scope it was made of and is inside the same
parent. What is done through it therefore stays in it or goes on along the
chain that both have in common, and which of the two depends on what the
copy binds by then. The original is not on that chain, because chains do
not run into themselves, so it never changes.

To say that the copy does what the original would have done, the same is
done through the original, in another run from the same session. The
statement is that the second run ends in the session of the first with the
two scopes EXCHANGED (`Session.exchanged`): the original has become what the
copy has become in the first, the copy has stayed what the original has
stayed, and all else is equal. This is an invariant of single steps
(`Session.Copied.step`) because writing through a scope is the same
wherever the scope is kept: take it out, write through it as a scope that
is held by nobody else, put it back (`Session.Formed.write_place`).
-/
import ScopeChain.Proofs.Observers
import ScopeChain.Proofs.Splicing
import ScopeChain.Proofs.Threads

namespace ScopeChain

/-! ## 1. Writes that stay and writes that go on -/

/-- A write through the scope stays in it: it is a declaration, or there is
nothing further out, or it is an assignment that finds the name here. -/
def Scope.keepsWrite (s : Scope) (mode : WriteMode) (name : String) : Bool :=
  match mode with
  | .declare => true
  | .assign => s.binds name || s.isRoot
  | .global => s.isRoot

theorem Scope.keepsWrite_of_isRoot {s : Scope} (hs : s.parent = none) (mode : WriteMode)
    (name : String) : s.keepsWrite mode name := by
  cases mode <;> simp [keepsWrite, isRoot, hs]

/-- What does not stay goes to the parent. -/
theorem Scope.write_eq (s : Scope) (heap : Heap) (mode : WriteMode) (name : String) (v : Value) :
    s.write heap mode name v =
      if s.keepsWrite mode name then (s.bind name v, heap)
      else (s, s.parent.elim heap fun p => heap.write mode p name v) := by
  have h := s.unfolds heap
  cases mode with
  | declare => rfl
  | assign =>
    rw [h.assign_eq]
    cases hb : s.binds name <;> cases hp : s.parent <;> simp [keepsWrite, isRoot, hb, hp]
  | global =>
    rw [h.global_eq]
    cases hp : s.parent <;> simp [keepsWrite, isRoot, hp]

namespace Heap

variable {heap : Heap} {i k : Handle} {s t : Scope}

theorem Acyclic.write_eq (hac : heap.Acyclic) (hi : i.index < heap.size) (mode : WriteMode)
    (name : String) (v : Value) :
    heap.write mode i name v =
      if (heap.scope i).keepsWrite mode name then heap.bindAt i name v
      else (heap.scope i).parent.elim heap fun p => heap.write mode p name v := by
  have h := hac.unfolds hi
  cases mode with
  | declare => rfl
  | assign =>
    rw [h.assign_eq]
    cases hb : (heap.scope i).binds name <;> cases hp : (heap.scope i).parent <;>
      simp [Scope.keepsWrite, Scope.isRoot, hb, hp]
  | global =>
    rw [h.global_eq]
    cases hp : (heap.scope i).parent <;> simp [Scope.keepsWrite, Scope.isRoot, hp]

/-! ## 2. Writes and a cell whose scope is replaced -/

/-- Putting a scope back where it is changes nothing. -/
theorem replace_scope (heap : Heap) (i : Handle) : Store.write heap i (heap.scope i) = heap := by
  refine Store.ext_read? fun k => ?_
  rw [Store.read?_write]
  split
  · next hk =>
    obtain ⟨rfl, hlt⟩ := hk
    have hsome : heap.read? k ≠ none := fun hnone =>
      Nat.not_le.mpr hlt (Store.read?_eq_none_iff.mp hnone)
    obtain ⟨u, hu⟩ := Option.ne_none_iff_exists'.mp hsome
    simp [scope, hu]
  · rfl

theorem bindAt_replace_of_ne (hne : k ≠ i) (t : Scope) (name : String) (v : Value) :
    Heap.bindAt (Store.write heap i t) k name v = Store.write (heap.bindAt k name v) i t := by
  refine Store.ext_read? fun l => ?_
  simp only [bindAt, Store.read?_modify, Store.read?_write, Store.size_modify]
  by_cases hl : l = k
  · subst hl
    rw [if_pos rfl, if_neg fun h => hne h.1, if_neg fun h => hne h.1, if_pos rfl]
  · rw [if_neg hl, if_neg hl]

theorem bindAt_eq_replace (hi : i.index < heap.size) (name : String) (v : Value) :
    heap.bindAt i name v = Store.write heap i ((heap.scope i).bind name v) := by
  have hread : (Store.write heap i (heap.scope i)).read? i = some (heap.scope i) := by
    rw [Store.read?_write, if_pos ⟨rfl, hi⟩]
  rw [replace_scope] at hread
  exact Store.modify_eq_write hread _

/-- A write through a scope does not ask what is in a cell that is not on its
chain. -/
theorem Fits.write_off (hfit : heap.Fits i t) {q : Handle} (hq : q.index < heap.size)
    (hoff : i ∉ heap.chain q) (mode : WriteMode) (name : String) (v : Value) :
    Heap.write (Store.write heap i t) mode q name v =
      Store.write (heap.write mode q name v) i t := by
  have htarget : heap.target mode q name ≠ i := fun h =>
    hoff (h ▸ hfit.acyclic.target_mem_chain hq mode name)
  rw [Heap.write, (hfit.seesAlike hq hoff).target_eq, bindAt_replace_of_ne htarget]
  rfl

/-- Nor does a write through a scope outside of the heap. -/
theorem Fits.write_owned_off (hfit : heap.Fits i t) (hs : ∀ p ∈ s.parent, p.index < heap.size)
    (hoff : i ∉ heap.path s.parent) (mode : WriteMode) (name : String) (v : Value) :
    s.write (Store.write heap i t) mode name v =
      ((s.write heap mode name v).1, Store.write (s.write heap mode name v).2 i t) := by
  rw [s.write_eq, s.write_eq]
  split
  · rfl
  · cases hp : s.parent with
    | none => rfl
    | some p =>
      rw [hp] at hoff
      exact congrArg (s, ·) (hfit.write_off (hs p hp) hoff mode name v)

/-- What is written through a scope outside of the heap leaves alone the cells
that are not on its path. -/
theorem Acyclic.scope_write_owned (hac : heap.Acyclic)
    (hs : ∀ p ∈ s.parent, p.index < heap.size) (hoff : i ∉ heap.path s.parent) (mode : WriteMode)
    (name : String) (v : Value) : (s.write heap mode name v).2.scope i = heap.scope i := by
  rw [s.write_eq]
  split
  · rfl
  · cases hp : s.parent with
    | none => rfl
    | some p =>
      rw [hp] at hoff
      have htarget : i ≠ heap.target mode p name := fun h =>
        hoff (h ▸ hac.target_mem_chain (hs p hp) mode name)
      exact (heap.scope_bindAt _ name v i).trans (if_neg fun h => htarget h.1)

theorem Acyclic.fits_self (hac : heap.Acyclic) (hi : i.index < heap.size) :
    heap.Fits i (heap.scope i) := by
  have hnodup := (hac.isPath_chain hi).nodup
  rw [hac.chain_eq hi, List.nodup_cons] at hnodup
  exact ⟨hac, hi, fun p hp => hac.parent_lt hi hp, hnodup.1⟩

/-- **Writing through a cell** is writing through its scope and putting it
back. -/
theorem Acyclic.write_eq_replace (hac : heap.Acyclic) (hi : i.index < heap.size)
    (mode : WriteMode) (name : String) (v : Value) :
    heap.write mode i name v =
      Store.write ((heap.scope i).write heap mode name v).2 i
        ((heap.scope i).write heap mode name v).1 := by
  have hfit := hac.fits_self hi
  rw [hac.write_eq hi, Scope.write_eq]
  split
  · exact bindAt_eq_replace hi name v
  · -- what goes on to the parent leaves in the cell what it finds there
    cases hp : (heap.scope i).parent with
    | none => exact (heap.replace_scope i).symm
    | some p =>
      have hoff := hfit.not_mem
      rw [hp] at hoff
      have hpast := hfit.write_off (hac.parent_lt hi hp) hoff mode name v
      rwa [heap.replace_scope] at hpast

end Heap

/-! ## 3. Putting scopes into places -/

namespace Table

variable {α : Type} (t : Table α)

theorem getElem?_insert_ne {x y : String} (h : x ≠ y) (a : α) : (t.insert x a)[y]? = t[y]? :=
  t.getElem?_rebind_ne h (some a)

theorem insert_insert (x : String) (a b : α) : (t.insert x a).insert x b = t.insert x b := by
  refine Std.ExtTreeMap.ext_getElem? fun y => ?_
  simp only [Std.ExtTreeMap.getElem?_insert]
  split <;> rfl

theorem insert_of_getElem? {x : String} {a : α} (h : t[x]? = some a) : t.insert x a = t := by
  refine Std.ExtTreeMap.ext_getElem? fun y => ?_
  rw [Std.ExtTreeMap.getElem?_insert]
  split
  · next hy =>
    obtain rfl : x = y := by simpa using hy
    exact h.symm
  · rfl

theorem insert_comm {x y : String} (h : x ≠ y) (a b : α) :
    (t.insert x a).insert y b = (t.insert y b).insert x a := by
  refine Std.ExtTreeMap.ext_getElem? fun z => ?_
  simp only [Std.ExtTreeMap.getElem?_insert]
  split
  · next hy =>
    obtain rfl : y = z := by simpa using hy
    rw [if_neg (by simpa using h)]
  · rfl

end Table

namespace Session

variable {σ : Session} {p : Place} {s t : Scope}

/-- The session with another heap. -/
def withHeap (σ : Session) (heap : Heap) : Session := { σ with arena := { σ.arena with heap } }

/-- The cell that a place names, if it names one. -/
def cell? (σ : Session) : Place → Option Handle
  | .shared x => σ.handles[x]?
  | .owned _ => none

/-- The session with a scope put into a place that names one. -/
def put (σ : Session) (p : Place) (s : Scope) : Session :=
  match p with
  | .shared x => σ.withHeap (σ.handles[x]?.elim σ.heap fun i => Store.write σ.heap i s)
  | .owned x => σ.putOwned x s

/-- A name is looked up through a place as through the scope that it names. -/
theorem Formed.withLookup_place (hσ : σ.Formed) (hs : σ.scopeAt? p = some s) (name : String)
    (next : Option Value → Session × Answer) :
    σ.withLookup (.place p) name next = next (s.lookup σ.heap name) := by
  cases p with
  | shared x =>
    obtain ⟨i, hi, rfl⟩ := Option.map_eq_some_iff.mp hs
    rw [withLookup, withHandle, hi, ((σ.heap.scope i).unfolds σ.heap).lookup_eq,
      ← (hσ.acyclic.unfolds (hσ.handle_lt hi)).lookup_eq]
  | owned x =>
    have hs' : σ.owned[x]? = some s := hs
    rw [withLookup, withOwned, hs']

theorem withScope_place (hs : σ.scopeAt? p = some s) (next : Scope → Session × Answer) :
    σ.withScope p next = next s := by
  cases p with
  | shared x =>
    obtain ⟨i, hi, rfl⟩ := Option.map_eq_some_iff.mp hs
    rw [withScope, withHandle, hi]
  | owned x =>
    have hs' : σ.owned[x]? = some s := hs
    rw [withScope, withOwned, hs']

/-- **Writing through a place**: the scope is taken out, written through as one
that nobody else holds, and put back. -/
theorem Formed.write_place (hσ : σ.Formed) (hs : σ.scopeAt? p = some s) (mode : WriteMode)
    (name : String) (v : Value) :
    σ.write (.place p) mode name v =
      ((σ.withHeap (s.write σ.heap mode name v).2).put p (s.write σ.heap mode name v).1,
        .done) := by
  cases p with
  | shared x =>
    obtain ⟨i, hi, rfl⟩ := Option.map_eq_some_iff.mp hs
    have hheap := hσ.acyclic.write_eq_replace (hσ.handle_lt hi) mode name v
    simp only [write, withHandle, hi, Arena.write, put, withHeap, Option.elim_some]
    rw [hheap]
  | owned x =>
    have hs' : σ.owned[x]? = some s := hs
    simp only [write, withOwned, hs']
    rfl

end Session

/-! ## 4. A scope and its copy -/

/-- Something that is done through a single scope. -/
inductive Access where
  | ask (query : Query) (name : String)
  | askHere (name : String)
  | describe
  | write (mode : WriteMode) (name : String) (v : Value)
  | writeMember (name : String) (v : HostValue)

/-- The action that does it through a place. -/
def Access.through (p : Place) : Access → Action
  | .ask query name => .read (.place p) query name
  | .askHere name => .bindsHere (.place p) name
  | .describe => .inspect p
  | .write mode name v => .write (.place p) mode name v
  | .writeMember name v => .writeMember (.place p) name v

/-- The answer without the depth of a cell, which a description adds. -/
def Answer.placeless : Answer → Answer
  | .inspection i => .inspection { i with depth := none }
  | a => a

namespace Session

theorem inspect_place {σ : Session} {p : Place} {s : Scope} (hs : σ.scopeAt? p = some s) :
    (σ.inspect p).1 = σ ∧ (σ.inspect p).2.placeless = .inspection ⟨s, none⟩ := by
  cases p with
  | shared x =>
    obtain ⟨i, hi, rfl⟩ := Option.map_eq_some_iff.mp hs
    simp [inspect, withHandle, hi, Answer.placeless]
  | owned x =>
    have hs' : σ.owned[x]? = some s := hs
    simp [inspect, withOwned, hs', Answer.placeless]

/-- The scope at `p` is `s`, and what was copied from it to `c` is `t`. -/
structure Copied (p : Place) (c : String) (s t : Scope) (σ : Session) : Prop where
  formed : σ.Formed
  original : σ.scopeAt? p = some s
  copy : σ.owned[c]? = some t
  parent_eq : t.parent = s.parent
  binds : ∀ name, s.binds name → t.binds name

/-- The session with `t` put into the place `p` and `s` under the name `c`. -/
def exchanged (p : Place) (c : String) (s t : Scope) (σ : Session) : Session :=
  (σ.put p t).putOwned c s

theorem exchanged_owned (σ : Session) (y c : String) (s t : Scope) :
    σ.exchanged (.owned y) c s t = { σ with owned := (σ.owned.insert y t).insert c s } := rfl

theorem exchanged_shared {σ : Session} {x : String} {i : Handle} (hi : σ.handles[x]? = some i)
    (c : String) (s t : Scope) :
    σ.exchanged (.shared x) c s t = { σ with
      arena := { σ.arena with heap := Store.write σ.heap i t }
      owned := σ.owned.insert c s } := by
  rw [exchanged, put, hi]
  rfl

namespace Copied

variable {p : Place} {c : String} {s t : Scope} {σ : Session} (h : σ.Copied p c s t)
include h

theorem parent_lt : ∀ q ∈ t.parent, q.index < σ.heap.size := h.formed.parent_lt h.copy

theorem original_parent_lt : ∀ q ∈ s.parent, q.index < σ.heap.size := h.parent_eq ▸ h.parent_lt

omit h in
/-- The copy fits into the cell of the original. -/
theorem fits {x : String} (h : σ.Copied (.shared x) c s t) :
    ∃ i, σ.handles[x]? = some i ∧ σ.heap.Fits i t := by
  obtain ⟨i, hi, hs⟩ := Option.map_eq_some_iff.mp h.original
  have hfit := h.formed.acyclic.fits_self (h.formed.handle_lt hi)
  rw [hs] at hfit
  exact ⟨i, hi, hfit.acyclic, hfit.lt_size, h.parent_lt, h.parent_eq ▸ hfit.not_mem⟩

/-- Exchanged, the copy is in the place of the original. -/
theorem scopeAt?_exchanged (hc : p ≠ .owned c) :
    (σ.exchanged p c s t).scopeAt? p = some t := by
  cases p with
  | shared x =>
    obtain ⟨i, hi, hfit⟩ := h.fits
    rw [exchanged_shared hi, scopeAt?, hi, Option.map_some]
    exact congrArg some hfit.scope_self
  | owned y =>
    have hne : c ≠ y := fun hcy => hc (hcy ▸ rfl)
    rw [exchanged_owned, scopeAt?, Table.getElem?_insert_ne _ hne,
      Std.ExtTreeMap.getElem?_insert_self]

theorem formed_exchanged : (σ.exchanged p c s t).Formed := by
  have hput : ∀ {heap : Heap} {owned : Table Scope} {x : String} {u : Scope},
      heap.size = σ.heap.size → (owned[x]? = some u → u = s ∨ u = t ∨ σ.owned[x]? = some u) →
      owned[x]? = some u → ∀ i ∈ u.parent, i.index < heap.size := by
    intro heap owned x u hsize howned hu
    rw [hsize]
    rcases howned hu with rfl | rfl | hu
    · exact h.original_parent_lt
    · exact h.parent_lt
    · exact h.formed.parent_lt hu
  cases p with
  | shared x =>
    obtain ⟨i, hi, hfit⟩ := h.fits
    have hsize : Store.size (Store.write σ.heap i t) = σ.heap.size := Store.size_write _ _ _
    rw [exchanged_shared hi]
    refine ⟨hfit.acyclic_later, fun hx => ?_, hput hsize fun hu => ?_, fun he k hk => ?_⟩
    · exact hsize ▸ h.formed.handle_lt hx
    · rw [Std.ExtTreeMap.getElem?_insert] at hu
      split at hu
      · exact .inl (Option.some.inj hu).symm
      · exact .inr (.inr hu)
    · exact hsize ▸ h.formed.held_lt he k hk
  | owned y =>
    rw [exchanged_owned]
    refine ⟨h.formed.acyclic, h.formed.handle_lt, hput rfl fun hu => ?_, h.formed.held_lt⟩
    rw [Std.ExtTreeMap.getElem?_insert, Std.ExtTreeMap.getElem?_insert] at hu
    split at hu
    · exact .inl (Option.some.inj hu).symm
    · split at hu
      · exact .inr (.inl (Option.some.inj hu).symm)
      · exact .inr (.inr hu)

/-- A name is found through the copy as before. -/
theorem lookup_exchanged (name : String) :
    t.lookup (σ.exchanged p c s t).heap name = t.lookup σ.heap name := by
  cases p with
  | shared x =>
    obtain ⟨i, hi, hfit⟩ := h.fits
    rw [exchanged_shared hi, Scope.lookup, Scope.lookup,
      ← hfit.resolve?_off h.parent_lt hfit.not_mem]
  | owned y => rfl

/-- A write through the original with the two exchanged is a write through the
copy, and then they are exchanged. -/
theorem write_exchanged (hc : p ≠ .owned c) (mode : WriteMode) (name : String) (v : Value) :
    ((σ.exchanged p c s t).write (.place p) mode name v).1 =
      ((σ.write (.place (.owned c)) mode name v).1).exchanged p c s
        (t.write σ.heap mode name v).1 := by
  rw [h.formed_exchanged.write_place (h.scopeAt?_exchanged hc),
    h.formed.write_place (p := .owned c) h.copy]
  cases p with
  | shared x =>
    obtain ⟨i, hi, hfit⟩ := h.fits
    have hwrite := hfit.write_owned_off h.parent_lt hfit.not_mem mode name v
    rw [exchanged_shared hi, exchanged_shared (i := i) (by exact hi)]
    simp only [put, putOwned, withHeap, hi, Option.elim_some, hwrite, Table.insert_insert]
    rw [Store.write_write]
  | owned y =>
    have hne : c ≠ y := fun hcy => hc (hcy ▸ rfl)
    rw [exchanged_owned, exchanged_owned]
    simp only [put, putOwned, withHeap, Table.insert_comm _ hne, Table.insert_insert]

/-- A write through the copy leaves the original alone. -/
theorem write (hc : p ≠ .owned c) (mode : WriteMode) (name : String) (v : Value) :
    (σ.write (.place (.owned c)) mode name v).1.Copied p c s (t.write σ.heap mode name v).1 := by
  have hrun : (σ.write (.place (.owned c)) mode name v).1 =
      (σ.withHeap (t.write σ.heap mode name v).2).putOwned c (t.write σ.heap mode name v).1 :=
    congrArg Prod.fst (h.formed.write_place (p := .owned c) h.copy mode name v)
  refine ⟨h.formed.run (.write (.place (.owned c)) mode name v), ?_, ?_, ?_, fun n hn => ?_⟩
  · rw [hrun, ← h.original]
    -- the write stays in the copy or goes along a chain without the original
    cases p with
    | shared x =>
      obtain ⟨i, hi, hfit⟩ := h.fits
      have hscope := hfit.acyclic.scope_write_owned h.parent_lt hfit.not_mem mode name v
      simp only [scopeAt?, putOwned, withHeap, hi, Option.map_some]
      exact congrArg some hscope
    | owned y =>
      have hne : c ≠ y := fun hcy => hc (hcy ▸ rfl)
      exact Table.getElem?_insert_ne _ hne _
  · rw [hrun]
    exact Std.ExtTreeMap.getElem?_insert_self
  · rw [Scope.write_fst_parent, h.parent_eq]
  · have hbinds := h.binds n hn
    rw [Scope.write_eq]
    split
    · rw [Scope.binds_eq_isSome, Scope.find?_bind]
      split
      · rfl
      · rwa [← Scope.binds_eq_isSome]
    · exact hbinds

/-- **The step lemma**: what is done through the copy leaves the original as it
is; done through the original with the two exchanged, it is answered alike
and leads to the same session with the two exchanged. -/
theorem step (hc : p ≠ .owned c) (a : Access) :
    ∃ t', ((a.through (.owned c)).run σ).1.Copied p c s t' ∧
      ((a.through p).run (σ.exchanged p c s t)).1 =
        ((a.through (.owned c)).run σ).1.exchanged p c s t' ∧
      ((a.through p).run (σ.exchanged p c s t)).2.placeless =
        ((a.through (.owned c)).run σ).2.placeless := by
  have hcopy : σ.scopeAt? (.owned c) = some t := h.copy
  have hplace := h.scopeAt?_exchanged hc
  have hwrite : ∀ mode name v, ((σ.exchanged p c s t).write (.place p) mode name v).2.placeless =
      (σ.write (.place (.owned c)) mode name v).2.placeless := fun mode name v => by
    rw [h.formed_exchanged.write_place hplace, h.formed.write_place hcopy]
  cases a with
  | ask query name =>
    refine ⟨t, ?_, ?_, ?_⟩ <;>
      simp only [Access.through, Action.run, h.formed.withLookup_place hcopy,
        h.formed_exchanged.withLookup_place hplace, h.lookup_exchanged]
    exact h
  | askHere name =>
    refine ⟨t, ?_, ?_, ?_⟩ <;>
      simp only [Access.through, Action.run, bindsHere, withScope_place hcopy,
        withScope_place hplace]
    exact h
  | describe =>
    obtain ⟨hsession, hanswer⟩ := inspect_place hcopy
    obtain ⟨hsession', hanswer'⟩ := inspect_place hplace
    refine ⟨t, ?_, ?_, hanswer'.trans hanswer.symm⟩ <;>
      simp only [Access.through, Action.run, hsession, hsession']
    exact h
  | write mode name v =>
    exact ⟨_, h.write hc mode name v, h.write_exchanged hc mode name v, hwrite mode name v⟩
  | writeMember name v =>
    exact ⟨_, h.write hc .assign name (Value.ofHost v),
      h.write_exchanged hc .assign name (Value.ofHost v), hwrite .assign name (Value.ofHost v)⟩

end Copied

/-! ## 5. Runs through the copy and through the original -/

/-- The session after accesses through a place. -/
def accessed (σ : Session) (p : Place) (as : List Access) : Session :=
  σ.after (as.map fun a => .act (a.through p))

/-- What accesses through a place are answered. -/
def told (σ : Session) (p : Place) (as : List Access) : List Answer :=
  (σ.answers (as.map fun a => .act (a.through p))).map fun r => r.2.placeless

/-- **The run lemma.** -/
theorem Copied.accessed {p : Place} {c : String} {s t : Scope} {σ : Session}
    (h : σ.Copied p c s t) (hc : p ≠ .owned c) (as : List Access) :
    ∃ t', (σ.accessed (.owned c) as).Copied p c s t' ∧
      (σ.exchanged p c s t).accessed p as =
        (σ.accessed (.owned c) as).exchanged p c s t' ∧
      (σ.exchanged p c s t).told p as = σ.told (.owned c) as := by
  induction as generalizing σ t with
  | nil => exact ⟨t, h, rfl, rfl⟩
  | cons a as ih =>
    obtain ⟨t₁, h₁, hsession, hanswer⟩ := h.step hc a
    obtain ⟨t₂, h₂, hrest, hanswers⟩ := ih h₁
    rw [← hsession] at hrest hanswers
    refine ⟨t₂, h₂, hrest, ?_⟩
    exact congrArg₂ List.cons hanswer hanswers

/-- Just copied, the scope and the copy are the same. -/
theorem Formed.copied {p : Place} {s : Scope} {σ : Session} (hσ : σ.Formed)
    (hs : σ.scopeAt? p = some s) {c : String} (hc : p ≠ .owned c) :
    ((Action.copyScope p c).run σ).1.Copied p c s s ∧
    ((Action.copyScope p c).run σ).1.exchanged p c s s = ((Action.copyScope p c).run σ).1 := by
  have hrun : ((Action.copyScope p c).run σ).1 = σ.putOwned c s :=
    congrArg Prod.fst (withScope_place hs fun s => (σ.putOwned c s, .done))
  have hcopied : ((Action.copyScope p c).run σ).1.Copied p c s s := by
    refine ⟨hσ.run _, ?_, ?_, rfl, fun _ hn => hn⟩
    · rw [hrun, ← hs]
      cases p with
      | shared x => rfl
      | owned y =>
        have hne : c ≠ y := fun hcy => hc (hcy ▸ rfl)
        exact Table.getElem?_insert_ne _ hne _
    · rw [hrun]
      exact Std.ExtTreeMap.getElem?_insert_self
  refine ⟨hcopied, ?_⟩
  have hc' := hcopied.copy
  have hs' := hcopied.original
  generalize ((Action.copyScope p c).run σ).1 = τ at hcopied hc' hs'
  cases p with
  | shared x =>
    obtain ⟨i, hi, hscope⟩ := Option.map_eq_some_iff.mp hs'
    rw [exchanged_shared hi, Table.insert_of_getElem? _ hc', ← hscope]
    congr 1
    exact congrArg (Arena.mk · _) (τ.heap.replace_scope i)
  | owned y =>
    rw [exchanged_owned, Table.insert_of_getElem? _ hs', Table.insert_of_getElem? _ hc']

/-- What is seen through a place. -/
theorem Formed.run_read_place {σ : Session} (hσ : σ.Formed) {p : Place} {s : Scope}
    (hs : σ.scopeAt? p = some s) (query : Query) (name : String) :
    ((Action.read (.place p) query name).run σ).2 = query.answer (s.lookup σ.heap name) :=
  congrArg Prod.snd (hσ.withLookup_place hs name fun found => (σ, query.answer found))

namespace Copied

variable {p : Place} {c : String} {s t : Scope} {σ : Session} (h : σ.Copied p c s t)
  {mode : WriteMode} {name : String}
include h

/-- What stays in the copy changes nothing but the copy. -/
theorem heap_write_of_keepsWrite (hkeeps : t.keepsWrite mode name) (v : Value) :
    (σ.write (.place (.owned c)) mode name v).1.heap = σ.heap := by
  rw [h.formed.write_place (p := .owned c) h.copy, t.write_eq, if_pos hkeeps]
  rfl

/-- What does not stay in the copy is written through the parent. -/
theorem write_of_not_keepsWrite (hgoes : ¬ t.keepsWrite mode name) (v : Value) :
    ∃ q, s.parent = some q ∧
      (σ.write (.place (.owned c)) mode name v).1.heap = σ.heap.write mode q name v ∧
      (t.write σ.heap mode name v).1 = t := by
  cases hq : t.parent with
  | none => exact absurd (t.keepsWrite_of_isRoot hq mode name) hgoes
  | some q =>
    refine ⟨q, h.parent_eq ▸ hq, ?_, ?_⟩
    · rw [h.formed.write_place (p := .owned c) h.copy, t.write_eq, if_neg hgoes, hq]
      rfl
    · rw [t.write_eq, if_neg hgoes]

/-- An assignment that does not stay in the copy is of a name that neither scope
binds. -/
theorem not_binds_of_assign (hgoes : ¬ t.keepsWrite .assign name) :
    ¬ s.binds name ∧ ¬ t.binds name := by
  have ht : ¬ t.binds name := fun hb => hgoes (by simp [Scope.keepsWrite, hb])
  exact ⟨fun hb => ht (h.binds name hb), ht⟩

/-- One more write through the copy, if it stays there. -/
theorem write_stays (hc : p ≠ .owned c) (hkeeps : t.keepsWrite mode name) (v : Value) :
    let later := (σ.write (.place (.owned c)) mode name v).1
    later.heap = σ.heap ∧ later.scopeAt? p = some s ∧
    ∀ query n, ((Action.read (.place p) query n).run later).2 =
      ((Action.read (.place p) query n).run σ).2 := by
  intro later
  have hlater := h.write hc mode name v
  have hheap : later.heap = σ.heap := h.heap_write_of_keepsWrite hkeeps v
  refine ⟨hheap, hlater.original, fun query n => ?_⟩
  rw [h.formed.run_read_place h.original, ← hheap]
  exact hlater.formed.run_read_place hlater.original query n

/-- One more write through the copy, if it goes on to the parent. -/
theorem write_goes (hc : p ≠ .owned c) (hgoes : ¬ t.keepsWrite mode name) (v : Value) :
    let later := (σ.write (.place (.owned c)) mode name v).1
    ∃ q, s.parent = some q ∧ later.heap = σ.heap.write mode q name v ∧
      later.scopeAt? p = some s ∧ later.owned[c]? = some t ∧
      (∀ place u, place = p ∧ u = s ∨ place = .owned c ∧ u = t → ∀ query n,
        ((Action.read (.place place) query n).run later).2 = query.answer
          (if n = name ∧ ¬ u.binds name ∧
              σ.heap.Reaches (some q) name (σ.heap.target mode q name)
            then some v else u.lookup σ.heap n)) ∧
      (mode = .assign → ∀ place, place = p ∨ place = .owned c → ∀ query,
        ((Action.read (.place place) query name).run later).2 = query.answer (some v)) := by
  intro later
  obtain ⟨q, hq, hheap, hcopy⟩ := h.write_of_not_keepsWrite hgoes v
  have hlater : later.Copied p c s t := hcopy ▸ h.write hc mode name v
  have hlt := h.original_parent_lt q hq
  have hac := h.formed.acyclic
  have hbound := Heap.boundAt_bindAt (hac.target_lt hlt mode name) name v
  have hseen : ∀ place u, place = p ∧ u = s ∨ place = .owned c ∧ u = t → ∀ query n,
      ((Action.read (.place place) query n).run later).2 = query.answer
        (if n = name ∧ ¬ u.binds name ∧
            σ.heap.Reaches (some q) name (σ.heap.target mode q name)
          then some v else u.lookup σ.heap n) := by
    intro place u hu query n
    obtain ⟨hparent, hplace⟩ : u.parent = some q ∧ later.scopeAt? place = some u := by
      rcases hu with ⟨rfl, rfl⟩ | ⟨rfl, rfl⟩
      · exact ⟨hq, hlater.original⟩
      · exact ⟨h.parent_eq.trans hq, hlater.copy⟩
    rw [hlater.formed.run_read_place hplace, hheap, ← hparent]
    exact congrArg query.answer (hbound.owned_eq u n)
  refine ⟨q, hq, hheap, hlater.original, hlater.copy, hseen, ?_⟩
  rintro rfl place hplace query
  obtain ⟨hs, ht⟩ := h.not_binds_of_assign hgoes
  have hassign : WriteMode.assign ≠ .global := by decide
  have hreaches := hac.reaches_target hlt hassign name
  rcases hplace with rfl | rfl
  · exact (hseen _ s (.inl ⟨rfl, rfl⟩) query name).trans (by rw [if_pos ⟨rfl, hs, hreaches⟩])
  · exact (hseen _ t (.inr ⟨rfl, rfl⟩) query name).trans (by rw [if_pos ⟨rfl, ht, hreaches⟩])

end Copied

end Session

/-- **A copy does what the original would do.** Copy a scope of any acyclic
heap, in a cell or not, a root or not, and do anything through the copy, any
number of times. Compare with the same done through the original.

* The original stays as it is, and each answer is the same.
* The second run ends in the session of the first with the copy and the
  original exchanged; so all other scopes end the same.

At the end, or at any point before, since `as` may end there, write once more
through the copy.

* A declaration, an assignment of a name that the copy binds, or any write at
  all if the original is a root, changes nothing but the copy: the heap and
  what is seen through the original stay as they are.
* Any other write is the same write through the parent, and neither the
  original nor the copy is changed. Each of the two sees the new value if it
  does not bind the name itself and the search from the parent, which they
  share, leads to the scope that was written to. If the write is an
  assignment, both see it. -/
theorem copy_runs_like_original {σ : Session} (hσ : σ.Formed) {p : Place} {s : Scope}
    (hs : σ.scopeAt? p = some s) {c : String} (hc : p ≠ .owned c) (as : List Access) :
    let start := ((Action.copyScope p c).run σ).1
    let left := start.accessed (.owned c) as
    let right := start.accessed p as
    left.scopeAt? p = some s ∧
    start.told p as = start.told (.owned c) as ∧
    ∃ t, left.owned[c]? = some t ∧ t.parent = s.parent ∧ right.scopeAt? p = some t ∧
      right = left.exchanged p c s t ∧
      (∀ k, left.cell? p ≠ some k → right.heap.scope k = left.heap.scope k) ∧
      ∀ mode name v,
        let later := ((Action.write (.place (.owned c)) mode name v).run left).1
        (t.keepsWrite mode name →
          later.heap = left.heap ∧ later.scopeAt? p = some s ∧
          ∀ query n, ((Action.read (.place p) query n).run later).2 =
            ((Action.read (.place p) query n).run left).2) ∧
        (¬ t.keepsWrite mode name → ∃ q, s.parent = some q ∧
          later.heap = left.heap.write mode q name v ∧
          later.scopeAt? p = some s ∧ later.owned[c]? = some t ∧
          (∀ place u, place = p ∧ u = s ∨ place = .owned c ∧ u = t → ∀ query n,
            ((Action.read (.place place) query n).run later).2 = query.answer
              (if n = name ∧ ¬ u.binds name ∧
                  left.heap.Reaches (some q) name (left.heap.target mode q name)
                then some v else u.lookup left.heap n)) ∧
          (mode = .assign → ∀ place, place = p ∨ place = .owned c → ∀ query,
            ((Action.read (.place place) query name).run later).2 = query.answer (some v))) := by
  intro start left right
  obtain ⟨hstart, hsame⟩ : start.Copied p c s s ∧ start.exchanged p c s s = start :=
    hσ.copied hs hc
  obtain ⟨t, hleft, hright, htold⟩ : ∃ t, left.Copied p c s t ∧
      right = left.exchanged p c s t ∧ start.told p as = start.told (.owned c) as := by
    have hruns := hstart.accessed hc as
    rwa [hsame] at hruns
  refine ⟨hleft.original, htold, t, hleft.copy, hleft.parent_eq, ?_, hright, fun k hk => ?_,
    fun mode name v => ⟨fun hkeeps => hleft.write_stays hc hkeeps v,
      fun hgoes => hleft.write_goes hc hgoes v⟩⟩
  · rw [hright]
    exact hleft.scopeAt?_exchanged hc
  · rw [hright]
    cases p with
    | owned y => rfl
    | shared x =>
      obtain ⟨i, hi, -⟩ := hleft.fits
      have hki : k ≠ i := fun hki => hk (hki ▸ hi)
      rw [Session.exchanged_shared hi]
      exact Heap.scope_replace_of_ne hki t

/-- A root, and a scope inside it. -/
def nestedScope : List Move := [.act (.newScope "r"), .act (.newOwnedInside "r" "s")]

theorem copy_runs_like_original_nestedScope :
    let σ := Session.empty.after nestedScope
    let start := ((Action.copyScope (.owned "s") "c").run σ).1
    let as : List Access := [.write .declare "x" .nil, .write .assign "y" (.boolean true), .describe]
    let left := start.accessed (.owned "c") as
    σ.Formed ∧ σ.scopeAt? (.owned "s") = some (Scope.inside ⟨0⟩) ∧
    left.scopeAt? (.owned "s") = some (Scope.inside ⟨0⟩) ∧
    left.owned["c"]? = some ((Scope.inside ⟨0⟩).bind "x" .nil) ∧
    left.heap.scope ⟨0⟩ = Scope.empty.bind "y" (.boolean true) ∧
    start.told (.owned "s") as = start.told (.owned "c") as := by
  intro σ start as left
  have hσ : σ.Formed := Session.formed_empty.after nestedScope
  have hs : σ.scopeAt? (.owned "s") = some (Scope.inside ⟨0⟩) := by decide
  have hc : Place.owned "s" ≠ .owned "c" := by simp
  obtain ⟨hleft, htold, -⟩ := copy_runs_like_original hσ hs hc as
  exact ⟨hσ, hs, hleft, by decide, by decide, htold⟩

/-- A global write passes by what the copy itself binds: the copy binds the name
and goes on seeing its own value, and it is through the original that the new
one is seen. -/
theorem global_write_passes_copy :
    let σ := ((Action.copyScope (.owned "s") "c").run (Session.empty.after nestedScope)).1
    let before := σ.accessed (.owned "c") [.write .declare "x" (.boolean false)]
    let after := before.accessed (.owned "c") [.write .global "x" (.boolean true)]
    ((Action.bindsHere (.place (.owned "c")) "x").run before).2 = .flag true ∧
    ((Action.read (.place (.owned "s")) .binding "x").run before).2 = .binding none ∧
    ((Action.read (.place (.owned "s")) .binding "x").run after).2 =
      .binding (some (.boolean true)) ∧
    ((Action.read (.place (.owned "c")) .binding "x").run after).2 =
      .binding (some (.boolean false)) :=
  ⟨rfl, rfl, rfl, rfl⟩

end ScopeChain

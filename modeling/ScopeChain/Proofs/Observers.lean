/-
ScopeChain.Proofs.Observers — what one write is to everybody who looks.

A write through a scope touches one entry of one scope, its target. What
makes it more than that is that others look through the target too:
scopes inside it, scopes beside the one that was written through, scopes
held outside of any cell. Each of them sees the new value exactly if its
own search for the name comes as far as the target (`Heap.Reaches`), and
sees what it saw before if not. So the two questions about a write are
answered apart:

* where it goes: `Heap.binder?_eq_some_iff` and `Heap.target_assign` describe
  the one target that is searched for, and on an acyclic heap the search is
  the recursion of `Heap.Acyclic.target_assign_unfolds`;
* who sees it: `Heap.resolve?_bindAt`, for any target in any heap.
-/
import ScopeChain.Proofs.Acyclicity

namespace ScopeChain

/-! ## 1. First hits in a list, up to a given member -/

section

variable {α β : Type} [DecidableEq α]

/-- What is found first if `t` is given the value `b`: that value, unless
something before `t` is found. -/
theorem findSome?_override (f : α → Option β) (t : α) (b : β) (l : List α) :
    l.findSome? (fun k => if k = t then some b else f k) =
      if t ∈ l ∧ ∀ k ∈ l.takeWhile (· ≠ t), f k = none then some b else l.findSome? f := by
  induction l with
  | nil => rfl
  | cons k l ih =>
    by_cases hk : k = t
    · simp [hk]
    · rw [List.findSome?_cons, if_neg hk, List.findSome?_cons, ih]
      cases hf : f k with
      | some _ => simp [hk, hf]
      | none => simp [hk, hf, Ne.symm hk]

/-- `t` passes the test first if it passes it and nothing before it does. -/
theorem find?_eq_some_iff_takeWhile (p : α → Bool) (t : α) (l : List α) :
    l.find? p = some t ↔ (t ∈ l ∧ ∀ k ∈ l.takeWhile (· ≠ t), ¬ p k) ∧ p t := by
  induction l with
  | nil => simp
  | cons k l ih =>
    rw [List.find?_cons]
    by_cases hk : k = t
    · subst hk
      cases hp : p k with
      | true => simp
      | false =>
        simp only [ih, hp]
        simp
    · cases hp : p k with
      | true => simp [hk, hp]
      | false => simp [ih, hk, hp, Ne.symm hk]

end

namespace Heap

variable {heap : Heap} {start : Option Handle} {h t : Handle}

/-! ## 2. How far a search goes -/

/-- Searched for from a starting point, a name leads as far as the scope at
`t`: it is met, and no scope met before it binds the name. -/
def Reaches (heap : Heap) (start : Option Handle) (name : String) (t : Handle) : Prop :=
  t ∈ heap.path start ∧ ∀ k ∈ (heap.path start).takeWhile (· ≠ t), ¬ (heap.scope k).binds name

instance (heap : Heap) (start : Option Handle) (name : String) (t : Handle) :
    Decidable (heap.Reaches start name t) :=
  inferInstanceAs (Decidable (_ ∧ _))

/-- A search ends at the scope that it leads to and that binds the name. -/
theorem binder?_eq_some_iff {name : String} :
    heap.binder? start name = some t ↔
      heap.Reaches start name t ∧ (heap.scope t).binds name := by
  rw [binder?, firstUp?_eq_find?]
  exact find?_eq_some_iff_takeWhile _ t _

theorem binder?_eq_none_iff {name : String} :
    heap.binder? start name = none ↔ ∀ k ∈ heap.path start, ¬ (heap.scope k).binds name := by
  rw [binder?, firstUp?_eq_find?]
  exact List.find?_eq_none

/-- Where no scope binds the name the search leads everywhere. -/
theorem reaches_of_unbound {name : String}
    (hnone : ∀ k ∈ heap.path start, ¬ (heap.scope k).binds name) (ht : t ∈ heap.path start) :
    heap.Reaches start name t :=
  ⟨ht, fun k hk => hnone k (List.takeWhile_subset _ hk)⟩

theorem find?_bindAt (ht : t.index < heap.size) (name : String) (v : Value) (k : Handle)
    (m : String) : ((heap.bindAt t name v).scope k).find? m =
      if k = t ∧ m = name then some v else (heap.scope k).find? m := by
  rw [scope_bindAt]
  by_cases hk : k = t
  · subst hk
    rw [if_pos ⟨rfl, ht⟩, Scope.find?_bind]
    simp
  · rw [if_neg fun h => hk h.1, if_neg fun h => hk h.1]

/-- **Who sees a new value**: those whose search for the name leads to the
scope that was given it. Nobody else sees a difference. -/
theorem resolve?_bindAt (ht : t.index < heap.size) (name : String) (v : Value)
    (start : Option Handle) (m : String) :
    (heap.bindAt t name v).resolve? start m =
      if m = name ∧ heap.Reaches start name t then some v else heap.resolve? start m := by
  rw [resolve?_eq_findSome?, path_bindAt, resolve?_eq_findSome?]
  simp only [find?_bindAt ht]
  by_cases hm : m = name
  · subst hm
    simp only [and_true]
    rw [findSome?_override]
    simp [Reaches, Scope.binds_eq_isSome]
  · simp [hm]

/-! ## 3. Where a write goes -/

/-- An assignment is searched for one parent at a time, like a lookup, and
stops at a root. -/
theorem Acyclic.target_assign_unfolds (hac : heap.Acyclic) (hh : h.index < heap.size)
    (name : String) :
    heap.target .assign h name =
      if (heap.scope h).binds name then h
      else (heap.scope h).parent.elim h fun p => heap.target .assign p name := by
  have hroot := (hac.unfolds hh).root_eq
  simp only [target]
  rw [hac.binder?_eq hh]
  cases (heap.scope h).binds name with
  | true => rfl
  | false =>
    cases hp : (heap.scope h).parent with
    | none =>
      rw [hp] at hroot
      have hnone : heap.binder? none name = none := by
        simp [binder?, firstUp?_eq_find?, path_none]
      simp [hnone, hroot]
    | some p =>
      rw [hp] at hroot
      simp [hroot]

/-- An assignment goes to the nearest scope that binds the name, and to the
root if none does. -/
theorem target_assign (heap : Heap) (h : Handle) (name : String) :
    heap.Reaches (some h) name (heap.target .assign h name) ∧
        (heap.scope (heap.target .assign h name)).binds name ∨
      (∀ k ∈ heap.chain h, ¬ (heap.scope k).binds name) ∧
        heap.target .assign h name = heap.root h := by
  unfold target
  cases hbinder : heap.binder? (some h) name with
  | some t => exact .inl (binder?_eq_some_iff.mp hbinder)
  | none => exact .inr ⟨binder?_eq_none_iff.mp hbinder, rfl⟩

/-- Whoever declares or assigns a name finds it: nothing hides it. -/
theorem Acyclic.reaches_target (hac : heap.Acyclic) (hh : h.index < heap.size)
    {mode : WriteMode} (hmode : mode ≠ .global) (name : String) :
    heap.Reaches (some h) name (heap.target mode h name) := by
  cases mode with
  | global => exact absurd rfl hmode
  | declare =>
    have hpath : heap.path (some h) = h :: heap.path (heap.scope h).parent := hac.chain_eq hh
    simp [target, Reaches, hpath]
  | assign =>
    rcases heap.target_assign h name with ⟨hreaches, -⟩ | ⟨hnone, hroot⟩
    · exact hreaches
    · rw [hroot]
      exact reaches_of_unbound hnone (hac.root_mem_chain hh)

/-- A search that ends before the root does not lead to any root. -/
theorem Acyclic.not_reaches_of_bound (hac : heap.Acyclic) {g k : Handle}
    (hg : g.index < heap.size) {name : String} (hk : k ∈ heap.chain g) (hne : k ≠ heap.root g)
    (hbinds : (heap.scope k).binds name) (hroot : (heap.scope t).parent = none) :
    ¬ heap.Reaches (some g) name t := by
  rintro ⟨ht, hbefore⟩
  obtain rfl : t = heap.root g := hac.eq_root_of_mem_chain hg ht hroot
  have hlast : (heap.chain g).getLast? = some (heap.root g) := hac.getLast?_chain hg
  have hnodup := (hac.isPath_chain hg).nodup
  obtain ⟨inner, hsplit⟩ := List.getLast?_eq_some_iff.mp hlast
  rw [hsplit] at hk hnodup
  have hinner : k ∈ inner := by simpa [hne] using hk
  have hfar : ∀ j ∈ inner, j ≠ heap.root g := by
    rintro j hj rfl
    exact (List.nodup_append.mp hnodup).2.2 _ hj _ List.mem_cons_self rfl
  refine hbefore k ?_ hbinds
  have hpath : heap.path (some g) = inner ++ [heap.root g] := hsplit
  rw [hpath, List.takeWhile_append_of_pos (by simpa using hfar)]
  exact List.mem_append_left _ hinner

/-! ## 4. One write, and everybody's view of it -/

/-- `later` is `heap` after `name` was bound to `v` in the scope at `t`: no
other entry, scope or parent differs, and the new value is found, from cells
and from scopes outside of them, exactly by those whose search leads to `t`. -/
structure BoundAt (heap : Heap) (t : Handle) (name : String) (v : Value) (later : Heap) :
    Prop where
  size_eq : later.size = heap.size
  parent_eq : ∀ k, (later.scope k).parent = (heap.scope k).parent
  find?_eq : ∀ k m, (later.scope k).find? m =
    if k = t ∧ m = name then some v else (heap.scope k).find? m
  lookup_eq : ∀ g m, later.lookup g m =
    if m = name ∧ heap.Reaches (some g) name t then some v else heap.lookup g m
  owned_eq : ∀ (s : Scope) m, s.lookup later m =
    if m = name ∧ ¬ s.binds name ∧ heap.Reaches s.parent name t then some v
    else s.lookup heap m

theorem boundAt_bindAt (ht : t.index < heap.size) (name : String) (v : Value) :
    heap.BoundAt t name v (heap.bindAt t name v) where
  size_eq := size_bindAt heap t name v
  parent_eq := parent_bindAt heap t name v
  find?_eq := find?_bindAt ht name v
  lookup_eq g := resolve?_bindAt ht name v (some g)
  owned_eq s m := by
    unfold Scope.lookup
    rw [resolve?_bindAt ht]
    by_cases hm : m = name
    · subst hm
      cases hs : s.find? m <;> simp [Scope.binds_eq_isSome, hs]
    · simp [hm]

/-- Which entries are there that were not. -/
theorem BoundAt.created_iff {name : String} {v : Value} {later : Heap}
    (h : heap.BoundAt t name v later) {k : Handle} {m : String} :
    (later.scope k).binds m ∧ ¬ (heap.scope k).binds m ↔
      (k = t ∧ m = name) ∧ ¬ (heap.scope t).binds name := by
  rw [Scope.binds_eq_isSome, h.find?_eq]
  split
  · next hkm =>
    obtain ⟨rfl, rfl⟩ := hkm
    simp
  · next hkm =>
    rw [← Scope.binds_eq_isSome]
    simp [hkm]

end Heap

/-! ## 5. Writing through an owned scope -/

namespace Scope

/-- A write through an owned scope stays in it, or is a write through its
parent. -/
theorem write_cases (s : Scope) (heap : Heap) (mode : WriteMode) (name : String) (v : Value) :
    (s.write heap mode name v = (s.bind name v, heap) ∧
        (mode = .declare ∨ s.parent = none ∨ mode = .assign ∧ s.binds name)) ∨
      ∃ p, s.parent = some p ∧ mode ≠ .declare ∧ (mode = .assign → ¬ s.binds name) ∧
        s.write heap mode name v = (s, heap.write mode p name v) := by
  have hs := s.unfolds heap
  cases mode with
  | declare => exact .inl ⟨rfl, .inl rfl⟩
  | global =>
    rw [hs.global_eq]
    cases hp : s.parent with
    | none => exact .inl ⟨rfl, .inr (.inl rfl)⟩
    | some p => exact .inr ⟨p, rfl, by simp, by simp, rfl⟩
  | assign =>
    rw [hs.assign_eq]
    cases hb : s.binds name with
    | true => exact .inl ⟨by simp, .inr (.inr ⟨rfl, rfl⟩)⟩
    | false =>
      cases hp : s.parent with
      | none => exact .inl ⟨by simp, .inr (.inl rfl)⟩
      | some p => exact .inr ⟨p, rfl, by simp, by simp, by simp⟩

/-- What stays in an owned scope is seen through it. -/
theorem lookup_bind (s : Scope) (heap : Heap) (name : String) (v : Value) (m : String) :
    (s.bind name v).lookup heap m = if m = name then some v else s.lookup heap m := by
  unfold lookup
  rw [find?_bind, parent_bind]
  by_cases hm : m = name <;> simp [hm]

/-- Whoever declares or assigns a name through an owned scope finds it there. -/
theorem lookup_write {heap : Heap} (hac : heap.Acyclic) (s : Scope)
    (hs : ∀ p ∈ s.parent, p.index < heap.size) {mode : WriteMode} (hmode : mode ≠ .global)
    (name : String) (v : Value) :
    (s.write heap mode name v).1.lookup (s.write heap mode name v).2 name = some v := by
  rcases s.write_cases heap mode name v with ⟨heq, -⟩ | ⟨p, hp, hdeclare, hassign, heq⟩
  · rw [heq, lookup_bind, if_pos rfl]
  · obtain rfl : mode = .assign := by cases mode <;> simp_all
    have hlt := hs p (Option.mem_def.mpr hp)
    have hbound := Heap.boundAt_bindAt (hac.target_lt hlt .assign name) name v
    have hreaches := hac.reaches_target hlt hmode name
    rw [heq]
    exact (hbound.owned_eq s name).trans (if_pos ⟨rfl, hassign rfl, hp ▸ hreaches⟩)

end Scope

/-- **One write, every observer.** Write a name through any scope of an
acyclic heap, in any of the three ways. Then

* exactly one entry of exactly one scope is written, and every lookup, of
  any name from anywhere, finds the new value if its search for this name
  leads to the scope written to, and else what it found before;
* a declaration goes to the scope itself and a global write to the root; an
  assignment goes to the nearest scope that binds the name or, if none
  does, to the root, and is searched for one parent at a time;
* what is declared or assigned is read back; a global write is not noticed
  by those who find the name before their root;
* an assignment makes a binding only if no scope of the chain had one, and
  then one, in the root.

From an owned scope, a write either stays in it, where nobody else looks,
or is the same write through its parent. -/
theorem write_seen_by_all {heap : Heap} (hac : heap.Acyclic) {h : Handle}
    (hh : h.index < heap.size) (name : String) (v : Value) :
    (∀ mode, heap.BoundAt (heap.target mode h name) name v (heap.write mode h name v)) ∧
    heap.target .declare h name = h ∧
    heap.target .global h name = heap.root h ∧
    (heap.Reaches (some h) name (heap.target .assign h name) ∧
        (heap.scope (heap.target .assign h name)).binds name ∨
      (∀ k ∈ heap.chain h, ¬ (heap.scope k).binds name) ∧
        heap.target .assign h name = heap.root h) ∧
    heap.target .assign h name =
      (if (heap.scope h).binds name then h
      else (heap.scope h).parent.elim h fun p => heap.target .assign p name) ∧
    (∀ mode, mode ≠ .global → (heap.write mode h name v).lookup h name = some v) ∧
    (∀ g k : Handle, g.index < heap.size → k ∈ heap.chain g → k ≠ heap.root g →
      (heap.scope k).binds name → ∀ m, (heap.write .global h name v).lookup g m = heap.lookup g m) ∧
    (∀ k m, ((heap.write .assign h name v).scope k).binds m ∧ ¬ (heap.scope k).binds m ↔
      (k = heap.root h ∧ m = name) ∧ ∀ j ∈ heap.chain h, ¬ (heap.scope j).binds name) ∧
    (∀ s : Scope, (∀ p ∈ s.parent, p.index < heap.size) → ∀ mode,
      ((s.write heap mode name v = (s.bind name v, heap) ∧
          (mode = .declare ∨ s.parent = none ∨ mode = .assign ∧ s.binds name) ∧
          ∀ m, (s.bind name v).lookup heap m = if m = name then some v else s.lookup heap m) ∨
        ∃ p, s.parent = some p ∧ mode ≠ .declare ∧ (mode = .assign → ¬ s.binds name) ∧
          s.write heap mode name v = (s, heap.write mode p name v) ∧
          heap.BoundAt (heap.target mode p name) name v (heap.write mode p name v)) ∧
      (mode ≠ .global →
        (s.write heap mode name v).1.lookup (s.write heap mode name v).2 name = some v)) := by
  have hbound : ∀ mode,
      heap.BoundAt (heap.target mode h name) name v (heap.write mode h name v) := fun mode =>
    Heap.boundAt_bindAt (hac.target_lt hh mode name) name v
  have hassign := heap.target_assign h name
  refine ⟨hbound, rfl, rfl, hassign, hac.target_assign_unfolds hh name, fun mode hmode => ?_,
    fun g k hg hk hne hbinds m => ?_, fun k m => ?_, fun s hs mode => ⟨?_, ?_⟩⟩
  · rw [(hbound mode).lookup_eq, if_pos ⟨rfl, hac.reaches_target hh hmode name⟩]
  · rw [(hbound .global).lookup_eq, if_neg]
    rintro ⟨-, hreaches⟩
    exact hac.not_reaches_of_bound hg hk hne hbinds (hac.parent_root hh) hreaches
  · rw [(hbound .assign).created_iff]
    rcases hassign with ⟨hreaches, hbinds⟩ | ⟨hnone, hroot⟩
    · exact iff_of_false (fun hnew => hnew.2 hbinds) fun hnone => hnone.2 _ hreaches.1 hbinds
    · rw [hroot]
      exact and_congr_right fun _ =>
        iff_of_true (hnone _ (hac.root_mem_chain hh)) hnone
  · rcases s.write_cases heap mode name v with ⟨heq, hwhy⟩ | ⟨p, hp, hdeclare, hassign, heq⟩
    · exact .inl ⟨heq, hwhy, s.lookup_bind heap name v⟩
    · exact .inr ⟨p, hp, hdeclare, hassign, heq,
        Heap.boundAt_bindAt (hac.target_lt (hs p hp) mode name) name v⟩
  · exact fun hmode => s.lookup_write hac hs hmode name v

/-- A root that binds a name, a scope inside it, and two inside that one, of
which the second binds the name too. -/
def shadowed : Heap :=
  ((((Heap.empty.add (Scope.empty.bind "x" .nil)).1.child ⟨0⟩).1.child ⟨1⟩).1.add
    ((Scope.inside ⟨1⟩).bind "x" (.boolean true))).1

theorem write_seen_by_all_shadowed :
    let later := shadowed.write .assign ⟨2⟩ "x" (.boolean false)
    shadowed.Acyclic ∧ (⟨2⟩ : Handle).index < shadowed.size ∧
    shadowed.target .assign ⟨2⟩ "x" = ⟨0⟩ ∧
    later.lookup ⟨0⟩ "x" = some (.boolean false) ∧
    later.lookup ⟨1⟩ "x" = some (.boolean false) ∧
    later.lookup ⟨2⟩ "x" = some (.boolean false) ∧
    later.lookup ⟨3⟩ "x" = some (.boolean true) := by
  intro later
  have hac : shadowed.Acyclic := by
    refine (((Heap.acyclic_empty.add ?_).add ?_).add ?_).add ?_ <;> intro p hp <;> cases hp <;>
      decide
  have hlt : (⟨2⟩ : Handle).index < shadowed.size := by decide
  obtain ⟨hbound, -, -, -, -, hread, -⟩ :=
    write_seen_by_all hac hlt "x" (.boolean false)
  have hlookup := (hbound .assign).lookup_eq
  have htarget : shadowed.target .assign ⟨2⟩ "x" = ⟨0⟩ := by decide
  rw [htarget] at hlookup
  refine ⟨hac, hlt, htarget, ?_, ?_, hread .assign (by decide), ?_⟩
  · exact (hlookup ⟨0⟩ "x").trans (by decide)
  · exact (hlookup ⟨1⟩ "x").trans (by decide)
  · exact (hlookup ⟨3⟩ "x").trans (by decide)

end ScopeChain

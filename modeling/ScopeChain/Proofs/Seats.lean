/-
ScopeChain.Proofs.Seats — scopes in cells and scopes apart, read and
written alike.

A scope is kept in a cell or apart from all cells, and what is done through
it goes by two sets of functions. A SEAT is either place, and the way
outward from a seat is a list of seats that begins with it
(`Session.chainFrom`). Along this list the two are the same: a name is
looked up as the first hit (`lookupAt_eq`), and a write binds the name in
one seat of the list, its goal (`writeAt_eq`).

Binding a name moves no seat (`chainFrom_bindIn`) and touches one entry of
one scope (`find?_bindIn`). So what several writes come to, and who sees
it, are questions about first hits in lists that do not change.

The targets of a script stand for seats (`seat?`), an environment for that
of its current scope, and steps that read or write a target do it there
(`run_read`, `run_write`).
-/
import ScopeChain.Proofs.ScopeCopies

namespace ScopeChain

/-! ## 1. Seats -/

/-- Where a scope is kept: in a cell, or under a name of its own. -/
inductive Seat where
  | cell (i : Handle)
  | apart (x : String)
deriving DecidableEq

namespace Session

/-- The scope that is kept there. -/
def scopeIn (σ : Session) : Seat → Scope
  | .cell i => σ.heap.scope i
  | .apart x => σ.owned[x]?.getD Scope.empty

/-- A scope is kept there, and the scope that encloses it is in a cell. -/
def Has (σ : Session) : Seat → Prop
  | .cell i => i.index < σ.heap.size
  | .apart x => ∃ s, σ.owned[x]? = some s ∧ ∀ p ∈ s.parent, p.index < σ.heap.size

/-- The way outward: the seat, and the cells from the enclosing scope to the
root. -/
def chainFrom (σ : Session) (k : Seat) : List Seat :=
  k :: (σ.heap.path (σ.scopeIn k).parent).map .cell

/-- The last seat on the way outward. -/
def rootFrom (σ : Session) (k : Seat) : Seat := (σ.chainFrom k).getLast (List.cons_ne_nil _ _)

/-- The nearest seat whose scope binds the name. -/
def binderFrom? (σ : Session) (k : Seat) (name : String) : Option Seat :=
  (σ.chainFrom k).find? fun j => (σ.scopeIn j).binds name

/-- The value of a name seen from a scope. -/
def lookupAt (σ : Session) (k : Seat) (name : String) : Option Value :=
  match k with
  | .cell i => σ.heap.lookup i name
  | .apart _ => (σ.scopeIn k).lookup σ.heap name

/-- What a name reads as from a scope: nil if nothing binds it. -/
def valueAt (σ : Session) (k : Seat) (name : String) : Value := (σ.lookupAt k name).getD .nil

/-- Writes a name through a scope. -/
def writeAt (σ : Session) (mode : WriteMode) (k : Seat) (name : String) (v : Value) : Session :=
  match k with
  | .cell i => σ.withHeap (σ.heap.write mode i name v)
  | .apart x =>
    let (s, heap) := (σ.scopeIn k).write σ.heap mode name v
    (σ.withHeap heap).putOwned x s

/-- The seat that a write goes to. -/
def goal (σ : Session) (mode : WriteMode) (k : Seat) (name : String) : Seat :=
  match mode with
  | .declare => k
  | .assign => (σ.binderFrom? k name).getD (σ.rootFrom k)
  | .global => σ.rootFrom k

/-- Keeps a scope there, in place of the one that was. -/
def keep (σ : Session) (k : Seat) (s : Scope) : Session :=
  match k with
  | .cell i => σ.withHeap (Store.write σ.heap i s)
  | .apart x => σ.putOwned x s

/-- Binds a name in the scope that is kept there. -/
def bindIn (σ : Session) (k : Seat) (name : String) (v : Value) : Session :=
  σ.keep k ((σ.scopeIn k).bind name v)

variable {σ : Session} {g j k : Seat} {n m : String} {v w : Value} {mode : WriteMode}

/-! ## 2. The way outward -/

theorem getLast?_chainFrom (σ : Session) (k : Seat) :
    (σ.chainFrom k).getLast? = some (σ.rootFrom k) :=
  List.getLast?_eq_some_getLast _

theorem mem_chainFrom_self (σ : Session) (k : Seat) : k ∈ σ.chainFrom k := List.mem_cons_self

theorem rootFrom_mem (σ : Session) (k : Seat) : σ.rootFrom k ∈ σ.chainFrom k :=
  List.mem_of_getLast? (σ.getLast?_chainFrom k)

theorem goal_mem (σ : Session) (mode : WriteMode) (k : Seat) (name : String) :
    σ.goal mode k name ∈ σ.chainFrom k := by
  cases mode with
  | declare => exact σ.mem_chainFrom_self k
  | global => exact σ.rootFrom_mem k
  | assign =>
    rw [goal]
    cases h : σ.binderFrom? k name with
    | none => exact σ.rootFrom_mem k
    | some j => exact List.mem_of_find?_eq_some h

theorem Has.parent_lt (hac : σ.heap.Acyclic) (hk : σ.Has k) :
    ∀ p ∈ (σ.scopeIn k).parent, p.index < σ.heap.size := by
  intro p hp
  cases k with
  | cell i => exact hac.parent_lt hk hp
  | apart x =>
    obtain ⟨s, hs, hlt⟩ := hk
    rw [scopeIn, hs] at hp
    exact hlt p hp

theorem Has.of_mem (hac : σ.heap.Acyclic) (hk : σ.Has k) (hj : j ∈ σ.chainFrom k) : σ.Has j := by
  rcases List.mem_cons.mp hj with rfl | hj
  · exact hk
  · obtain ⟨i, hi, rfl⟩ := List.mem_map.mp hj
    exact (hac.isPath_path (hk.parent_lt hac)).lt_size i hi

theorem Has.goal (hac : σ.heap.Acyclic) (hk : σ.Has k) (mode : WriteMode) (name : String) :
    σ.Has (σ.goal mode k name) :=
  hk.of_mem hac (σ.goal_mem mode k name)

/-- No seat is met twice. -/
theorem Has.nodup_chainFrom (hac : σ.heap.Acyclic) (hk : σ.Has k) : (σ.chainFrom k).Nodup := by
  have hpath := (hac.isPath_path (hk.parent_lt hac)).nodup
  have hcells : ((σ.heap.path (σ.scopeIn k).parent).map Seat.cell).Nodup :=
    List.Pairwise.map Seat.cell (fun i j hne he => hne (Seat.cell.inj he)) hpath
  refine List.nodup_cons.mpr ⟨?_, hcells⟩
  cases k with
  | cell i =>
    have hchain := (hac.isPath_chain hk).nodup
    rw [hac.chain_eq hk, List.nodup_cons] at hchain
    simpa [scopeIn] using hchain.1
  | apart x => simp

/-- The root, found at the enclosing scope. -/
theorem rootFrom_eq (hac : σ.heap.Acyclic) (hk : σ.Has k) :
    σ.rootFrom k = (σ.scopeIn k).parent.elim k fun p => .cell (σ.heap.root p) := by
  have hparent := hk.parent_lt hac
  have hlast := σ.getLast?_chainFrom k
  rw [chainFrom, List.getLast?_cons, List.getLast?_map] at hlast
  cases hp : (σ.scopeIn k).parent with
  | none =>
    rw [hp, Heap.path_none] at hlast
    exact (Option.some.inj hlast).symm
  | some p =>
    have hchain : (σ.heap.path (some p)).getLast? = some (σ.heap.root p) :=
      hac.getLast?_chain (hparent p hp)
    rw [hp, hchain] at hlast
    exact (Option.some.inj hlast).symm

/-- The nearest scope that binds a name, found at the enclosing scope. -/
theorem binderFrom?_eq (σ : Session) (k : Seat) (name : String) :
    σ.binderFrom? k name =
      if (σ.scopeIn k).binds name then some k
      else (σ.heap.binder? (σ.scopeIn k).parent name).map .cell := by
  rw [binderFrom?, chainFrom, List.find?_cons, List.find?_map, Heap.binder?,
    Heap.firstUp?_eq_find?]
  cases (σ.scopeIn k).binds name <;> rfl

theorem parent_rootFrom (hac : σ.heap.Acyclic) (hk : σ.Has k) :
    (σ.scopeIn (σ.rootFrom k)).parent = none := by
  rw [rootFrom_eq hac hk]
  cases hp : (σ.scopeIn k).parent with
  | none => exact hp
  | some p => exact hac.parent_root (hk.parent_lt hac p hp)

/-- The way outward has one root. -/
theorem eq_rootFrom (hac : σ.heap.Acyclic) (hk : σ.Has k) (hj : j ∈ σ.chainFrom k)
    (hroot : (σ.scopeIn j).parent = none) : j = σ.rootFrom k := by
  rw [rootFrom_eq hac hk]
  rcases List.mem_cons.mp hj with rfl | hj
  · rw [hroot]
    rfl
  · obtain ⟨i, hi, rfl⟩ := List.mem_map.mp hj
    cases hp : (σ.scopeIn k).parent with
    | none =>
      rw [hp, Heap.path_none] at hi
      cases hi
    | some p =>
      rw [hp] at hi
      exact congrArg Seat.cell (hac.eq_root_of_mem_chain (hk.parent_lt hac p hp) hi hroot)

/-! ## 3. Keeping a scope in a seat -/

theorem scopeIn_keep (hj : σ.Has j) (s : Scope) (k : Seat) :
    (σ.keep j s).scopeIn k = if k = j then s else σ.scopeIn k := by
  cases j with
  | cell i =>
    cases k with
    | cell i' =>
      have hscope := σ.heap.scope_replace i s i'
      by_cases hi : i' = i
      · subst hi
        rw [if_pos rfl]
        exact hscope.trans (if_pos ⟨rfl, hj⟩)
      · rw [if_neg fun h => hi (Seat.cell.inj h)]
        exact hscope.trans (if_neg fun h => hi h.1)
    | apart x => simp [keep, scopeIn, withHeap]
  | apart x =>
    cases k with
    | cell i => simp [keep, scopeIn, putOwned]
    | apart y =>
      by_cases hy : y = x
      · simp [keep, scopeIn, putOwned, hy]
      · simp [keep, scopeIn, putOwned, Std.ExtTreeMap.getElem?_insert, hy, Ne.symm hy]

theorem keep_keep (σ : Session) (k : Seat) (s t : Scope) : (σ.keep k s).keep k t = σ.keep k t := by
  cases k with
  | cell i => exact congrArg σ.withHeap (Store.write_write σ.heap i s t)
  | apart x => exact congrArg (fun owned => { σ with owned }) (Table.insert_insert σ.owned x s t)

theorem keep_comm (σ : Session) (hne : j ≠ k) (s t : Scope) :
    (σ.keep j s).keep k t = (σ.keep k t).keep j s := by
  cases j with
  | cell i =>
    cases k with
    | cell i' =>
      have hi : i ≠ i' := fun h => hne (congrArg Seat.cell h)
      exact congrArg σ.withHeap (Store.write_comm σ.heap hi s t)
    | apart x => rfl
  | apart x =>
    cases k with
    | cell i => rfl
    | apart y =>
      have hx : x ≠ y := fun h => hne (congrArg Seat.apart h)
      exact congrArg (fun owned => { σ with owned }) (Table.insert_comm σ.owned hx s t)

/-- Keeping what is there changes nothing. -/
theorem keep_scopeIn (hk : σ.Has k) : σ.keep k (σ.scopeIn k) = σ := by
  cases k with
  | cell i => exact congrArg σ.withHeap (σ.heap.replace_scope i)
  | apart x =>
    obtain ⟨s, hs, -⟩ := hk
    have hscope : σ.scopeIn (.apart x) = s := by rw [scopeIn, hs]; rfl
    rw [hscope]
    exact congrArg (fun owned => { σ with owned }) (Table.insert_of_getElem? σ.owned hs)

/-! ## 4. Binding a name in a seat -/

theorem bindIn_cell {i : Handle} (hi : i.index < σ.heap.size) (name : String) (v : Value) :
    σ.bindIn (.cell i) name v = σ.withHeap (σ.heap.bindAt i name v) :=
  congrArg σ.withHeap (Heap.bindAt_eq_replace hi name v).symm

theorem scopeIn_bindIn (hj : σ.Has j) (name : String) (v : Value) (k : Seat) :
    (σ.bindIn j name v).scopeIn k =
      if k = j then (σ.scopeIn j).bind name v else σ.scopeIn k :=
  scopeIn_keep hj _ k

theorem find?_bindIn (hj : σ.Has j) (name : String) (v : Value) (k : Seat) (m : String) :
    ((σ.bindIn j name v).scopeIn k).find? m =
      if k = j ∧ m = name then some v else (σ.scopeIn k).find? m := by
  rw [scopeIn_bindIn hj]
  by_cases hk : k = j
  · simp [hk, Scope.find?_bind]
  · simp [hk]

theorem parent_bindIn (hj : σ.Has j) (name : String) (v : Value) (k : Seat) :
    ((σ.bindIn j name v).scopeIn k).parent = (σ.scopeIn k).parent := by
  rw [scopeIn_bindIn hj]
  split
  · next hk => rw [hk, Scope.parent_bind]
  · rfl

theorem binds_bindIn (hj : σ.Has j) (name : String) (v : Value) (k : Seat) (m : String) :
    ((σ.bindIn j name v).scopeIn k).binds m =
      (decide (k = j ∧ m = name) || (σ.scopeIn k).binds m) := by
  rw [Scope.binds_eq_isSome, find?_bindIn hj, Scope.binds_eq_isSome]
  by_cases h : k = j ∧ m = name <;> simp [h]

/-- The ways outward stay. -/
theorem chainFrom_bindIn (hj : σ.Has j) (name : String) (v : Value) (k : Seat) :
    (σ.bindIn j name v).chainFrom k = σ.chainFrom k := by
  have hpath : ∀ start, (σ.bindIn j name v).heap.path start = σ.heap.path start := by
    intro start
    cases j with
    | cell i =>
      rw [bindIn_cell hj]
      exact σ.heap.path_bindAt i name v start
    | apart x => rfl
  rw [chainFrom, chainFrom, parent_bindIn hj, hpath]

theorem rootFrom_bindIn (hj : σ.Has j) (name : String) (v : Value) (k : Seat) :
    (σ.bindIn j name v).rootFrom k = σ.rootFrom k := by
  have hlast := (σ.bindIn j name v).getLast?_chainFrom k
  rw [chainFrom_bindIn hj, getLast?_chainFrom] at hlast
  exact (Option.some.inj hlast).symm

theorem acyclic_bindIn (hac : σ.heap.Acyclic) (hj : σ.Has j) (name : String) (v : Value) :
    (σ.bindIn j name v).heap.Acyclic := by
  cases j with
  | cell i =>
    rw [bindIn_cell hj]
    exact hac.write .declare i name v
  | apart x => exact hac

theorem has_bindIn (hj : σ.Has j) (hk : σ.Has k) (name : String) (v : Value) :
    (σ.bindIn j name v).Has k := by
  cases j with
  | cell i =>
    have hsize : (σ.bindIn (.cell i) name v).heap.size = σ.heap.size := Store.size_write _ _ _
    cases k with
    | cell i' =>
      show i'.index < _
      rw [hsize]
      exact hk
    | apart x =>
      obtain ⟨s, hs, hlt⟩ := hk
      refine ⟨s, hs, ?_⟩
      rw [hsize]
      exact hlt
  | apart x =>
    cases k with
    | cell i => exact hk
    | apart y =>
      obtain ⟨s, hs, hlt⟩ := hk
      by_cases hy : y = x
      · subst hy
        have hscope : σ.scopeIn (.apart y) = s := by rw [scopeIn, hs]; rfl
        refine ⟨s.bind name v, ?_, hlt⟩
        simp [bindIn, keep, putOwned, hscope]
      · exact ⟨s, (Table.getElem?_insert_ne _ (Ne.symm hy) _).trans hs, hlt⟩

/-! ## 5. Lookups and writes along the way outward -/

/-- A lookup finds the first that binds the name. -/
theorem lookupAt_eq (hac : σ.heap.Acyclic) (hk : σ.Has k) (name : String) :
    σ.lookupAt k name = (σ.chainFrom k).findSome? fun j => (σ.scopeIn j).find? name := by
  rw [chainFrom, List.findSome?_cons, List.findSome?_map]
  cases k with
  | cell i =>
    rw [lookupAt, Heap.lookup_eq_findSome?, hac.chain_eq hk, List.findSome?_cons]
    rfl
  | apart x =>
    rw [lookupAt, Scope.lookup, Heap.resolve?_eq_findSome?]
    cases (σ.scopeIn (.apart x)).find? name <;> rfl

/-- A write stays where it is made or goes where it goes from the enclosing
scope. -/
theorem goal_eq (hac : σ.heap.Acyclic) (hk : σ.Has k) (mode : WriteMode) (name : String) :
    σ.goal mode k name =
      if (σ.scopeIn k).keepsWrite mode name then k
      else (σ.scopeIn k).parent.elim k fun p => .cell (σ.heap.target mode p name) := by
  have hroot := rootFrom_eq hac hk
  cases mode with
  | declare => rfl
  | global =>
    rw [goal, hroot]
    cases hp : (σ.scopeIn k).parent <;> simp [Scope.keepsWrite, Scope.isRoot, hp, Heap.target]
  | assign =>
    rw [goal, binderFrom?_eq, hroot]
    cases hb : (σ.scopeIn k).binds name with
    | true => simp [Scope.keepsWrite, hb]
    | false =>
      cases hp : (σ.scopeIn k).parent with
      | none =>
        simp [Scope.keepsWrite, Scope.isRoot, hb, hp, Heap.binder?, Heap.firstUp?_eq_find?,
          Heap.path_none]
      | some p =>
        cases hbinder : σ.heap.binder? (some p) name <;>
          simp [Scope.keepsWrite, Scope.isRoot, hb, hp, Heap.target, hbinder]

/-- A write that does not stay goes on from the parent. -/
theorem writeAt_unfolds (hac : σ.heap.Acyclic) (hk : σ.Has k) (mode : WriteMode) (name : String)
    (v : Value) :
    σ.writeAt mode k name v =
      if (σ.scopeIn k).keepsWrite mode name then σ.bindIn k name v
      else (σ.scopeIn k).parent.elim σ fun p => σ.withHeap (σ.heap.write mode p name v) := by
  cases k with
  | cell i =>
    have hwrite := hac.write_eq hk mode name v
    by_cases hkeeps : (σ.scopeIn (.cell i)).keepsWrite mode name
    · rw [if_pos hkeeps, bindIn_cell hk]
      exact congrArg σ.withHeap (hwrite.trans (if_pos hkeeps))
    · rw [if_neg hkeeps, writeAt, hwrite.trans (if_neg hkeeps)]
      simp only [scopeIn]
      cases (σ.heap.scope i).parent <;> rfl
  | apart x =>
    have hkept := fun heap => congrArg (withHeap · heap) (keep_scopeIn hk)
    simp only [writeAt, Scope.write_eq]
    split
    · rfl
    · cases (σ.scopeIn (.apart x)).parent <;> exact hkept _

/-- **A write binds the name in its goal**, and does nothing else. -/
theorem writeAt_eq (hac : σ.heap.Acyclic) (hk : σ.Has k) (mode : WriteMode) (name : String)
    (v : Value) : σ.writeAt mode k name v = σ.bindIn (σ.goal mode k name) name v := by
  rw [writeAt_unfolds hac hk, goal_eq hac hk]
  split
  · rfl
  · next hgoes =>
    cases hp : (σ.scopeIn k).parent with
    | none => exact absurd (Scope.keepsWrite_of_isRoot hp mode name) hgoes
    | some p => exact (bindIn_cell (hac.target_lt (hk.parent_lt hac p hp) mode name) _ _).symm

/-! ## 6. Who sees what is bound -/

/-- Searched for from `g`, a name leads as far as `t`: the seat is met, and no
scope met before it binds the name. -/
def Leads (σ : Session) (g : Seat) (name : String) (t : Seat) : Prop :=
  t ∈ σ.chainFrom g ∧ ∀ j ∈ (σ.chainFrom g).takeWhile (· ≠ t), ¬ (σ.scopeIn j).binds name

instance (σ : Session) (g : Seat) (name : String) (t : Seat) : Decidable (σ.Leads g name t) :=
  inferInstanceAs (Decidable (_ ∧ _))

theorem binderFrom?_eq_some_iff {t : Seat} {name : String} :
    σ.binderFrom? g name = some t ↔ σ.Leads g name t ∧ (σ.scopeIn t).binds name :=
  find?_eq_some_iff_takeWhile _ t _

theorem binderFrom?_eq_none_iff {name : String} :
    σ.binderFrom? g name = none ↔ ∀ j ∈ σ.chainFrom g, ¬ (σ.scopeIn j).binds name :=
  List.find?_eq_none

/-- A new value is seen by those whose search for the name leads to it. -/
theorem lookupAt_bindIn (hac : σ.heap.Acyclic) (hg : σ.Has g) (hj : σ.Has j) (name : String)
    (v : Value) (m : String) :
    (σ.bindIn j name v).lookupAt g m =
      if m = name ∧ σ.Leads g name j then some v else σ.lookupAt g m := by
  rw [lookupAt_eq (acyclic_bindIn hac hj name v) (has_bindIn hj hg name v), chainFrom_bindIn hj,
    lookupAt_eq hac hg]
  simp only [find?_bindIn hj]
  by_cases hm : m = name
  · subst hm
    simp only [and_true, true_and]
    rw [findSome?_override]
    simp [Leads, Scope.binds_eq_isSome]
  · simp [hm]

/-- What is written is seen by those whose search leads to where it goes. -/
theorem lookupAt_writeAt (hac : σ.heap.Acyclic) (hk : σ.Has k) (hg : σ.Has g) (mode : WriteMode)
    (name : String) (v : Value) (m : String) :
    (σ.writeAt mode k name v).lookupAt g m =
      if m = name ∧ σ.Leads g name (σ.goal mode k name) then some v else σ.lookupAt g m := by
  rw [writeAt_eq hac hk, lookupAt_bindIn hac hg (hk.goal hac mode name)]

/-- Whoever declares or assigns a name is led to where it went. -/
theorem leads_goal (σ : Session) {mode : WriteMode} (hmode : mode ≠ .global) (k : Seat)
    (name : String) : σ.Leads k name (σ.goal mode k name) := by
  cases mode with
  | global => exact absurd rfl hmode
  | declare => simp [goal, Leads, chainFrom]
  | assign =>
    rw [goal]
    cases h : σ.binderFrom? k name with
    | some t => exact (binderFrom?_eq_some_iff.mp h).1
    | none =>
      refine ⟨σ.rootFrom_mem k, fun j hj => ?_⟩
      exact binderFrom?_eq_none_iff.mp h j (List.takeWhile_subset _ hj)

/-- A search that leads to a root finds the name there or nowhere. -/
theorem Leads.binderFrom?_eq_none {t : Seat} {name : String} (hac : σ.heap.Acyclic)
    (hg : σ.Has g) (h : σ.Leads g name t) (hroot : (σ.scopeIn t).parent = none)
    (hnot : ¬ (σ.scopeIn t).binds name) : σ.binderFrom? g name = none := by
  obtain rfl := eq_rootFrom hac hg h.1 hroot
  have hnodup := hg.nodup_chainFrom hac
  obtain ⟨inner, hsplit⟩ := List.getLast?_eq_some_iff.mp (σ.getLast?_chainFrom g)
  have hbefore := h.2
  rw [hsplit] at hnodup hbefore
  have hfar : ∀ j ∈ inner, j ≠ σ.rootFrom g := by
    rintro j hj rfl
    exact (List.nodup_append.mp hnodup).2.2 _ hj _ List.mem_cons_self rfl
  rw [List.takeWhile_append_of_pos (by simpa using hfar)] at hbefore
  rw [binderFrom?_eq_none_iff, hsplit]
  intro j hj
  rcases List.mem_append.mp hj with hj | hj
  · exact hbefore j (List.mem_append_left _ hj)
  · rw [List.mem_singleton.mp hj]
    exact hnot

/-! ## 7. The seats of targets -/

/-- Where the scope is kept that a target stands for. -/
def seat? (σ : Session) : Target → Option Seat
  | .place (.shared x) => σ.handles[x]?.map .cell
  | .place (.owned x) => σ.owned[x]?.map fun _ => .apart x
  | .environment e => σ.environments[e]?.map fun env => .cell env.current

theorem Formed.has_seat (hσ : σ.Formed) {t : Target} (hk : σ.seat? t = some k) : σ.Has k := by
  rcases t with (x | x) | e
  · obtain ⟨i, hi, rfl⟩ := Option.map_eq_some_iff.mp hk
    exact hσ.handle_lt hi
  · obtain ⟨s, hs, rfl⟩ := Option.map_eq_some_iff.mp hk
    exact ⟨s, hs, hσ.parent_lt hs⟩
  · obtain ⟨env, he, rfl⟩ := Option.map_eq_some_iff.mp hk
    exact hσ.held_lt he _ (Environment.mem_held.mpr (.inl env.current_mem_frames))

theorem seat?_bindIn (hj : σ.Has j) (name : String) (v : Value) (t : Target) :
    (σ.bindIn j name v).seat? t = σ.seat? t := by
  cases j with
  | cell i => rfl
  | apart x =>
    rcases t with (y | y) | e
    · rfl
    · obtain ⟨s, hs, -⟩ := hj
      by_cases hy : y = x
      · simp [seat?, bindIn, keep, putOwned, hy, hs]
      · simp [seat?, bindIn, keep, putOwned, Std.ExtTreeMap.getElem?_insert, Ne.symm hy]
    · rfl

/-- A target is read where its scope is kept. -/
theorem run_read {t : Target} (hk : σ.seat? t = some k) (query : Query) (name : String) :
    (Action.read t query name).run σ = (σ, query.answer (σ.lookupAt k name)) := by
  rcases t with (x | x) | e
  · obtain ⟨i, hi, rfl⟩ := Option.map_eq_some_iff.mp hk
    simp only [Action.run, withLookup, withHandle, hi, lookupAt]
  · obtain ⟨s, hs, rfl⟩ := Option.map_eq_some_iff.mp hk
    simp only [Action.run, withLookup, withOwned, hs, lookupAt, scopeIn, Option.getD_some]
  · obtain ⟨env, he, rfl⟩ := Option.map_eq_some_iff.mp hk
    simp only [Action.run, withLookup, withEnvironment, he, lookupAt, Environment.lookup]

/-- A target is written there as well. Only a write to the root through an
environment does one thing more: it is reported. -/
theorem run_write {t : Target} (hk : σ.seat? t = some k) (hmode : mode ≠ .global) (name : String)
    (v : Value) : (Action.write t mode name v).run σ = (σ.writeAt mode k name v, .done) := by
  rcases t with (x | x) | e
  · obtain ⟨i, hi, rfl⟩ := Option.map_eq_some_iff.mp hk
    simp only [Action.run, write, withHandle, hi]
    rfl
  · obtain ⟨s, hs, rfl⟩ := Option.map_eq_some_iff.mp hk
    simp only [Action.run, write, withOwned, hs, writeAt, scopeIn, Option.getD_some]
    rfl
  · obtain ⟨env, he, rfl⟩ := Option.map_eq_some_iff.mp hk
    simp only [Action.run, write, withEnvironment, he, Environment.write, if_neg hmode]
    rfl

end Session

end ScopeChain

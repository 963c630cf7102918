/-
ScopeChain.Proofs.Acyclicity — parent chains end, whatever is done.

While scopes are only added, a parent is older than its children, and
chains end because of that. Replacing a scope breaks the order: all that
lies inside the cell hangs on a new parent at once, which may be younger
than anything in the chain. What keeps chains finite is the one condition
that scopes are replaced under, that the cell does not enclose the new
content. A path through the cell then keeps its inner part and goes on
along the new parent, which never leads back (`Acyclic.replace`).

`Session.Formed` is the invariant: the heap is acyclic, and every handle
held is that of a cell. Every action keeps it, `store` among them
(`Session.Formed.run`), and so does every sequence of moves. From there on
climbing is a recursion along a well-founded relation, and each walk that
a heap offers unfolds by one parent at a time (`Heap.Unfolds`), without
the bound that its definition carries.
-/
import Mathlib.Logic.ExistsUnique
import ScopeChain.Proofs.Effect
import ScopeChain.Scope.Teardown

namespace ScopeChain

namespace Heap

variable {heap later : Heap} {start : Option Handle} {path : List Handle} {i : Handle}

/-! ## 1. Climbing as a recursion -/

/-- The scope at `p` is the parent of the one at `i`. -/
def IsParent (heap : Heap) (p i : Handle) : Prop :=
  i.index < heap.size ∧ (heap.scope i).parent = some p

theorem IsPath.acc (h : heap.IsPath start path) : ∀ i ∈ start, Acc heap.IsParent i := by
  induction h with
  | done => intro i hi; cases hi
  | up _ _ ih =>
    intro i hi
    cases hi
    exact .intro _ fun p hp => ih p hp.2

/-- Parents can be followed without end from no cell. -/
theorem Acyclic.wellFounded_isParent (h : heap.Acyclic) : WellFounded heap.IsParent := by
  refine ⟨fun i => ?_⟩
  by_cases hi : i.index < heap.size
  · exact (h.isPath_chain hi).acc i rfl
  · exact .intro _ fun p hp => absurd hp.1 hi

/-- A scope without a parent can only be the last that is met. -/
theorem IsPath.getLast?_of_parent_none (h : heap.IsPath start path) {k : Handle} (hk : k ∈ path)
    (hp : (heap.scope k).parent = none) : path.getLast? = some k := by
  obtain ⟨l, hl, inner, rfl⟩ := h.of_mem hk
  have hsingle : l = [k] := by
    refine hl.unique (.up (h.lt_size k hk) ?_)
    rw [hp]
    exact .done
  simp [hsingle]

theorem IsPath.existsUnique_root (h : heap.IsPath (some i) path) :
    ∃! r, r ∈ path ∧ (heap.scope r).parent = none := by
  have hlast := h.root_eq
  have hroot := h.find?_isRoot
  rw [hlast] at hroot
  have hnone : (heap.scope (heap.root i)).parent = none :=
    Option.isNone_iff_eq_none.mp (List.find?_some (p := fun k => (heap.scope k).isRoot) hroot)
  refine ⟨heap.root i, ⟨List.mem_of_getLast? hlast, hnone⟩, fun k ⟨hk, hp⟩ => ?_⟩
  have hk' := h.getLast?_of_parent_none hk hp
  rw [hlast] at hk'
  exact (Option.some.inj hk').symm

theorem path_none (heap : Heap) : heap.path none = [] := IsPath.done.path_eq

/-- Resolving a name from a parent, if there is one, is looking it up there. -/
theorem resolve?_eq_bind (heap : Heap) (start : Option Handle) (name : String) :
    heap.resolve? start name = start.bind fun p => heap.lookup p name := by
  cases start with
  | none => simp [resolve?_eq_findSome?, path_none]
  | some p => rfl

/-- How each walk from the scope at `i` goes on at its parent. -/
structure Unfolds (heap : Heap) (i : Handle) : Prop where
  root_eq : heap.root i = (heap.scope i).parent.elim i heap.root
  depth_eq : heap.depth i = (heap.scope i).parent.elim 1 fun p => heap.depth p + 1
  lookup_eq : ∀ name, heap.lookup i name =
    ((heap.scope i).find? name).or ((heap.scope i).parent.bind fun p => heap.lookup p name)
  assign_eq : ∀ name v, heap.write .assign i name v =
    if (heap.scope i).binds name then heap.bindAt i name v
    else (heap.scope i).parent.elim (heap.bindAt i name v) fun p => heap.write .assign p name v
  global_eq : ∀ name v, heap.write .global i name v =
    (heap.scope i).parent.elim (heap.bindAt i name v) fun p => heap.write .global p name v

theorem Acyclic.root_of_parent_none (h : heap.Acyclic) (hi : i.index < heap.size)
    (hp : (heap.scope i).parent = none) : heap.root i = i := by
  have hlast := h.getLast?_chain hi
  rw [h.chain_of_root hi hp] at hlast
  exact (Option.some.inj hlast).symm

/-- Which scope binds a name, found one parent at a time. -/
theorem Acyclic.binder?_eq (h : heap.Acyclic) (hi : i.index < heap.size) (name : String) :
    heap.binder? (some i) name =
      if (heap.scope i).binds name then some i else heap.binder? (heap.scope i).parent name := by
  have hchain : heap.path (some i) = i :: heap.path (heap.scope i).parent := h.chain_eq hi
  rw [binder?, binder?, firstUp?_eq_find?, firstUp?_eq_find?, hchain, List.find?_cons]
  cases (heap.scope i).binds name <;> rfl

theorem Acyclic.unfolds (h : heap.Acyclic) (hi : i.index < heap.size) : heap.Unfolds i := by
  have hbinder := h.binder?_eq hi
  cases hp : (heap.scope i).parent with
  | none =>
    have hroot := h.root_of_parent_none hi hp
    refine ⟨?_, ?_, fun name => ?_, fun name v => ?_, fun name v => ?_⟩
    · simp [hp, hroot]
    · simp [hp, depth_eq_length_chain, h.chain_of_root hi hp]
    · simp [hp, lookup_eq_findSome?, h.chain_of_root hi hp]
    · have hnone : heap.binder? none name = none := by
        simp [binder?, firstUp?_eq_find?, path_none]
      simp only [Heap.write, target, hbinder, hp, hnone, hroot]
      cases (heap.scope i).binds name <;> rfl
    · simp [hp, Heap.write, target, hroot]
  | some p =>
    have hroot := h.root_of_parent hi hp
    refine ⟨?_, ?_, fun name => ?_, fun name v => ?_, fun name v => ?_⟩
    · simp [hp, hroot]
    · simp [hp, h.depth_of_parent hi hp]
    · rw [lookup_eq_findSome?, h.chain_of_parent hi hp, List.findSome?_cons, hp, Option.bind_some,
        lookup_eq_findSome?]
      cases (heap.scope i).find? name <;> rfl
    · simp only [Heap.write, target, hbinder, hp, hroot]
      cases (heap.scope i).binds name <;> rfl
    · simp [hp, Heap.write, target, hroot]

/-! ## 2. Replacing a scope -/

theorem scope_replace (heap : Heap) (i : Handle) (s : Scope) (k : Handle) :
    Heap.scope (Store.write heap i s) k =
      if k = i ∧ k.index < heap.size then s else heap.scope k := by
  unfold scope
  rw [Store.read?_write]
  split <;> rfl

theorem scope_replace_of_ne {k : Handle} (hk : k ≠ i) (s : Scope) :
    Heap.scope (Store.write heap i s) k = heap.scope k := by
  rw [scope_replace, if_neg fun h => hk h.1]

theorem replace?_eq_some_iff {s : Scope} :
    heap.replace? i s = some later ↔ i ∉ heap.path s.parent ∧ later = Store.write heap i s := by
  unfold replace? encloses
  by_cases h : i ∈ heap.path s.parent <;> simp [h, eq_comm]

theorem replace?_eq_none_iff {s : Scope} : heap.replace? i s = none ↔ i ∈ heap.path s.parent := by
  unfold replace? encloses
  by_cases h : i ∈ heap.path s.parent <;> simp [h]

/-- A path that does not meet the cell stays. -/
theorem IsPath.replace_off (h : heap.IsPath start path) (hi : i ∉ path) (s : Scope) :
    Heap.IsPath (Store.write heap i s) start path := by
  induction h with
  | done => exact .done
  | @up k rest hk _ ih =>
    rw [List.mem_cons, not_or] at hi
    obtain ⟨hne, hrest⟩ := hi
    refine .up (by simpa using hk) ?_
    rw [scope_replace_of_ne (Ne.symm hne)]
    exact ih hrest

/-- A path through the cell keeps what comes before it, and then goes where the
new scope goes. -/
theorem IsPath.replace_through {inner outer rest : List Handle} {s : Scope}
    (h : heap.IsPath start (inner ++ i :: outer)) (hs : heap.IsPath s.parent rest)
    (hi : i ∉ rest) : Heap.IsPath (Store.write heap i s) start (inner ++ i :: rest) := by
  induction inner generalizing start with
  | nil =>
    cases h with
    | up hlt _ =>
      refine .up (by simpa using hlt) ?_
      rw [scope_replace, if_pos ⟨rfl, hlt⟩]
      exact hs.replace_off hi s
  | cons k inner ih =>
    have hne : k ≠ i := by
      rintro rfl
      simpa using h.nodup
    cases h with
    | up hlt hrest =>
      refine .up (by simpa using hlt) ?_
      rw [scope_replace_of_ne hne]
      exact ih hrest

/-- **Replacing closes no cycle**, provided the cell does not enclose the new
scope. -/
theorem Acyclic.replace (h : heap.Acyclic) {s : Scope} (hs : ∀ p ∈ s.parent, p.index < heap.size)
    (hi : i ∉ heap.path s.parent) : Heap.Acyclic (Store.write heap i s) := by
  intro k hk
  have hpath := h.isPath_chain (i := k) (by simpa using hk)
  by_cases hmem : i ∈ heap.chain k
  · obtain ⟨inner, outer, hsplit⟩ := List.append_of_mem hmem
    rw [hsplit] at hpath
    exact ⟨_, hpath.replace_through (h.isPath_path hs) hi⟩
  · exact ⟨_, hpath.replace_off hmem s⟩

end Heap

namespace Scope

/-- How each walk from an owned scope goes on at its parent. -/
structure Unfolds (s : Scope) (heap : Heap) : Prop where
  lookup_eq : ∀ name, s.lookup heap name =
    (s.find? name).or (s.parent.bind fun p => heap.lookup p name)
  assign_eq : ∀ name v, s.write heap .assign name v =
    if s.binds name then (s.bind name v, heap)
    else s.parent.elim (s.bind name v, heap) fun p => (s, heap.write .assign p name v)
  global_eq : ∀ name v, s.write heap .global name v =
    s.parent.elim (s.bind name v, heap) fun p => (s, heap.write .global p name v)

theorem unfolds (s : Scope) (heap : Heap) : s.Unfolds heap := by
  refine ⟨fun name => ?_, fun name v => ?_, fun name v => ?_⟩
  · rw [lookup, heap.resolve?_eq_bind]
    cases s.find? name <;> rfl
  · unfold write target?
    cases s.binds name with
    | true => rfl
    | false => cases s.parent <;> rfl
  · unfold write target?
    cases s.parent <;> rfl

end Scope

/-! ## 3. Sessions -/

namespace Environment

variable {e : Environment} {heap : Heap} {i k : Handle}

theorem mem_held_ofScope {policy : Policy} (h : k ∈ (ofScope heap i policy).held) :
    k = i ∨ k = heap.root i := by
  simpa [held, frames, ofScope] using h

theorem mem_held_frame {captured : Handle} (h : k ∈ (e.frame heap captured i).held) :
    k = i ∨ k = heap.root captured := by
  simpa [held, frames, frame] using h

theorem mem_held_opened (h : k ∈ (e.opened i).held) : k = i ∨ k ∈ e.held := by
  rw [mem_held] at h ⊢
  rcases h with h | h
  · rcases List.mem_cons.mp h with h | h
    · exact .inl h
    · exact .inr (.inl h)
  · exact .inr (.inr h)

theorem mem_held_closed (h : k ∈ e.closed.held) : k ∈ e.held := by
  obtain ⟨base, blocks, global, baseDepth, policy⟩ := e
  cases blocks with
  | nil => exact h
  | cons j rest =>
    rw [mem_held] at h ⊢
    exact h.imp_left (List.mem_cons_of_mem j)

end Environment

namespace Session

variable {σ : Session}

/-- The heap is acyclic, and all handles that the tables hold are handles of
cells. -/
structure Formed (σ : Session) : Prop where
  acyclic : σ.heap.Acyclic
  handle_lt : ∀ {x : String} {i : Handle}, σ.handles[x]? = some i → i.index < σ.heap.size
  parent_lt : ∀ {x : String} {s : Scope}, σ.owned[x]? = some s →
    ∀ i ∈ s.parent, i.index < σ.heap.size
  held_lt : ∀ {x : String} {e : Environment}, σ.environments[x]? = some e →
    ∀ i ∈ e.held, i.index < σ.heap.size

theorem formed_empty : Session.empty.Formed where
  acyclic := Heap.acyclic_empty
  handle_lt h := by simp [Session.empty] at h
  parent_lt h := by simp [Session.empty] at h
  held_lt h := by simp [Session.empty] at h

theorem Formed.marked (h : σ.Formed) : σ.marked.Formed :=
  ⟨h.acyclic, h.handle_lt, h.parent_lt, h.held_lt⟩

theorem Formed.offers_lt (h : σ.Formed) {i : Handle} (hi : σ.Offers i) :
    i.index < σ.heap.size := by
  cases hi with
  | bound hx => exact h.handle_lt hx
  | root hx => exact h.acyclic.root_lt (h.handle_lt hx)
  | @parent p s _ hs hp =>
    cases p with
    | shared x =>
      obtain ⟨k, hk, rfl⟩ := Option.map_eq_some_iff.mp hs
      exact h.acyclic.parent_lt (h.handle_lt hk) hp
    | owned x => exact h.parent_lt hs i hp
  | held hx hk => exact h.held_lt hx i hk

theorem Formed.deed_lt (h : σ.Formed) (a : Action) :
    ∀ d ∈ a.deed? σ, ∀ i ∈ d.uses, i.index < σ.heap.size :=
  fun _ hd i hi => h.offers_lt (Action.deed?_uses hd i hi)

/-- The environments that an action makes hold handles of cells, those of a
scope that it plants among them. -/
theorem Formed.makes_lt (h : σ.Formed) {a : Action} {x : String} {e : Environment}
    (hmakes : a.Makes σ x (some e)) (hac : (σ.heap.perform (a.deed? σ)).Acyclic) :
    ∀ k ∈ e.held, k.index < (σ.heap.perform (a.deed? σ)).size := by
  intro k hk
  have hg : Heap.Grows σ.heap (σ.heap.perform (a.deed? σ)) := σ.heap.grows_perform _
  cases hmakes with
  | created limits =>
    have hnew := Heap.new_lt_size_add σ.heap Scope.empty
    rcases Environment.mem_held_ofScope hk with rfl | rfl
    · exact hnew
    · exact hac.root_lt hnew
  | placed limits hi =>
    rcases Environment.mem_held_ofScope hk with rfl | rfl
    · exact hg.lt_size (h.handle_lt hi)
    · exact hg.lt_size (h.acyclic.root_lt (h.handle_lt hi))
  | @called _ env he =>
    have hglobal := h.held_lt he _ (Environment.mem_held.mpr (.inr rfl))
    rcases Environment.mem_held_ofScope hk with rfl | rfl
    · exact hg.lt_size hglobal
    · exact hg.lt_size (h.acyclic.root_lt hglobal)
  | entered he hi hp =>
    rcases Environment.mem_held_frame hk with rfl | rfl
    · rw [Action.deed?_enterClosure he hi hp]
      exact Heap.new_lt_size_add σ.heap _
    · exact hg.lt_size (h.acyclic.root_lt (h.handle_lt hi))
  | opened he hp =>
    rcases Environment.mem_held_opened hk with rfl | hk
    · rw [Action.deed?_openBlock he hp]
      exact Heap.new_lt_size_add σ.heap _
    · exact hg.lt_size (h.held_lt he k hk)
  | closed he name => exact hg.lt_size (h.held_lt he k (Environment.mem_held_closed hk))

theorem Formed.run_keeping (h : σ.Formed) {a : Action} (ha : a.keepsContents σ) :
    (a.run σ).1.Formed := by
  have hheap := Action.run_heap ha
  have hg : Heap.Grows σ.heap (a.run σ).1.heap := hheap ▸ σ.heap.grows_perform _
  have hac : (σ.heap.perform (a.deed? σ)).Acyclic := h.acyclic.perform (h.deed_lt a)
  refine ⟨hheap ▸ hac, fun {x i} hx => ?_, fun {x s} hx => ?_, fun {x e} hx => ?_⟩
  · rw [Action.run_handles ha] at hx
    rcases Table.getElem?_rebind_cases hx with hx | hx
    · exact hg.lt_size (h.handle_lt hx)
    · rcases Action.handle?_cases hx with hi | ⟨rfl, bindings, parent, hs⟩
      · exact hg.lt_size (h.offers_lt hi)
      · rw [hheap, hs]
        exact Heap.new_lt_size_add σ.heap ⟨bindings, parent⟩
  · rw [Action.run_owned ha] at hx
    rcases Table.getElem?_rebind_cases hx with hx | hx
    · exact fun i hi => hg.lt_size (h.parent_lt hx i hi)
    · exact fun i hi => hg.lt_size (h.offers_lt (Action.owned?_parent hx i hi))
  · rw [Action.run_environments] at hx
    rcases Table.getElem?_rebind_cases hx with hx | hx
    · exact fun k hk => hg.lt_size (h.held_lt hx k hk)
    · rw [hheap]
      exact h.makes_lt (Action.environment?_makes hx) hac

/-- What a `store` does that is not refused: the cell has the owned scope for
its content, and an empty root stays behind under the scope's name. -/
theorem store_accepted {s h : String} (hs : ¬ (Action.store s h).keepsContents σ) :
    ∃ scope i, σ.owned[s]? = some scope ∧ σ.handles[h]? = some i ∧
      i ∉ σ.heap.path scope.parent ∧
      ((Action.store s h).run σ).1 =
        { σ with
          arena := { σ.arena with heap := Store.write σ.heap i scope }
          owned := σ.owned.insert s Scope.empty } := by
  rw [Action.keepsContents, Option.isNone_iff_eq_none, ← ne_eq, Option.ne_none_iff_exists'] at hs
  obtain ⟨later, hlater⟩ := hs
  obtain ⟨scope, howned, hlater⟩ := Option.bind_eq_some_iff.mp hlater
  obtain ⟨i, hhandle, hlater⟩ := Option.bind_eq_some_iff.mp hlater
  obtain ⟨hi, rfl⟩ := Heap.replace?_eq_some_iff.mp hlater
  refine ⟨scope, i, howned, hhandle, hi, ?_⟩
  simp only [Action.run, store, withOwned, withHandle, howned, hhandle, hlater]
  rfl

/-- **The step lemma**: every action keeps a session formed. -/
theorem Formed.run (h : σ.Formed) (a : Action) : (a.run σ).1.Formed := by
  by_cases ha : a.keepsContents σ
  · exact h.run_keeping ha
  · cases a with
    | store s y =>
      obtain ⟨scope, i, howned, hhandle, hi, hrun⟩ := store_accepted ha
      rw [hrun]
      have hparent := h.parent_lt howned
      have hsize : (Store.write σ.heap i scope).size = σ.heap.size := Store.size_write _ _ _
      refine ⟨h.acyclic.replace hparent hi, fun {x k} hx => ?_, fun {x t} hx => ?_,
        fun {x e} hx => ?_⟩
      · exact hsize ▸ h.handle_lt hx
      · rw [Std.ExtTreeMap.getElem?_insert] at hx
        split at hx
        · cases hx
          intro k hk
          cases hk
        · exact fun k hk => hsize ▸ h.parent_lt hx k hk
      · exact fun k hk => hsize ▸ h.held_lt hx k hk
    | _ => exact absurd rfl ha

/-- **The run lemma.** -/
theorem Formed.after (h : σ.Formed) (ms : List Move) : (σ.after ms).Formed :=
  after_induction (p := fun _ _ => true) (fun _ a _ h => h.run a) (fun _ h => h.marked)
    (allActs_of_only (p := fun _ => true) (fun m _ => by cases m <;> rfl) σ) h

end Session

/-! ## 4. Cells in use

A cell is in use if a holder reaches it, that is, if the books of the heap
(`HeldHeap.ofHolders`) still have it. -/

theorem HeldHeap.live?_ofHolders_isSome {heap : Heap} {held : List Handle} {k : Handle}
    (hk : k.index < heap.size) :
    ((HeldHeap.ofHolders heap held).live? k).isSome ↔ ∃ i ∈ held, k ∈ heap.chain i := by
  obtain ⟨n⟩ := k
  have hcell : heap.cells[n]? = some heap.cells[n] := Array.getElem?_eq_getElem hk
  rw [← List.mem_flatMap]
  by_cases h : ⟨n⟩ ∈ held.flatMap heap.chain
  · simp only [live?, ofHolders, Store.read?, Array.getElem?_mapIdx, hcell, Option.map_some,
      List.contains_iff_mem, if_pos h]
    simp [h]
  · simp only [live?, ofHolders, Store.read?, Array.getElem?_mapIdx, hcell, Option.map_some,
      List.contains_iff_mem, if_neg h]
    simp [h]

/-- The number of cells that the books still have. -/
def HeldHeap.liveCount (heap : HeldHeap) : Nat :=
  ((List.range heap.size).filter fun n => (heap.live? ⟨n⟩).isSome).length

/-- The books of a session. -/
def Session.books (σ : Session) : HeldHeap := HeldHeap.ofHolders σ.heap σ.held

theorem Table.values_eq {α : Type} (t : Table α) : t.values = t.toList.map Prod.snd := by
  obtain ⟨⟨m⟩⟩ := t
  induction m using Quotient.ind with
  | _ m =>
    show m.inner.values = (Std.DTreeMap.Internal.Impl.Const.toList m.inner).map Prod.snd
    rw [Std.DTreeMap.Internal.Impl.values_eq_map_snd,
      Std.DTreeMap.Internal.Impl.Const.toList_eq_toListModel_map]
    simp

theorem Table.mem_values_iff {α : Type} {t : Table α} {a : α} :
    a ∈ t.values ↔ ∃ x : String, t[x]? = some a := by
  rw [values_eq, List.mem_map]
  constructor
  · rintro ⟨⟨x, b⟩, hx, rfl⟩
    exact ⟨x, Std.ExtTreeMap.mem_toList_iff_getElem?_eq_some.mp hx⟩
  · rintro ⟨x, hx⟩
    exact ⟨(x, a), Std.ExtTreeMap.mem_toList_iff_getElem?_eq_some.mpr hx, rfl⟩

namespace Session

variable {σ : Session}

theorem mem_held_iff {i : Handle} : i ∈ σ.held ↔
    (∃ x : String, σ.handles[x]? = some i) ∨
    (∃ (x : String) (s : Scope), σ.owned[x]? = some s ∧ s.parent = some i) ∨
    ∃ (x : String) (e : Environment), σ.environments[x]? = some e ∧ i ∈ e.held := by
  simp only [held, List.mem_append, List.mem_filterMap, List.mem_flatMap, Table.mem_values_iff,
    or_assoc]
  constructor
  · rintro (h | ⟨s, ⟨x, hx⟩, hs⟩ | ⟨e, ⟨x, hx⟩, he⟩)
    · exact .inl h
    · exact .inr (.inl ⟨x, s, hx, hs⟩)
    · exact .inr (.inr ⟨x, e, hx, he⟩)
  · rintro (h | ⟨x, s, hx, hs⟩ | ⟨x, e, hx, he⟩)
    · exact .inl h
    · exact .inr (.inl ⟨s, ⟨x, hx⟩, hs⟩)
    · exact .inr (.inr ⟨e, ⟨x, hx⟩, he⟩)

theorem Formed.lt_of_mem_held (h : σ.Formed) {i : Handle} (hi : i ∈ σ.held) :
    i.index < σ.heap.size := by
  rcases mem_held_iff.mp hi with ⟨x, hx⟩ | ⟨x, s, hx, hs⟩ | ⟨x, e, hx, he⟩
  · exact h.handle_lt hx
  · exact h.parent_lt hx i hs
  · exact h.held_lt hx i he

/-- What a cell in use can be climbed to is in use. -/
theorem Formed.live_of_mem (h : σ.Formed) {i k : Handle} {path : List Handle}
    (hpath : σ.heap.IsPath (some i) path) (hi : (σ.books.live? i).isSome) (hk : k ∈ path) :
    (σ.books.live? k).isSome := by
  have hlt : i.index < σ.heap.size := by
    cases hpath with
    | up hlt _ => exact hlt
  obtain ⟨j, hj, hij⟩ := (HeldHeap.live?_ofHolders_isSome hlt).mp hi
  obtain ⟨l, hl, hsuffix⟩ := (h.acyclic.isPath_chain (h.lt_of_mem_held hj)).of_mem hij
  rw [hl.unique hpath] at hsuffix
  exact (HeldHeap.live?_ofHolders_isSome (hpath.lt_size k hk)).mpr ⟨j, hj, hsuffix.subset hk⟩

theorem Formed.length_le_liveCount (h : σ.Formed) {start : Option Handle} {path : List Handle}
    (hpath : σ.heap.IsPath start path) (hstart : ∀ i ∈ start, (σ.books.live? i).isSome) :
    path.length ≤ σ.books.liveCount := by
  refine hpath.length_le_of_mem fun k hk => List.mem_filter.mpr ⟨List.mem_range.mpr ?_, ?_⟩
  · have hsize : σ.books.size = σ.heap.size := by simp [books, HeldHeap.ofHolders, Store.size]
    rw [hsize]
    exact hpath.lt_size k hk
  · cases start with
    | none => cases hpath; cases hk
    | some i => exact h.live_of_mem hpath (hstart i rfl) hk

end Session

/-- **Parent chains end.** Do anything, in any order: make, copy, wrap and
replace scopes, open and close, write, drop. Then in the session that
results:

* from every cell one climbs, meeting no cell twice, to exactly one scope
  without a parent, which is the root; the depth is the number of scopes
  met, and from a cell in use it is at most the number of cells in use;
* so too from an owned scope, unless it is a root itself;
* no cell can be climbed from without end, and each walk is a recursion
  that goes on at the parent: root, depth, lookup and the writes.

An owned scope replaces the one in a cell unless the cell encloses it. -/
theorem parent_chains_end (ms : List Move) :
    let σ := Session.empty.after ms
    (∀ i : Handle, i.index < σ.heap.size → ∃ path : List Handle,
      σ.heap.IsPath (some i) path ∧ path.Nodup ∧
      path.length ≤ σ.heap.size ∧
      ((σ.books.live? i).isSome → path.length ≤ σ.books.liveCount) ∧
      (∃! r, r ∈ path ∧ (σ.heap.scope r).parent = none) ∧
      σ.heap.root i ∈ path ∧ (σ.heap.scope (σ.heap.root i)).parent = none ∧
      σ.heap.depth i = path.length) ∧
    (∀ (x : String) (s : Scope), σ.owned[x]? = some s → ∃ path : List Handle,
      σ.heap.IsPath s.parent path ∧ path.Nodup ∧ path.length ≤ σ.books.liveCount ∧
      (s.parent ≠ none → ∃! r, r ∈ path ∧ (σ.heap.scope r).parent = none)) ∧
    WellFounded σ.heap.IsParent ∧
    (∀ i : Handle, i.index < σ.heap.size → σ.heap.Unfolds i) ∧
    (∀ (x : String) (s : Scope), σ.owned[x]? = some s → s.Unfolds σ.heap) ∧
    (∀ (x : String) (s : Scope), σ.owned[x]? = some s → ∀ i,
      σ.heap.replace? i s = none ↔ ∃ path, σ.heap.IsPath s.parent path ∧ i ∈ path) := by
  intro σ
  have hσ : σ.Formed := Session.formed_empty.after ms
  have hac := hσ.acyclic
  refine ⟨fun i hi => ?_, fun x s hs => ?_, hac.wellFounded_isParent, fun i hi => hac.unfolds hi,
    fun x s _ => s.unfolds σ.heap, fun x s hs i => ?_⟩
  · have hpath := hac.isPath_chain hi
    refine ⟨_, hpath, hpath.nodup, hpath.length_le, fun hlive => ?_, hpath.existsUnique_root,
      List.mem_of_getLast? (hac.getLast?_chain hi), hac.parent_root hi,
      σ.heap.depth_eq_length_chain i⟩
    exact hσ.length_le_liveCount hpath fun k hk => Option.mem_some.mp hk ▸ hlive
  · have hpath := hac.isPath_path (hσ.parent_lt hs)
    refine ⟨_, hpath, hpath.nodup, hσ.length_le_liveCount hpath fun p hp => ?_, fun hne => ?_⟩
    · have hlt := hσ.parent_lt hs p hp
      refine (HeldHeap.live?_ofHolders_isSome hlt).mpr
        ⟨p, Session.mem_held_iff.mpr (.inr (.inl ⟨x, s, hs, hp⟩)), ?_⟩
      rw [hac.chain_eq hlt]
      exact List.mem_cons_self
    · obtain ⟨p, hp⟩ := Option.ne_none_iff_exists'.mp hne
      rw [hp] at hpath ⊢
      exact hpath.existsUnique_root
  · have hpath := hac.isPath_path (hσ.parent_lt hs)
    rw [Heap.replace?_eq_none_iff]
    exact ⟨fun hi => ⟨_, hpath, hi⟩, fun ⟨path, h, hi⟩ => hpath.unique h ▸ hi⟩

end ScopeChain

/-
ScopeChain.Proofs.Holders — the books of a held heap.

A cell of a held heap carries a count. `HeldHeap.Kept` says that the books
are kept: the count of each cell is the number of its holders, those
outside the heap and the scopes whose parent it is; nobody holds a cell
that is gone; and parents end. Nothing in it says which cells should be in
use. That follows: a cell whose count is not zero has a holder, and from
holder to holder one comes to one outside (`Kept.live_iff`), because going
inward along parent links ends as well.

The section on steps has what each of the three ways to change one cell
does to the books: a holder less, the last holder gone, and a new content.
The last section is where the books come from: those of a session are kept
(`Session.Formed.kept_books`).
-/
import Mathlib.Data.Finset.Card
import ScopeChain.Proofs.Acyclicity

namespace ScopeChain

namespace Heap

/-! ## 1. Inward links -/

/-- The cells whose parent is the one at `k`. -/
def children (heap : Heap) (k : Handle) : Finset Nat :=
  (Finset.range heap.size).filter fun n => (heap.scope ⟨n⟩).parent = some k

theorem mem_children {heap : Heap} {k : Handle} {n : Nat} :
    n ∈ heap.children k ↔ n < heap.size ∧ (heap.scope ⟨n⟩).parent = some k := by
  rw [children, Finset.mem_filter, Finset.mem_range]

/-- What is met on the way outward is where it starts, or has a child that is
met before it. -/
theorem IsPath.eq_or_child {heap : Heap} {start : Option Handle} {path : List Handle} {k : Handle}
    (h : heap.IsPath start path) (hk : k ∈ path) :
    start = some k ∨ ∃ i ∈ path, (heap.scope i).parent = some k := by
  induction h with
  | done => cases hk
  | @up i rest _ _ ih =>
    rcases List.mem_cons.mp hk with rfl | hk
    · exact .inl rfl
    · rcases ih hk with hp | ⟨j, hj, hp⟩
      · exact .inr ⟨i, List.mem_cons_self, hp⟩
      · exact .inr ⟨j, List.mem_cons_of_mem i hj, hp⟩

/-- The children of a cell are the one at `i`, if it is one, and the others. -/
theorem card_children {heap : Heap} {i : Handle} (hi : i.index < heap.size) (k : Handle) :
    (heap.children k).card =
      (heap.scope i).parent.toList.count k + ((heap.children k).erase i.index).card := by
  by_cases hp : (heap.scope i).parent = some k
  · have hmem : i.index ∈ heap.children k := mem_children.mpr ⟨hi, hp⟩
    rw [hp, Option.toList_some, List.count_singleton_self, ← Finset.card_erase_add_one hmem,
      Nat.add_comm]
  · have hout : i.index ∉ heap.children k := fun hmem => hp (mem_children.mp hmem).2
    have hcount : (heap.scope i).parent.toList.count k = 0 :=
      List.count_eq_zero.mpr fun hmem => hp (Option.mem_toList.mp hmem)
    rw [Finset.erase_eq_of_notMem hout, hcount, Nat.zero_add]

/-- A new scope in the cell at `i` counts for its parent, the old one no
longer does. -/
theorem card_children_write {heap : Heap} {i : Handle} (hi : i.index < heap.size) (s : Scope)
    (k : Handle) :
    (Heap.children (Store.write heap i s) k).card + (heap.scope i).parent.toList.count k =
      (heap.children k).card + s.parent.toList.count k := by
  have hothers : (Heap.children (Store.write heap i s) k).erase i.index =
      (heap.children k).erase i.index := by
    ext n
    rw [Finset.mem_erase, Finset.mem_erase, mem_children, mem_children, Store.size_write]
    refine and_congr_right fun hne => ?_
    have hk : (⟨n⟩ : Handle) ≠ i := fun h => hne (congrArg Handle.index h)
    rw [scope_replace_of_ne hk]
  have hnew : Heap.scope (Store.write heap i s) i = s := by
    rw [scope_replace, if_pos ⟨rfl, hi⟩]
  have hlt : i.index < Store.size (Store.write heap i s) := by rwa [Store.size_write]
  rw [card_children hlt, card_children hi, hothers, hnew]
  omega

end Heap

namespace HeldHeap

variable {heap later : HeldHeap} {held : List Handle} {i k : Handle} {c : Held}

/-! ## 2. Cells in use, and their scopes -/

theorem lt_size_of_live (h : heap.live? i = some c) : i.index < heap.size := by
  refine Nat.lt_of_not_le fun hle => ?_
  rw [live?, Store.read?_eq_none_iff.mpr hle] at h
  cases h

/-- Held heaps of one size with the same cells in use are the same. -/
theorem ext_live? (hsize : later.size = heap.size) (h : ∀ k, later.live? k = heap.live? k) :
    later = heap := by
  refine Store.ext_read? fun k => ?_
  have hk := h k
  unfold live? at hk
  cases hl : later.read? k with
  | none =>
    have hle := Store.read?_eq_none_iff.mp hl
    rw [hsize] at hle
    exact (Store.read?_eq_none_iff.mpr hle).symm
  | some l =>
    cases hr : heap.read? k with
    | none =>
      have hle := Store.read?_eq_none_iff.mp hr
      rw [← hsize] at hle
      rw [Store.read?_eq_none_iff.mpr hle] at hl
      cases hl
    | some r =>
      rw [hl, hr] at hk
      exact congrArg some hk

theorem live?_write (heap : HeldHeap) (i : Handle) (cell? : Option Held) (k : Handle) :
    live? (Store.write heap i cell?) k =
      if k = i ∧ k.index < heap.size then cell? else heap.live? k := by
  unfold live?
  rw [Store.read?_write]
  split <;> rfl

theorem live?_write_ne (heap : HeldHeap) (h : k ≠ i) (cell? : Option Held) :
    live? (Store.write heap i cell?) k = heap.live? k := by
  rw [live?_write, if_neg fun hk => h hk.1]

theorem live?_write_self (h : heap.live? i = some c) (cell? : Option Held) :
    live? (Store.write heap i cell?) i = cell? := by
  rw [live?_write, if_pos ⟨rfl, lt_size_of_live h⟩]

/-- The scopes of a held heap, an empty root where a cell is gone. -/
def scopes (heap : HeldHeap) : Heap :=
  ⟨heap.cells.map fun cell? => (cell?.map Held.scope).getD Scope.empty⟩

@[simp] theorem size_scopes (heap : HeldHeap) : heap.scopes.size = heap.size := by
  simp [scopes, Store.size]

theorem lt_size_scopes (h : heap.live? i = some c) : i.index < heap.scopes.size := by
  rw [size_scopes]
  exact lt_size_of_live h

theorem scope_scopes (heap : HeldHeap) (k : Handle) :
    heap.scopes.scope k = ((heap.live? k).map Held.scope).getD Scope.empty := by
  simp only [Heap.scope, scopes, live?, Store.read?, Array.getElem?_map]
  cases heap.cells[k.index]? with
  | none => rfl
  | some cell? => rfl

theorem scope_of_live (h : heap.live? k = some c) : heap.scopes.scope k = c.scope := by
  rw [scope_scopes, h]
  rfl

/-- What has a parent is a cell in use. -/
theorem live_of_parent {p : Handle} (h : (heap.scopes.scope k).parent = some p) :
    ∃ c, heap.live? k = some c ∧ c.scope.parent = some p := by
  rw [scope_scopes] at h
  cases hk : heap.live? k with
  | none =>
    rw [hk] at h
    cases h
  | some c =>
    rw [hk] at h
    exact ⟨c, rfl, h⟩

theorem scopes_write (heap : HeldHeap) (i : Handle) (cell? : Option Held) :
    scopes (Store.write heap i cell?) =
      Store.write heap.scopes i ((cell?.map Held.scope).getD Scope.empty) := by
  simp [scopes, Store.write, Array.map_setIfInBounds]

/-- A cell that gets the scope it has leaves the scopes as they are. -/
theorem scopes_write_same (h : heap.live? i = some c) (holders : Nat) :
    scopes (Store.write heap i (some ⟨c.scope, holders⟩)) = heap.scopes := by
  rw [scopes_write]
  refine Store.ext_read? fun k => ?_
  rw [Store.read?_write]
  split
  · next hk =>
    obtain ⟨rfl, hlt⟩ := hk
    have hscope := scope_of_live h
    obtain ⟨s, hs⟩ : ∃ s, heap.scopes.read? k = some s := ⟨_, Array.getElem?_eq_getElem hlt⟩
    rw [Heap.scope, hs] at hscope
    rw [hs]
    exact congrArg some hscope.symm
  · rfl

/-! ## 3. Books that are kept -/

/-- The books of a heap are kept: `held` are the handles that are held outside,
one for each holder, and each cell counts its holders. -/
structure Kept (heap : HeldHeap) (held : List Handle) : Prop where
  acyclic : heap.scopes.Acyclic
  held_live : ∀ {i : Handle}, i ∈ held → (heap.live? i).isSome
  parent_live : ∀ {i p : Handle}, (heap.scopes.scope i).parent = some p → (heap.live? p).isSome
  holders_pos : ∀ {i : Handle} {c : Held}, heap.live? i = some c → 0 < c.holders
  holders_eq : ∀ {i : Handle} {c : Held}, heap.live? i = some c →
    c.holders = held.count i + (heap.scopes.children i).card

/-- A holder outside leads to the cell, at once or by parent links. -/
def Reached (heap : HeldHeap) (held : List Handle) (k : Handle) : Prop :=
  ∃ i ∈ held, ∃ path, heap.scopes.IsPath (some i) path ∧ k ∈ path

/-- Holders can be listed in any order. -/
theorem Kept.perm {others : List Handle} (h : heap.Kept held) (hperm : held.Perm others) :
    heap.Kept others where
  acyclic := h.acyclic
  held_live hi := h.held_live (hperm.mem_iff.mpr hi)
  parent_live := h.parent_live
  holders_pos := h.holders_pos
  holders_eq hi := by rw [h.holders_eq hi, hperm.count_eq]

namespace Kept

/-- From a cell in use one climbs through cells in use, in every heap that has
their scopes. -/
theorem live_of_mem (h : heap.Kept held) {plain : Heap}
    (hscope : ∀ {k : Handle} {c : Held}, heap.live? k = some c → plain.scope k = c.scope)
    {start : Option Handle} {path : List Handle} (hpath : plain.IsPath start path)
    (hstart : ∀ i ∈ start, (heap.live? i).isSome) : ∀ k ∈ path, (heap.live? k).isSome := by
  induction hpath with
  | done => simp
  | @up i rest _ _ ih =>
    obtain ⟨c, hc⟩ := Option.isSome_iff_exists.mp (hstart i rfl)
    rw [hscope hc, ← scope_of_live hc] at ih
    intro k hk
    rcases List.mem_cons.mp hk with rfl | hk
    · exact hstart k rfl
    · exact ih (fun p hp => h.parent_live hp) k hk

/-- Going inward from a cell in use one comes to a holder outside. -/
theorem reached_of_live (h : heap.Kept held) (hk : (heap.live? k).isSome) :
    heap.Reached held k := by
  -- each step inward makes the chain longer, and no chain is longer than the heap
  induction hn : heap.size - (heap.scopes.chain k).length using Nat.strongRecOn generalizing k with
  | ind n ih =>
    obtain ⟨c, hc⟩ := Option.isSome_iff_exists.mp hk
    have hlt := lt_size_scopes hc
    by_cases hmem : k ∈ held
    · refine ⟨k, hmem, _, h.acyclic.isPath_chain hlt, ?_⟩
      rw [h.acyclic.chain_eq hlt]
      exact List.mem_cons_self
    · have hpos := h.holders_pos hc
      rw [h.holders_eq hc, List.count_eq_zero.mpr hmem, Nat.zero_add] at hpos
      obtain ⟨m, hm⟩ := Finset.card_pos.mp hpos
      obtain ⟨hmlt, hparent⟩ := Heap.mem_children.mp hm
      have hchain := h.acyclic.chain_of_parent (i := ⟨m⟩) hmlt hparent
      have hle := (h.acyclic.isPath_chain (i := ⟨m⟩) hmlt).length_le
      rw [hchain, List.length_cons, size_scopes] at hle
      obtain ⟨c', hc', -⟩ := live_of_parent hparent
      have hlonger : heap.size - (heap.scopes.chain ⟨m⟩).length < n := by
        rw [hchain, List.length_cons]
        omega
      obtain ⟨i, hi, path, hpath, hmpath⟩ :=
        ih _ hlonger (Option.isSome_iff_exists.mpr ⟨c', hc'⟩) rfl
      refine ⟨i, hi, path, hpath, ?_⟩
      obtain ⟨l, hl, hsuffix⟩ := hpath.of_mem hmpath
      rw [hl.unique (h.acyclic.isPath_chain hmlt), hchain, h.acyclic.chain_eq hlt] at hsuffix
      exact hsuffix.subset (by simp)

/-- **The cells in use are those that a holder reaches.** -/
theorem live_iff (h : heap.Kept held) : (heap.live? k).isSome ↔ heap.Reached held k := by
  refine ⟨h.reached_of_live, fun ⟨i, hi, path, hpath, hk⟩ => ?_⟩
  refine h.live_of_mem scope_of_live hpath (fun j hj => ?_) k hk
  cases hj
  exact h.held_live hi

end Kept

/-! ## 4. What letting go does to the books -/

/-- The scope in the cell at `i` gives way to another. -/
def put (heap : HeldHeap) (i : Handle) (s : Scope) : HeldHeap :=
  heap.modify i (Option.map fun c => { c with scope := s })

section

variable (hi : heap.live? i = some c)
include hi

theorem modify_eq_write (f : Held → Held) :
    heap.modify i (Option.map f) = Store.write heap i (some (f c)) := by
  have hread : heap.read? i = some (some c) := Option.join_eq_some_iff.mp hi
  exact Store.modify_eq_write hread (Option.map f)

theorem isSome_live?_write (c' : Held) (k : Handle) :
    (live? (Store.write heap i (some c')) k).isSome ↔ (heap.live? k).isSome := by
  by_cases hk : k = i
  · rw [hk, live?_write_self hi, hi]
    simp
  · rw [live?_write_ne heap hk]

/-- What is to be checked when one cell changes: its own count, and that the
others count what they counted. -/
theorem Kept.write {others : List Handle} {cell? : Option Held} (h : heap.Kept held)
    (hacyclic : (scopes (Store.write heap i cell?)).Acyclic)
    (hheld : ∀ {k : Handle}, k ∈ others → (live? (Store.write heap i cell?) k).isSome)
    (hparent : ∀ {k p : Handle}, ((scopes (Store.write heap i cell?)).scope k).parent = some p →
      (live? (Store.write heap i cell?) p).isSome)
    (hself : ∀ c', cell? = some c' → 0 < c'.holders ∧
      c'.holders = others.count i + ((scopes (Store.write heap i cell?)).children i).card)
    (hcount : ∀ {k : Handle}, k ≠ i →
      others.count k + ((scopes (Store.write heap i cell?)).children k).card =
        held.count k + (heap.scopes.children k).card) :
    Kept (Store.write heap i cell?) others := by
  refine ⟨hacyclic, hheld, hparent, fun {k c'} hk => ?_, fun {k c'} hk => ?_⟩
  all_goals by_cases hki : k = i
  · rw [hki, live?_write_self hi] at hk
    exact (hself c' hk).1
  · rw [live?_write_ne heap hki] at hk
    exact h.holders_pos hk
  · rw [hki, live?_write_self hi] at hk
    rw [hki]
    exact (hself c' hk).2
  · rw [live?_write_ne heap hki] at hk
    rw [hcount hki]
    exact h.holders_eq hk

/-- One of several holders lets go. -/
theorem Kept.giveBack (h : heap.Kept (i :: held)) (hc : c.holders ≠ 1) :
    (heap.giveBack i).Kept held := by
  have hscopes := scopes_write_same hi (c.holders - 1)
  have hlive := isSome_live?_write hi ⟨c.scope, c.holders - 1⟩
  have hholders := h.holders_eq hi
  rw [List.count_cons_self] at hholders
  rw [HeldHeap.giveBack, modify_eq_write hi]
  refine h.write hi ?_ (fun hk => ?_) (fun hp => ?_) (fun c' hc' => ?_) (fun hki => ?_)
  · rw [hscopes]
    exact h.acyclic
  · exact (hlive _).mpr (h.held_live (List.mem_cons_of_mem i hk))
  · rw [hscopes] at hp
    exact (hlive _).mpr (h.parent_live hp)
  · cases hc'
    rw [hscopes]
    dsimp only
    omega
  · rw [hscopes, List.count_cons_of_ne (Ne.symm hki)]

/-- The last holder lets go: the cell is gone, and its parent has a holder
outside until that is let go too. -/
theorem Kept.destroy (h : heap.Kept (i :: held)) (hc : c.holders = 1) :
    (heap.destroy i).Kept (c.scope.parent.toList ++ held) := by
  have hholders := h.holders_eq hi
  rw [List.count_cons_self, hc] at hholders
  have hout : i ∉ held := List.count_eq_zero.mp (by omega)
  have hlt := lt_size_scopes hi
  have hscope := scope_of_live hi
  -- nobody has the cell for a parent
  have hnoChild : ∀ {k p : Handle}, (heap.scopes.scope k).parent = some p → p ≠ i := by
    rintro k p hp rfl
    obtain ⟨c', hc', -⟩ := live_of_parent hp
    have hmem : k.index ∈ heap.scopes.children p :=
      Heap.mem_children.mpr ⟨lt_size_scopes hc', hp⟩
    have hpos := Finset.card_pos.mpr ⟨_, hmem⟩
    omega
  have hstays : ∀ {k : Handle}, k ≠ i → (heap.live? k).isSome →
      (live? (Store.write heap i none) k).isSome := by
    intro k hk hlive
    rwa [live?_write_ne heap hk]
  have hscopes : scopes (Store.write heap i none) = Store.write heap.scopes i Scope.empty :=
    scopes_write heap i none
  refine h.write hi ?_ (fun {k} hk => ?_) (fun {k p} hp => ?_) (fun c' hc' => by cases hc')
    (fun {k} hki => ?_)
  · rw [hscopes]
    exact h.acyclic.replace (fun p hp => by cases hp) (by simp [Scope.empty, Heap.path_none])
  · rcases List.mem_append.mp hk with hk | hk
    · have hp : (heap.scopes.scope i).parent = some k := by
        rw [hscope]
        exact Option.mem_toList.mp hk
      exact hstays (hnoChild hp) (h.parent_live hp)
    · exact hstays (fun hki => hout (hki ▸ hk)) (h.held_live (List.mem_cons_of_mem i hk))
  · rw [hscopes, Heap.scope_replace] at hp
    split at hp
    · cases hp
    · exact hstays (hnoChild hp) (h.parent_live hp)
  · have hcard := Heap.card_children_write hlt Scope.empty k
    rw [hscope, ← hscopes] at hcard
    rw [List.count_append, List.count_cons_of_ne (Ne.symm hki)]
    simp only [Scope.empty, Option.toList_none, List.count_nil] at hcard
    omega

/-- The scope in a cell is replaced by one that was held outside, which it
does not enclose: now the parent of the old scope is held outside, until
that is dropped. -/
theorem Kept.put {s : Scope} (h : heap.Kept (s.parent.toList ++ held))
    (hs : i ∉ heap.scopes.path s.parent) :
    (heap.put i s).Kept (c.scope.parent.toList ++ held) := by
  have hlt := lt_size_scopes hi
  have hscope := scope_of_live hi
  have hscopes : scopes (Store.write heap i (some ⟨s, c.holders⟩)) =
      Store.write heap.scopes i s := scopes_write heap i (some ⟨s, c.holders⟩)
  have hlive := isSome_live?_write hi ⟨s, c.holders⟩
  have hcount : ∀ k, (c.scope.parent.toList ++ held).count k +
      ((scopes (Store.write heap i (some ⟨s, c.holders⟩))).children k).card =
        (s.parent.toList ++ held).count k + (heap.scopes.children k).card := by
    intro k
    have hcard := Heap.card_children_write hlt s k
    rw [hscope, ← hscopes] at hcard
    rw [List.count_append, List.count_append]
    omega
  rw [HeldHeap.put, modify_eq_write hi]
  refine h.write hi ?_ (fun {k} hk => ?_) (fun {k p} hp => ?_) (fun c' hc' => ?_)
    (fun {k} _ => hcount k)
  · rw [hscopes]
    refine h.acyclic.replace (fun p hp => ?_) hs
    obtain ⟨c', hc'⟩ := Option.isSome_iff_exists.mp
      (h.held_live (List.mem_append_left held (Option.mem_toList.mpr hp)))
    exact lt_size_scopes hc'
  · rw [hlive]
    rcases List.mem_append.mp hk with hk | hk
    · exact h.parent_live (i := i) (by rw [hscope]; exact Option.mem_toList.mp hk)
    · exact h.held_live (List.mem_append_right _ hk)
  · rw [hlive]
    rw [hscopes, Heap.scope_replace] at hp
    split at hp
    · exact h.held_live (List.mem_append_left held (Option.mem_toList.mpr hp))
    · exact h.parent_live hp
  · cases hc'
    have hpos := h.holders_pos hi
    have hholders := h.holders_eq hi
    rw [hcount]
    exact ⟨hpos, hholders⟩

end

/-! ## 5. The books of a session -/

section

variable {heap : Heap} {held : List Handle} {k : Handle}

@[simp] theorem size_ofHolders (heap : Heap) (held : List Handle) :
    (ofHolders heap held).size = heap.size := by
  simp [ofHolders, Store.size]

theorem live?_ofHolders (hk : k.index < heap.size) :
    (ofHolders heap held).live? k =
      if k ∈ held.flatMap heap.chain then some ⟨heap.scope k,
        held.count k + (childrenOf heap (held.flatMap heap.chain) k).length⟩
      else none := by
  obtain ⟨n⟩ := k
  have hcell : heap.cells[n]? = some heap.cells[n] := Array.getElem?_eq_getElem hk
  have hscope : heap.scope ⟨n⟩ = heap.cells[n] := by
    simp only [Heap.scope, Store.read?, hcell, Option.getD_some]
  simp only [live?, ofHolders, Store.read?, Array.getElem?_mapIdx, hcell, Option.map_some,
    List.contains_iff_mem, hscope]
  rfl

theorem scope_ofHolders (hk : k.index < heap.size) :
    (ofHolders heap held).scopes.scope k =
      if k ∈ held.flatMap heap.chain then heap.scope k else Scope.empty := by
  rw [scope_scopes, live?_ofHolders hk]
  split <;> rfl

theorem parent_ofHolders {p : Handle} (hk : k.index < heap.size) :
    ((ofHolders heap held).scopes.scope k).parent = some p ↔
      k ∈ held.flatMap heap.chain ∧ (heap.scope k).parent = some p := by
  rw [scope_ofHolders hk]
  split
  · next h => exact (and_iff_right h).symm
  · next h =>
    constructor
    · intro hp
      cases hp
    · exact fun hp => absurd hp.1 h

theorem card_children_ofHolders (heap : Heap) (held : List Handle) (k : Handle) :
    ((ofHolders heap held).scopes.children k).card =
      (childrenOf heap (held.flatMap heap.chain) k).length := by
  have hset : (ofHolders heap held).scopes.children k =
      (childrenOf heap (held.flatMap heap.chain) k).toFinset := by
    ext n
    rw [Heap.mem_children, size_scopes, size_ofHolders, List.mem_toFinset, childrenOf,
      List.mem_filter, List.mem_range, Bool.and_eq_true, List.contains_iff_mem, beq_iff_eq]
    exact and_congr_right fun hn => parent_ofHolders (k := ⟨n⟩) hn
  have hnodup : (childrenOf heap (held.flatMap heap.chain) k).Nodup := List.nodup_range.filter _
  rw [hset, List.toFinset_card_of_nodup hnodup]

/-- A path through cells in use is a path in the books. -/
theorem isPath_ofHolders {start : Option Handle} {path : List Handle}
    (h : heap.IsPath start path) (hmem : ∀ k ∈ path, k ∈ held.flatMap heap.chain) :
    (ofHolders heap held).scopes.IsPath start path := by
  induction h with
  | done => exact .done
  | @up i rest hi _ ih =>
    refine .up (by rwa [size_scopes, size_ofHolders]) ?_
    rw [scope_ofHolders hi, if_pos (hmem i List.mem_cons_self)]
    exact ih fun k hk => hmem k (List.mem_cons_of_mem i hk)

theorem mem_of_live_ofHolders (hc : (ofHolders heap held).live? k = some c) :
    k ∈ held.flatMap heap.chain ∧ c.scope = heap.scope k ∧
      c.holders = held.count k + ((ofHolders heap held).scopes.children k).card := by
  have hk := lt_size_of_live hc
  rw [size_ofHolders] at hk
  rw [live?_ofHolders hk] at hc
  rw [card_children_ofHolders]
  split at hc
  · next h =>
    cases hc
    exact ⟨h, rfl, rfl⟩
  · cases hc

/-- **The books of a heap are kept.** -/
theorem kept_ofHolders (hac : heap.Acyclic) (hheld : ∀ i ∈ held, i.index < heap.size) :
    (ofHolders heap held).Kept held := by
  have hreach : ∀ k : Handle, k ∈ held.flatMap heap.chain ↔ ∃ i ∈ held, k ∈ heap.chain i :=
    fun k => List.mem_flatMap
  have hlt : ∀ k ∈ held.flatMap heap.chain, k.index < heap.size := by
    intro k hk
    obtain ⟨i, hi, hk⟩ := (hreach k).mp hk
    exact (hac.isPath_chain (hheld i hi)).lt_size k hk
  have hlive : ∀ k ∈ held.flatMap heap.chain, ((ofHolders heap held).live? k).isSome := by
    intro k hk
    rw [live?_ofHolders (hlt k hk), if_pos hk]
    rfl
  refine ⟨fun i hi => ?_, fun {i} hi => hlive i ((hreach i).mpr ⟨i, hi, ?_⟩), fun {i p} hp => ?_,
    fun {i c} hc => ?_, fun hc => (mem_of_live_ofHolders hc).2.2⟩
  · -- a cell in use has the path it had, and one that is gone has none to climb
    rw [size_scopes, size_ofHolders] at hi
    by_cases hmem : i ∈ held.flatMap heap.chain
    · obtain ⟨j, hj, hij⟩ := (hreach i).mp hmem
      exact ⟨_, isPath_ofHolders (hac.isPath_chain hi) fun k hk =>
        (hreach k).mpr ⟨j, hj, (hac.chain_suffix (hheld j hj) hij).subset hk⟩⟩
    · refine ⟨[i], .up (by rwa [size_scopes, size_ofHolders]) ?_⟩
      rw [scope_ofHolders hi, if_neg hmem]
      exact .done
  · rw [hac.chain_eq (hheld i hi)]
    exact List.mem_cons_self
  · obtain ⟨c, hc, -⟩ := live_of_parent hp
    obtain ⟨hmem, -⟩ := mem_of_live_ofHolders hc
    obtain ⟨j, hj, hij⟩ := (hreach i).mp hmem
    rw [parent_ofHolders (hlt i hmem)] at hp
    exact hlive p ((hreach p).mpr ⟨j, hj, hac.parent_mem_chain (hheld j hj) hij hp.2⟩)
  · -- it is held itself, or it has a child on the way from a holder
    obtain ⟨hmem, -, hholders⟩ := mem_of_live_ofHolders hc
    obtain ⟨j, hj, hij⟩ := (hreach i).mp hmem
    rcases (hac.isPath_chain (hheld j hj)).eq_or_child hij with hstart | ⟨m, hm, hp⟩
    · cases hstart
      have hpos := List.count_pos_iff.mpr hj
      omega
    · have hmreach := (hreach m).mpr ⟨j, hj, hm⟩
      have hchild : m.index ∈ (ofHolders heap held).scopes.children i := by
        refine Heap.mem_children.mpr ⟨?_, (parent_ofHolders (hlt m hmreach)).mpr ⟨hmreach, hp⟩⟩
        rw [size_scopes, size_ofHolders]
        exact hlt m hmreach
      have hpos := Finset.card_pos.mpr ⟨_, hchild⟩
      omega

end

end HeldHeap

namespace Table

variable {α : Type}

theorem nodup_toList (t : Table α) : t.toList.Nodup :=
  Std.ExtTreeMap.distinct_keys_toList.imp fun {a b} hne heq => hne (by simp [heq])

/-- What a name stands for is one of the values, and the others are those that
are left without it. -/
theorem values_perm {t : Table α} {x : String} {a : α} (h : t[x]? = some a) :
    t.values.Perm (a :: (t.erase x).values) := by
  have hout : (x, a) ∉ (t.erase x).toList := fun hmem => by
    simpa using Std.ExtTreeMap.mem_toList_iff_getElem?_eq_some.mp hmem
  have hperm : t.toList.Perm ((x, a) :: (t.erase x).toList) := by
    refine (List.perm_ext_iff_of_nodup t.nodup_toList
      (List.nodup_cons.mpr ⟨hout, nodup_toList _⟩)).mpr fun ⟨y, b⟩ => ?_
    rw [List.mem_cons, Std.ExtTreeMap.mem_toList_iff_getElem?_eq_some,
      Std.ExtTreeMap.mem_toList_iff_getElem?_eq_some, Std.ExtTreeMap.getElem?_erase, Prod.mk.injEq]
    by_cases hxy : x = y
    · subst hxy
      simp [h, eq_comm]
    · simp [hxy, Ne.symm hxy]
  rw [values_eq, values_eq]
  exact hperm.map Prod.snd

theorem values_insert_perm (t : Table α) (x : String) (a : α) :
    (t.insert x a).values.Perm (a :: (t.erase x).values) := by
  have herase : (t.insert x a).erase x = t.erase x := by
    refine Std.ExtTreeMap.ext_getElem? fun {y} => ?_
    rw [Std.ExtTreeMap.getElem?_erase, Std.ExtTreeMap.getElem?_erase,
      Std.ExtTreeMap.getElem?_insert]
    split <;> rfl
  have h := values_perm (t := t.insert x a) (x := x) (a := a) (by simp)
  rwa [herase] at h

end Table

/-- The books of a session count what its tables hold. -/
theorem Session.Formed.kept_books {σ : Session} (h : σ.Formed) : σ.books.Kept σ.held :=
  HeldHeap.kept_ofHolders h.acyclic fun _ hi => h.lt_of_mem_held hi

end ScopeChain

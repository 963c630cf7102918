/-
ScopeChain.Proofs.Teardown — letting go frees what nobody reaches.

A scope that is dropped lets go of its parent. Were that all, dropping the
last handle of a chain would drop its scopes one inside the other
(`HeldHeap.Releases`). What is done instead is a loop (`HeldHeap.Unlinks`):
it takes the parent out of the scope, and as long as the handle it has is
the last of a cell, it takes the scope out of the cell, the parent out of
the scope, drops what is left, and goes on with that parent. Both are
given as relations, by what each of their steps does, and count how many
drops are under way at once.

The loop is an induction along the path outward. The books say when it
ends and what it leaves: as long as they are kept, counting what the loop
has in hand as a holder, every handle it takes is that of a cell in use
(`Kept.exists_unlinks`), and they are kept at the end without it
(`Unlinks.kept`). Since what is in use is what is reached
(`Kept.live_iff`), and scopes stay as they are, the cells that went are
those that are no longer reached.

What is left is determined by the holders that are left (`Frees.unique`).
So the books that a session has after it let go of something, made up from
its tables, are the ones that the teardown leaves (`Formed.books_letGoAll`).
-/
import ScopeChain.Proofs.Holders

namespace ScopeChain

namespace HeldHeap

/-! ## 1. Dropping -/

/-- The loop that lets go of a handle and goes on outward. Where the handle is
the last of a cell, the parent is taken out of the scope, and that is
dropped, by a loop of its own over what parent it has. `nesting` is how
many drops are under way at once inside the loop, `t` has the scopes that
it dropped. -/
inductive Unlinks : HeldHeap → Option Handle → (nesting : Nat) → (t : Teardown) → Prop
  | done {heap : HeldHeap} : Unlinks heap none 0 ⟨heap, []⟩
  | shared {heap : HeldHeap} {i : Handle} {c : Held} (hi : heap.live? i = some c)
    (hc : c.holders ≠ 1) : Unlinks heap (some i) 0 ⟨heap.giveBack i, []⟩
  | last {heap : HeldHeap} {i : Handle} {c : Held} {s : Scope} {inner nesting : Nat}
    {u t : Teardown} (hi : heap.live? i = some c) (hc : c.holders = 1)
    (hs : s = { c.scope with parent := none }) (hdrop : Unlinks (heap.destroy i) s.parent inner u)
    (hrest : Unlinks u.heap c.scope.parent nesting t) :
    Unlinks heap (some i) (max (inner + 1) nesting) ⟨t.heap, s :: (u.dropped ++ t.dropped)⟩

/-- A scope is dropped. -/
inductive Drops (heap : HeldHeap) (s : Scope) : (nesting : Nat) → (t : Teardown) → Prop
  | loop {nesting : Nat} {t : Teardown} (h : heap.Unlinks s.parent nesting t) :
    Drops heap s (nesting + 1) t

/-- A handle is dropped. The last one takes the cell with it, and its scope is
dropped as it is. -/
inductive LetsGo (heap : HeldHeap) (i : Handle) : (nesting : Nat) → (t : Teardown) → Prop
  | shared {c : Held} (hi : heap.live? i = some c) (hc : c.holders ≠ 1) :
    LetsGo heap i 0 ⟨heap.giveBack i, []⟩
  | last {c : Held} {nesting : Nat} {t : Teardown} (hi : heap.live? i = some c)
    (hc : c.holders = 1) (hdrop : (heap.destroy i).Drops c.scope nesting t) :
    LetsGo heap i nesting t

/-- Handles are dropped one after the other. -/
inductive LetsGoAll : HeldHeap → List Handle → (nesting : Nat) → (t : Teardown) → Prop
  | nil {heap : HeldHeap} : LetsGoAll heap [] 0 ⟨heap, []⟩
  | cons {heap : HeldHeap} {i : Handle} {rest : List Handle} {n m : Nat} {t u : Teardown}
    (hi : heap.LetsGo i n t) (hrest : LetsGoAll t.heap rest m u) :
    LetsGoAll heap (i :: rest) (max n m) ⟨u.heap, t.dropped ++ u.dropped⟩

/-- The drop without the loop: the scope in a cell lets go of its parent while
it is dropped. -/
inductive Releases : HeldHeap → Option Handle → (nesting : Nat) → (later : HeldHeap) → Prop
  | done {heap : HeldHeap} : Releases heap none 0 heap
  | shared {heap : HeldHeap} {i : Handle} {c : Held} (hi : heap.live? i = some c)
    (hc : c.holders ≠ 1) : Releases heap (some i) 0 (heap.giveBack i)
  | last {heap later : HeldHeap} {i : Handle} {c : Held} {nesting : Nat}
    (hi : heap.live? i = some c) (hc : c.holders = 1)
    (hparent : Releases (heap.giveBack i) c.scope.parent nesting later) :
    Releases heap (some i) (nesting + 1) (later.destroy i)

/-- Handles are dropped one after the other, without the loop. -/
inductive ReleasesAll : HeldHeap → List Handle → (later : HeldHeap) → Prop
  | nil {heap : HeldHeap} : ReleasesAll heap [] heap
  | cons {heap mid later : HeldHeap} {i : Handle} {rest : List Handle} {n : Nat}
    (hi : heap.Releases (some i) n mid) (hrest : ReleasesAll mid rest later) :
    ReleasesAll heap (i :: rest) later

variable {heap later : HeldHeap} {held : List Handle} {start : Option Handle} {path : List Handle}
  {i k : Handle} {c : Held} {nesting : Nat} {t : Teardown}

/-- A scope without a parent is dropped at once. -/
theorem unlinks_none (h : heap.Unlinks none nesting t) : nesting = 0 ∧ t = ⟨heap, []⟩ := by
  cases h
  exact ⟨rfl, rfl⟩

theorem Unlinks.step (hi : heap.live? i = some c) (hc : c.holders = 1)
    (hrest : (heap.destroy i).Unlinks c.scope.parent nesting t) :
    heap.Unlinks (some i) (max 1 nesting) ⟨t.heap, { c.scope with parent := none } :: t.dropped⟩ :=
  .last hi hc rfl .done hrest

/-- Induction on the loop, outward. The drops inside it are those of scopes
without a parent, which do nothing. -/
@[elab_as_elim]
theorem Unlinks.outward
    {motive : (heap : HeldHeap) → (start : Option Handle) → (nesting : Nat) → (t : Teardown) →
      heap.Unlinks start nesting t → Prop}
    (done : ∀ {heap : HeldHeap}, motive heap none 0 ⟨heap, []⟩ .done)
    (shared : ∀ {heap : HeldHeap} {i : Handle} {c : Held} (hi : heap.live? i = some c)
      (hc : c.holders ≠ 1), motive heap (some i) 0 ⟨heap.giveBack i, []⟩ (.shared hi hc))
    (last : ∀ {heap : HeldHeap} {i : Handle} {c : Held} {nesting : Nat} {t : Teardown}
      (hi : heap.live? i = some c) (hc : c.holders = 1)
      (hrest : (heap.destroy i).Unlinks c.scope.parent nesting t),
      motive (heap.destroy i) c.scope.parent nesting t hrest →
      motive heap (some i) (max 1 nesting)
        ⟨t.heap, { c.scope with parent := none } :: t.dropped⟩ (.step hi hc hrest))
    (h : heap.Unlinks start nesting t) : motive heap start nesting t h := by
  induction h with
  | done => exact done
  | shared hi hc => exact shared hi hc
  | last hi hc hs hdrop hrest _ ih =>
    subst hs
    obtain ⟨rfl, rfl⟩ := unlinks_none hdrop
    exact last hi hc hrest ih

/-- However long the way outward, the drops inside the loop have none inside
them. -/
theorem Unlinks.nesting_le (h : heap.Unlinks start nesting t) : nesting ≤ 1 := by
  induction h using Unlinks.outward with
  | done => exact Nat.zero_le 1
  | shared => exact Nat.zero_le 1
  | last _ _ _ ih => exact Nat.max_le.mpr ⟨Nat.le_refl 1, ih⟩

/-- What the loop drops was detached from its parent. -/
theorem Unlinks.detached (h : heap.Unlinks start nesting t) : ∀ s ∈ t.dropped, s.parent = none := by
  induction h using Unlinks.outward with
  | done => simp
  | shared => simp
  | last _ _ _ ih =>
    intro s hs
    rcases List.mem_cons.mp hs with rfl | hs
    · rfl
    · exact ih s hs

/-! ## 2. What is left -/

/-- Cells may be gone and counts may be others, but what is in use has the scope
it had. -/
structure Thins (heap later : HeldHeap) : Prop where
  size_eq : later.size = heap.size
  scope_eq : ∀ {k : Handle} {c : Held}, later.live? k = some c →
    ∃ c', heap.live? k = some c' ∧ c'.scope = c.scope

theorem Thins.refl (heap : HeldHeap) : heap.Thins heap := ⟨rfl, fun hk => ⟨_, hk, rfl⟩⟩

theorem Thins.trans {last : HeldHeap} (h : heap.Thins later) (h' : later.Thins last) :
    heap.Thins last := by
  refine ⟨h'.size_eq.trans h.size_eq, fun hk => ?_⟩
  obtain ⟨c', hc', hscope'⟩ := h'.scope_eq hk
  obtain ⟨c, hc, hscope⟩ := h.scope_eq hc'
  exact ⟨c, hc, hscope.trans hscope'⟩

theorem thins_write (hi : heap.live? i = some c) {cell? : Option Held}
    (hcell : ∀ c' ∈ cell?, c'.scope = c.scope) : heap.Thins (Store.write heap i cell?) := by
  refine ⟨Store.size_write _ _ _, fun {k c'} hk => ?_⟩
  by_cases hki : k = i
  · rw [hki, live?_write_self hi] at hk
    exact ⟨c, hki ▸ hi, (hcell c' hk).symm⟩
  · rw [live?_write_ne heap hki] at hk
    exact ⟨c', hk, rfl⟩

theorem thins_giveBack (hi : heap.live? i = some c) : heap.Thins (heap.giveBack i) := by
  rw [giveBack, modify_eq_write hi]
  refine thins_write hi fun c' hc' => ?_
  cases hc'
  rfl

theorem thins_destroy (hi : heap.live? i = some c) : heap.Thins (heap.destroy i) :=
  thins_write hi fun _ hc' => by cases hc'

theorem Unlinks.thins (h : heap.Unlinks start nesting t) : heap.Thins t.heap := by
  induction h using Unlinks.outward with
  | done => exact .refl _
  | shared hi _ => exact thins_giveBack hi
  | last hi _ _ ih => exact (thins_destroy hi).trans ih

/-- What one climbs now from a cell in use, one climbed before. -/
theorem Thins.isPath (h : heap.Thins later) (hkept : later.Kept held)
    (hpath : later.scopes.IsPath start path) (hstart : ∀ i ∈ start, (later.live? i).isSome) :
    heap.scopes.IsPath start path := by
  induction hpath with
  | done => exact .done
  | @up i rest hi _ ih =>
    obtain ⟨c, hc⟩ := Option.isSome_iff_exists.mp (hstart i rfl)
    obtain ⟨c', hc', hscope⟩ := h.scope_eq hc
    refine .up (lt_size_scopes hc') ?_
    rw [scope_of_live hc', hscope, ← scope_of_live hc]
    exact ih fun p hp => hkept.parent_live hp

/-- As long as the books are kept, holders reach what they reached. -/
theorem Thins.reached_iff (h : heap.Thins later) (hkept : later.Kept held) :
    heap.Reached held k ↔ later.Reached held k := by
  have hpaths : ∀ i ∈ held, ∃ path, later.scopes.IsPath (some i) path ∧
      heap.scopes.IsPath (some i) path := by
    intro i hi
    obtain ⟨c, hc⟩ := Option.isSome_iff_exists.mp (hkept.held_live hi)
    have hpath := hkept.acyclic.isPath_chain (lt_size_scopes hc)
    refine ⟨_, hpath, h.isPath hkept hpath fun j hj => ?_⟩
    cases hj
    exact hkept.held_live hi
  constructor
  · rintro ⟨i, hi, path, hpath, hk⟩
    obtain ⟨l, hlater, hl⟩ := hpaths i hi
    exact ⟨i, hi, l, hlater, hpath.unique hl ▸ hk⟩
  · rintro ⟨i, hi, path, hpath, hk⟩
    obtain ⟨l, hlater, hl⟩ := hpaths i hi
    exact ⟨i, hi, l, hl, hpath.unique hlater ▸ hk⟩

/-- What letting go is to come to, if `held` are those who hold on: the cells
that they reach stay, with their scopes, and no others; and the books are
kept. -/
structure Frees (heap : HeldHeap) (held : List Handle) (later : HeldHeap) : Prop
    extends Thins heap later where
  kept : later.Kept held
  live_iff : ∀ k, (later.live? k).isSome ↔ heap.Reached held k

theorem Thins.frees (h : heap.Thins later) (hkept : later.Kept held) : heap.Frees held later :=
  ⟨h, hkept, fun _ => hkept.live_iff.trans (h.reached_iff hkept).symm⟩

/-! ## 3. The loop ends, and the books are kept -/

theorem scopes_destroy (heap : HeldHeap) (i : Handle) :
    (heap.destroy i).scopes = Store.write heap.scopes i Scope.empty :=
  scopes_write heap i none

theorem scopes_giveBack (hi : heap.live? i = some c) : (heap.giveBack i).scopes = heap.scopes := by
  rw [giveBack, modify_eq_write hi]
  exact scopes_write_same hi (c.holders - 1)

/-- The way on from a cell does not lead back to it. -/
theorem isPath_parent (hi : heap.live? i = some c) (h : heap.scopes.IsPath (some i) path) :
    ∃ rest, path = i :: rest ∧ i ∉ rest ∧ heap.scopes.IsPath c.scope.parent rest := by
  have hnodup := h.nodup
  cases h with
  | @up _ rest _ hrest =>
    rw [scope_of_live hi] at hrest
    exact ⟨rest, rfl, (List.nodup_cons.mp hnodup).1, hrest⟩

theorem isPath_destroy (h : heap.scopes.IsPath start path) (hi : i ∉ path) :
    (heap.destroy i).scopes.IsPath start path := by
  rw [scopes_destroy]
  exact h.replace_off hi Scope.empty

theorem Kept.isPath_path (h : heap.Kept (start.toList ++ held)) :
    heap.scopes.IsPath start (heap.scopes.path start) := by
  refine h.acyclic.isPath_path fun i hi => ?_
  obtain ⟨c, hc⟩ := Option.isSome_iff_exists.mp
    (h.held_live (List.mem_append_left held (Option.mem_toList.mpr hi)))
  exact lt_size_scopes hc

/-- **The loop ends.** What it has in hand is a holder like any other, so each
handle it takes is that of a cell in use. -/
theorem Kept.exists_unlinks (h : heap.Kept (start.toList ++ held)) :
    ∃ nesting t, heap.Unlinks start nesting t := by
  have hpath := h.isPath_path
  generalize heap.scopes.path start = path at hpath
  -- along the path, in the heap that is left when the loop gets there
  induction path generalizing heap start with
  | nil =>
    cases hpath
    exact ⟨0, _, .done⟩
  | cons i rest ih =>
    obtain rfl : start = some i := by
      cases hpath
      rfl
    obtain ⟨c, hc⟩ := Option.isSome_iff_exists.mp (h.held_live List.mem_cons_self)
    by_cases hlast : c.holders = 1
    · obtain ⟨_, ⟨⟩, hout, hrest⟩ := isPath_parent hc hpath
      obtain ⟨nesting, t, ht⟩ := ih (h.destroy hc hlast) (isPath_destroy hrest hout)
      exact ⟨_, _, .step hc hlast ht⟩
    · exact ⟨0, _, .shared hc hlast⟩

/-- The books are kept without what the loop had in hand. -/
theorem Unlinks.kept (h : heap.Unlinks start nesting t) (hkept : heap.Kept (start.toList ++ held)) :
    t.heap.Kept held := by
  induction h using Unlinks.outward with
  | done => exact hkept
  | shared hi hc => exact hkept.giveBack hi hc
  | last hi hc _ ih => exact ih (hkept.destroy hi hc)

/-- The bound on the loop is not felt. -/
theorem Unlinks.unlink_eq (h : heap.Unlinks start nesting t)
    (hpath : heap.scopes.IsPath start path) {bound : Nat} (hbound : path.length ≤ bound) :
    unlink bound heap start = t := by
  induction h using Unlinks.outward generalizing path bound with
  | done => cases bound <;> rfl
  | shared hi hc =>
    obtain ⟨rest, rfl, -, -⟩ := isPath_parent hi hpath
    obtain ⟨bound, rfl⟩ := Nat.exists_eq_add_of_lt (Nat.lt_of_lt_of_le (Nat.succ_pos _) hbound)
    rw [unlink, hi]
    exact if_neg hc
  | last hi hc _ ih =>
    obtain ⟨rest, rfl, hout, hrest⟩ := isPath_parent hi hpath
    obtain ⟨bound, rfl⟩ := Nat.exists_eq_add_of_lt (Nat.lt_of_lt_of_le (Nat.succ_pos _) hbound)
    have hbound' : rest.length ≤ 0 + bound := by simpa using hbound
    have hrest' := ih (isPath_destroy hrest hout) hbound'
    rw [unlink, hi]
    dsimp only
    rw [if_pos hc, hrest']

/-! ## 4. The same as without the loop -/

theorem live?_destroy_self (heap : HeldHeap) (i : Handle) : (heap.destroy i).live? i = none := by
  rw [destroy, live?_write]
  split
  · rfl
  · next h =>
    have hout : heap.size ≤ i.index := Nat.le_of_not_lt fun hlt => h ⟨rfl, hlt⟩
    rw [live?, Store.read?_eq_none_iff.mpr hout]
    rfl

theorem Thins.live?_eq_none (h : heap.Thins later) (hk : heap.live? k = none) :
    later.live? k = none := by
  cases hc : later.live? k with
  | none => rfl
  | some c =>
    obtain ⟨c', hc', -⟩ := h.scope_eq hc
    rw [hk] at hc'
    cases hc'

/-- A cell that gets what it has leaves the heap as it is. -/
theorem write_live? {cell? : Option Held} (hi : heap.live? i = cell?) :
    Store.write heap i cell? = heap := by
  refine ext_live? (Store.size_write _ _ _) fun k => ?_
  rw [live?_write]
  split
  · next hk => rw [hk.1, hi]
  · rfl

theorem giveBack_write (hi : heap.live? i = some c) (hne : i ≠ k) (cell? : Option Held) :
    giveBack (Store.write heap k cell?) i = Store.write (heap.giveBack i) k cell? := by
  have hi' : live? (Store.write heap k cell?) i = some c := by rwa [live?_write_ne heap hne]
  rw [giveBack, giveBack, modify_eq_write hi, modify_eq_write hi', Store.write_comm _ hne.symm]

/-- A cell off the path is of no concern. -/
theorem Releases.write_off (h : heap.Releases start nesting later)
    (hpath : heap.scopes.IsPath start path) (hk : k ∉ path) (cell? : Option Held) :
    Releases (Store.write heap k cell?) start nesting (Store.write later k cell?) := by
  induction h generalizing path with
  | done => exact .done
  | @shared heap i c hi hc =>
    obtain ⟨rest, rfl, -, -⟩ := isPath_parent hi hpath
    rw [List.mem_cons, not_or] at hk
    rw [← giveBack_write hi (Ne.symm hk.1)]
    exact .shared (by rwa [live?_write_ne heap (Ne.symm hk.1)]) hc
  | @last heap later i c nesting hi hc _ ih =>
    obtain ⟨rest, rfl, hout, hrest⟩ := isPath_parent hi hpath
    rw [List.mem_cons, not_or] at hk
    obtain ⟨hne, hk⟩ := hk
    have hparent := ih (by rwa [scopes_giveBack hi]) hk
    rw [← giveBack_write hi (Ne.symm hne)] at hparent
    rw [destroy, ← Store.write_comm _ hne]
    exact .last (by rwa [live?_write_ne heap (Ne.symm hne)]) hc hparent

theorem Unlinks.write_off (h : heap.Unlinks start nesting t)
    (hpath : heap.scopes.IsPath start path) (hk : k ∉ path) (cell? : Option Held) :
    Unlinks (Store.write heap k cell?) start nesting
      ⟨Store.write t.heap k cell?, t.dropped⟩ := by
  induction h using Unlinks.outward generalizing path with
  | done => exact .done
  | shared hi hc =>
    obtain ⟨rest, rfl, -, -⟩ := isPath_parent hi hpath
    rw [List.mem_cons, not_or] at hk
    rw [← giveBack_write hi (Ne.symm hk.1)]
    exact .shared (by rwa [live?_write_ne _ (Ne.symm hk.1)]) hc
  | last hi hc _ ih =>
    obtain ⟨rest, rfl, hout, hrest⟩ := isPath_parent hi hpath
    rw [List.mem_cons, not_or] at hk
    obtain ⟨hne, hk⟩ := hk
    have hparent := ih (isPath_destroy hrest hout) hk
    rw [destroy, Store.write_comm _ (Ne.symm hne)] at hparent
    exact .step (by rwa [live?_write_ne _ (Ne.symm hne)]) hc hparent

/-- **The loop does what is done without it**, where a drop would be nested for
each cell that goes. -/
theorem Unlinks.releases (h : heap.Unlinks start nesting t)
    (hpath : heap.scopes.IsPath start path) :
    heap.Releases start t.dropped.length t.heap := by
  induction h using Unlinks.outward generalizing path with
  | done => exact .done
  | shared hi hc => exact .shared hi hc
  | @last heap i c nesting t hi hc hrest ih =>
    obtain ⟨rest, rfl, hout, hparent⟩ := isPath_parent hi hpath
    have hafter := isPath_destroy hparent hout
    -- while the parent is let go, the cell is there without a holder, and off the path
    have hgive : Store.write (heap.destroy i) i (some ⟨c.scope, c.holders - 1⟩) =
        heap.giveBack i := by
      rw [giveBack, modify_eq_write hi, destroy, Store.write_write]
    have hreleases := (ih hafter).write_off hafter hout (some ⟨c.scope, c.holders - 1⟩)
    rw [hgive] at hreleases
    have hgone := hrest.thins.live?_eq_none (live?_destroy_self heap i)
    have hlast := Releases.last hi hc hreleases
    rw [destroy, Store.write_write, write_live? hgone] at hlast
    exact hlast

/-- The bound on nested drops is not felt either. -/
theorem Releases.releaseNested_eq (h : heap.Releases start nesting later)
    (hpath : heap.scopes.IsPath start path) {bound : Nat} (hbound : path.length ≤ bound) :
    (releaseNested bound heap start).heap = later := by
  induction h generalizing path bound with
  | done => cases bound <;> rfl
  | shared hi hc =>
    obtain ⟨rest, rfl, -, -⟩ := isPath_parent hi hpath
    obtain ⟨bound, rfl⟩ := Nat.exists_eq_add_of_lt (Nat.lt_of_lt_of_le (Nat.succ_pos _) hbound)
    rw [releaseNested, hi]
    dsimp only
    rw [if_neg hc]
  | last hi hc _ ih =>
    obtain ⟨rest, rfl, hout, hrest⟩ := isPath_parent hi hpath
    obtain ⟨bound, rfl⟩ := Nat.exists_eq_add_of_lt (Nat.lt_of_lt_of_le (Nat.succ_pos _) hbound)
    have hbound' : rest.length ≤ 0 + bound := by simpa using hbound
    have hrest' := ih (by rwa [scopes_giveBack hi]) hbound'
    rw [releaseNested, hi]
    dsimp only
    rw [if_pos hc, hrest']

/-! ## 5. Handles, owned scopes and replaced contents -/

/-- Dropping a handle comes to the same as the loop that starts with it. -/
theorem LetsGo.unlinks (h : heap.LetsGo i nesting t) :
    ∃ n u, heap.Unlinks (some i) n u ∧ u.heap = t.heap := by
  cases h with
  | shared hi hc => exact ⟨0, _, .shared hi hc, rfl⟩
  | last hi hc hdrop =>
    cases hdrop with
    | loop h => exact ⟨_, _, .step hi hc h, rfl⟩

/-- The teardown has freed what nobody reaches any more. A drop is at most
within one other, and each cell that the loop destroyed was detached from
its parent before its scope was dropped. -/
structure Clears (heap : HeldHeap) (held : List Handle) (nesting : Nat) (t : Teardown) : Prop where
  frees : heap.Frees held t.heap
  nesting_le : nesting ≤ 2
  detached : ∀ s ∈ t.dropped, s.parent = none

theorem Unlinks.clears {s : Scope} (h : heap.Unlinks s.parent nesting t)
    (hkept : heap.Kept (s.parent.toList ++ held)) : heap.Clears held (nesting + 1) t :=
  ⟨h.thins.frees (h.kept hkept), Nat.succ_le_succ h.nesting_le, h.detached⟩

theorem Kept.exists_letsGo (h : heap.Kept (i :: held)) :
    ∃ nesting t, heap.LetsGo i nesting t ∧ heap.Clears held nesting t := by
  obtain ⟨c, hc⟩ := Option.isSome_iff_exists.mp (h.held_live List.mem_cons_self)
  by_cases hlast : c.holders = 1
  · have hkept := h.destroy hc hlast
    obtain ⟨nesting, t, ht⟩ := hkept.exists_unlinks
    have hclears := ht.clears hkept
    exact ⟨_, t, .last hc hlast (.loop ht),
      ((thins_destroy hc).trans hclears.frees.toThins).frees hclears.frees.kept,
      hclears.nesting_le, hclears.detached⟩
  · exact ⟨0, _, .shared hc hlast, (thins_giveBack hc).frees (h.giveBack hc hlast),
      Nat.zero_le 2, by simp⟩

/-- The executable teardown is the loop, and what it leaves is what is left
without the loop. -/
theorem Kept.unlink_eq (h : heap.Kept (start.toList ++ held)) (ht : heap.Unlinks start nesting t) :
    unlink heap.size heap start = t ∧ heap.Releases start t.dropped.length t.heap ∧
      (releaseNested heap.size heap start).heap = t.heap := by
  have hpath := h.isPath_path
  have hbound := hpath.length_le
  rw [size_scopes] at hbound
  have hreleases := ht.releases hpath
  exact ⟨ht.unlink_eq hpath hbound, hreleases, hreleases.releaseNested_eq hpath hbound⟩

/-- **Handles dropped in order**, each while the handles that are still to come
hold on. -/
theorem Kept.exists_letsGoAll {gone : List Handle} (h : heap.Kept (gone ++ held)) :
    ∃ nesting t, heap.LetsGoAll gone nesting t ∧ heap.Clears held nesting t ∧
      heap.ReleasesAll gone t.heap ∧ heap.letGoAll gone = t.heap := by
  induction gone generalizing heap with
  | nil => exact ⟨0, _, .nil, ⟨(Thins.refl heap).frees h, Nat.zero_le 2, by simp⟩, .nil, rfl⟩
  | cons i rest ih =>
    have hkept : heap.Kept ((some i).toList ++ (rest ++ held)) := h
    obtain ⟨n, t, hi, hfirst⟩ := Kept.exists_letsGo hkept
    obtain ⟨n', u, hu, hheap⟩ := hi.unlinks
    obtain ⟨hunlink, hreleases, -⟩ := hkept.unlink_eq hu
    obtain ⟨m, last, hrest, hlast, hreleasesAll, hletGo⟩ := ih hfirst.frees.kept
    refine ⟨_, _, .cons hi hrest, ⟨?_, ?_, fun s hs => ?_⟩, ?_, ?_⟩
    · exact (hfirst.frees.toThins.trans hlast.frees.toThins).frees hlast.frees.kept
    · exact Nat.max_le.mpr ⟨hfirst.nesting_le, hlast.nesting_le⟩
    · rcases List.mem_append.mp hs with hs | hs
      · exact hfirst.detached s hs
      · exact hlast.detached s hs
    · rw [hheap] at hreleases
      exact .cons hreleases hreleasesAll
    · rw [letGoAll, List.foldl_cons, letGo, hunlink, hheap]
      exact hletGo

/-- **A scope replaced in its cell** is dropped where it is, before the other
takes its place. -/
theorem Kept.exists_drops_put {s : Scope} (h : heap.Kept (s.parent.toList ++ held))
    (hi : heap.live? i = some c) (hs : i ∉ heap.scopes.path s.parent) :
    ∃ nesting t, heap.Drops c.scope nesting t ∧
      (heap.put i s).Clears held nesting ⟨t.heap.put i s, t.dropped⟩ ∧
      heap.Releases c.scope.parent t.dropped.length t.heap ∧
      (heap.put i s).dropScope c.scope = t.heap.put i s := by
  have hkept := h.put hi hs
  obtain ⟨nesting, t, ht⟩ := hkept.exists_unlinks
  obtain ⟨hunlink, -⟩ := hkept.unlink_eq ht
  have hclears := ht.clears hkept
  -- the way on from the cell is the same, whatever is in it
  obtain ⟨rest, -, hout, hrest⟩ := isPath_parent hi (h.acyclic.isPath_chain (lt_size_scopes hi))
  have heq : heap.put i s = Store.write heap i (some ⟨s, c.holders⟩) := modify_eq_write hi _
  have hrest' : (heap.put i s).scopes.IsPath c.scope.parent rest := by
    rw [heq, scopes_write]
    exact hrest.replace_off hout s
  have hput : (heap.put i s).live? i = some ⟨s, c.holders⟩ := by
    rw [heq, live?_write_self hi]
  -- so the loop runs in the heap before, and leaves the new scope in the one after
  have hbefore := ht.write_off hrest' hout (some c)
  rw [heq, Store.write_write, write_live? hi] at hbefore
  have hafter := ht.write_off hrest' hout (some ⟨s, c.holders⟩)
  rw [write_live? hput] at hafter
  have hsame : t = ⟨Store.write t.heap i (some ⟨s, c.holders⟩), t.dropped⟩ :=
    (ht.unlink_eq hrest' (Nat.le_refl _)).symm.trans (hafter.unlink_eq hrest' (Nat.le_refl _))
  have hback : HeldHeap.put (Store.write t.heap i (some c)) i s = t.heap := by
    have hlt : i.index < t.heap.size := by
      rw [ht.thins.size_eq]
      exact lt_size_of_live hput
    have hlive : live? (Store.write t.heap i (some c)) i = some c := by
      rw [live?_write, if_pos ⟨rfl, hlt⟩]
    rw [HeldHeap.put, modify_eq_write hlive, Store.write_write]
    exact (congrArg Teardown.heap hsame).symm
  refine ⟨_, _, .loop hbefore, ?_, hbefore.releases hrest, ?_⟩
  · rw [hback]
    exact hclears
  · rw [hback]
    exact congrArg Teardown.heap hunlink

/-- **Teardown frees what nobody holds.** In a heap whose books are kept,
counting what is about to go and `held` for those who hold on,

* handles can be dropped in any order, the one of a block that was closed or
  all that an environment has;
* a scope can be dropped that was held outside;
* a scope can be dropped that is replaced in its cell, by one that was held
  outside and that the cell does not enclose.

Each time the loop ends. The cells that stay are those that the holders
reach, each with the scope it had, and they count their holders. The loop
has detached what it destroyed, and no drop was within more than one other;
and the heap is the one that nested drops leave. -/
theorem teardown_frees_unreached {heap : HeldHeap} {held : List Handle} :
    (∀ gone, heap.Kept (gone ++ held) → ∃ nesting t, heap.LetsGoAll gone nesting t ∧
      heap.Clears held nesting t ∧ heap.ReleasesAll gone t.heap ∧ heap.letGoAll gone = t.heap) ∧
    (∀ s : Scope, heap.Kept (s.parent.toList ++ held) → ∃ nesting t, heap.Drops s nesting t ∧
      heap.Clears held nesting t ∧ heap.Releases s.parent t.dropped.length t.heap ∧
      heap.dropScope s = t.heap ∧ (releaseNested heap.size heap s.parent).heap = t.heap) ∧
    ∀ (i : Handle) (c : Held) (s : Scope), heap.Kept (s.parent.toList ++ held) →
      heap.live? i = some c → i ∉ heap.scopes.path s.parent →
      ∃ nesting t, heap.Drops c.scope nesting t ∧
        (heap.put i s).Clears held nesting ⟨t.heap.put i s, t.dropped⟩ ∧
        heap.Releases c.scope.parent t.dropped.length t.heap ∧
        (heap.put i s).dropScope c.scope = t.heap.put i s := by
  refine ⟨fun gone h => h.exists_letsGoAll, fun s h => ?_,
    fun i c s h hi hs => h.exists_drops_put hi hs⟩
  obtain ⟨nesting, t, ht⟩ := h.exists_unlinks
  obtain ⟨hunlink, hreleases, hnested⟩ := h.unlink_eq ht
  exact ⟨_, t, .loop ht, ht.clears h, hreleases, congrArg Teardown.heap hunlink, hnested⟩

/-- A chain of four scopes that is held at its two outer ones and by an owned
scope inside all of them, and another of two scopes that is held at its
inner one. -/
def heldChains : List Move := [.act (.newScope "g"), .act (.newChild "g" "m"),
  .act (.newChild "m" "a"), .act (.newChild "a" "b"), .act (.newOwnedInside "b" "o"),
  .act (.newScope "r"), .act (.newChild "r" "z"), .act (.dropHandle "a"), .act (.dropHandle "b"),
  .act (.dropHandle "r")]

theorem teardown_frees_unreached_heldChains :
    let heap := (Session.empty.after heldChains).books
    let inner := Scope.inside ⟨3⟩
    heap.Kept ([⟨3⟩] ++ [⟨0⟩, ⟨1⟩, ⟨5⟩]) ∧
    (∃ nesting t, heap.LetsGoAll [⟨3⟩] nesting t ∧ t.heap.live? ⟨2⟩ = none ∧
      (t.heap.live? ⟨1⟩).isSome) ∧
    (∃ nesting t, heap.Drops inner nesting t ∧ nesting ≤ 2 ∧ t.heap.live? ⟨2⟩ = none ∧
      (t.heap.live? ⟨1⟩).isSome) ∧
    heap.live? ⟨5⟩ = some ⟨Scope.inside ⟨4⟩, 1⟩ ∧ ⟨5⟩ ∉ heap.scopes.path inner.parent ∧
    ∃ nesting t, heap.Drops (Scope.inside ⟨4⟩) nesting t ∧
      (t.heap.put ⟨5⟩ inner).live? ⟨4⟩ = none := by
  intro heap inner
  have hperm : (Session.empty.after heldChains).held.Perm ([⟨3⟩] ++ [⟨0⟩, ⟨1⟩, ⟨5⟩]) := by
    decide +kernel
  have hkept : heap.Kept ([⟨3⟩] ++ [⟨0⟩, ⟨1⟩, ⟨5⟩]) :=
    (Session.formed_empty.after heldChains).kept_books.perm hperm
  have hlive : heap.live? ⟨5⟩ = some ⟨Scope.inside ⟨4⟩, 1⟩ := by decide +kernel
  have hout : ⟨5⟩ ∉ heap.scopes.path inner.parent := by decide +kernel
  obtain ⟨hhandles, hscope, hput⟩ := @teardown_frees_unreached heap [⟨0⟩, ⟨1⟩, ⟨5⟩]
  obtain ⟨n, t, hgone, -, -, ht⟩ := hhandles [⟨3⟩] hkept
  obtain ⟨m, u, hdrops, hclears, -, hu, -⟩ := hscope inner hkept
  obtain ⟨l, v, hreplaced, -, -, hv⟩ := hput ⟨5⟩ _ inner hkept hlive hout
  refine ⟨hkept, ⟨n, t, hgone, ?_, ?_⟩, ⟨m, u, hdrops, hclears.nesting_le, ?_, ?_⟩, hlive, hout,
    l, v, hreplaced, ?_⟩
  · rw [← ht]
    decide +kernel
  · rw [← ht]
    decide +kernel
  · rw [← hu]
    decide +kernel
  · rw [← hu]
    decide +kernel
  · rw [← hv]
    decide +kernel

/-! ## 6. What sessions let go of -/

theorem Frees.live?_cases {other : HeldHeap} (h : heap.Frees held later)
    (h' : heap.Frees held other) (k : Handle) :
    later.live? k = none ∧ other.live? k = none ∨
      ∃ c d, later.live? k = some c ∧ other.live? k = some d ∧ c.scope = d.scope := by
  have hk : (later.live? k).isSome ↔ (other.live? k).isSome :=
    (h.live_iff k).trans (h'.live_iff k).symm
  cases hc : later.live? k with
  | none =>
    rw [hc] at hk
    exact .inl ⟨rfl, Option.not_isSome_iff_eq_none.mp fun hd => by simpa using hk.mpr hd⟩
  | some c =>
    rw [hc] at hk
    obtain ⟨d, hd⟩ := Option.isSome_iff_exists.mp (hk.mp rfl)
    obtain ⟨c', hc', hscope⟩ := h.scope_eq hc
    obtain ⟨d', hd', hscope'⟩ := h'.scope_eq hd
    rw [hc'] at hd'
    cases hd'
    exact .inr ⟨c, d, rfl, hd, hscope.symm.trans hscope'⟩

/-- The holders that are left determine what is left. -/
theorem Frees.unique {other : HeldHeap} (h : heap.Frees held later) (h' : heap.Frees held other) :
    later = other := by
  have hscopes : ∀ k, later.scopes.scope k = other.scopes.scope k := by
    intro k
    rcases h.live?_cases h' k with ⟨hc, hd⟩ | ⟨c, d, hc, hd, hscope⟩
    · rw [scope_scopes, scope_scopes, hc, hd]
    · rw [scope_of_live hc, scope_of_live hd, hscope]
  have hsize : later.size = other.size := h.size_eq.trans h'.size_eq.symm
  have hchildren : ∀ k, later.scopes.children k = other.scopes.children k := by
    intro k
    ext n
    rw [Heap.mem_children, Heap.mem_children, hscopes, size_scopes, size_scopes, hsize]
  refine ext_live? hsize fun k => ?_
  rcases h.live?_cases h' k with ⟨hc, hd⟩ | ⟨c, d, hc, hd, hscope⟩
  · rw [hc, hd]
  · have hholders : c.holders = d.holders := by
      rw [h.kept.holders_eq hc, h'.kept.holders_eq hd, hchildren]
    obtain ⟨s, m⟩ := c
    obtain rfl : s = d.scope := hscope
    obtain rfl : m = d.holders := hholders
    rw [hc, hd]

/-- Books that are made up anew for fewer holders have the cells that these
reach. -/
theorem Kept.frees_ofHolders {all : List Handle} {plain : Heap} (h : heap.Kept all)
    (hac : plain.Acyclic) (hsize : plain.size = heap.size)
    (hscope : ∀ {k : Handle} {c : Held}, heap.live? k = some c → plain.scope k = c.scope)
    (hheld : ∀ i ∈ held, i ∈ all) : heap.Frees held (ofHolders plain held) := by
  have hlt : ∀ i ∈ held, i.index < plain.size := by
    intro i hi
    obtain ⟨c, hc⟩ := Option.isSome_iff_exists.mp (h.held_live (hheld i hi))
    rw [hsize]
    exact lt_size_of_live hc
  refine Thins.frees ⟨(size_ofHolders plain held).trans hsize, fun {k c} hc => ?_⟩
    (kept_ofHolders hac hlt)
  obtain ⟨hmem, hc', -⟩ := mem_of_live_ofHolders hc
  obtain ⟨i, hi, hk⟩ := List.mem_flatMap.mp hmem
  have hlive := h.live_of_mem hscope (hac.isPath_chain (hlt i hi)) (fun j hj => by
    cases hj
    exact h.held_live (hheld i hi)) k hk
  obtain ⟨d, hd⟩ := Option.isSome_iff_exists.mp hlive
  exact ⟨d, hd, (hscope hd).symm.trans hc'.symm⟩

end HeldHeap

namespace Session

variable {σ τ : Session}

/-- If all that a session loses is holders, its books lose what those held. -/
theorem Formed.books_letGoAll (hσ : σ.Formed) (hτ : τ.Formed) (hheap : τ.heap = σ.heap)
    {gone : List Handle} (hheld : σ.held.Perm (gone ++ τ.held)) :
    τ.books = σ.books.letGoAll gone := by
  have hkept := hσ.kept_books.perm hheld
  obtain ⟨_, t, -, hclears, -, heq⟩ := hkept.exists_letsGoAll
  have hfrees : σ.books.Frees τ.held τ.books := by
    refine hσ.kept_books.frees_ofHolders hτ.acyclic ?_ (fun hc => ?_) fun i hi => ?_
    · rw [hheap, books, HeldHeap.size_ofHolders]
    · rw [hheap]
      exact (HeldHeap.mem_of_live_ofHolders hc).2.1.symm
    · exact hheld.mem_iff.mpr (List.mem_append_right gone hi)
  rw [heq]
  exact hfrees.unique hclears.frees

end Session

/-- Closing a block lets go of its handle. -/
theorem Environment.held_perm {e : Environment} {i : Handle} (hi : e.blocks.head? = some i) :
    e.held.Perm (i :: e.closed.held) := by
  obtain ⟨base, blocks, global, baseDepth, policy⟩ := e
  obtain ⟨rest, rfl⟩ := List.head?_eq_some_iff.mp hi
  have hframes : (frames ⟨base, i :: rest, global, baseDepth, policy⟩).reverse =
      (rest ++ [base]).reverse ++ [i] := List.reverse_cons
  rw [held, hframes, List.append_assoc]
  exact List.perm_middle

namespace Session

variable {σ : Session}

theorem books_dropHandle (h : σ.Formed) {x : String} {i : Handle} (hx : σ.handles[x]? = some i) :
    ((Action.dropHandle x).run σ).1.books = σ.books.letGo i := by
  have hperm : σ.held.Perm ([i] ++ ((Action.dropHandle x).run σ).1.held) :=
    ((Table.values_perm hx).append_right _).append_right _
  exact h.books_letGoAll (h.run _) rfl hperm

theorem books_dropEnvironment (h : σ.Formed) {x : String} {e : Environment}
    (he : σ.environments[x]? = some e) :
    ((Action.dropEnvironment x).run σ).1.books = σ.books.letGoAll e.held := by
  have henvironments := (Table.values_perm he).flatMap_right Environment.held
  have hperm : σ.held.Perm (e.held ++ ((Action.dropEnvironment x).run σ).1.held) :=
    (henvironments.append_left _).trans (List.perm_append_comm_assoc _ _ _)
  exact h.books_letGoAll (h.run _) rfl hperm

theorem books_closeBlock (h : σ.Formed) {x : String} {e : Environment} {i : Handle}
    (he : σ.environments[x]? = some e) (hi : e.blocks.head? = some i) :
    ((Action.closeBlock x none).run σ).1.books = σ.books.letGo i := by
  have hafter : ((Action.closeBlock x none).run σ).1.held = σ.handles.values ++
      σ.owned.values.filterMap Scope.parent ++
        (σ.environments.insert x e.closed).values.flatMap Environment.held := by
    rw [held, Action.run_handles rfl, Action.run_owned rfl, Action.run_environments,
      Action.environment?, he]
    rfl
  have hbefore := (Table.values_perm he).flatMap_right Environment.held
  have hinsert := (Table.values_insert_perm σ.environments x e.closed).flatMap_right
    Environment.held
  have henvironments : (σ.environments.values.flatMap Environment.held).Perm
      (i :: (σ.environments.insert x e.closed).values.flatMap Environment.held) :=
    hbefore.trans (((Environment.held_perm hi).append_right _).trans (hinsert.symm.cons i))
  have hperm : σ.held.Perm ([i] ++ ((Action.closeBlock x none).run σ).1.held) := by
    rw [hafter]
    exact (henvironments.append_left _).trans List.perm_middle
  exact h.books_letGoAll (h.run _) (Action.run_heap rfl) hperm

/-- Storing an owned scope takes its parent from the holders. -/
theorem held_perm_store {s : String} {scope : Scope} (hs : σ.owned[s]? = some scope)
    (arena : Arena) : σ.held.Perm (scope.parent.toList ++
      { σ with arena, owned := σ.owned.insert s Scope.empty }.held) := by
  have hbefore := (Table.values_perm hs).filterMap Scope.parent
  have hafter := (Table.values_insert_perm σ.owned s Scope.empty).filterMap Scope.parent
  have hcons : ∀ rest : List Scope, (scope :: rest).filterMap Scope.parent =
      scope.parent.toList ++ rest.filterMap Scope.parent := by
    intro rest
    rw [List.filterMap_cons]
    cases scope.parent <;> rfl
  have howned : (σ.owned.values.filterMap Scope.parent).Perm
      (scope.parent.toList ++ (σ.owned.insert s Scope.empty).values.filterMap Scope.parent) := by
    rw [hcons] at hbefore
    exact hbefore.trans (hafter.symm.append_left _)
  have hhandles := (howned.append_left σ.handles.values).trans (List.perm_append_comm_assoc _ _ _)
  have hall := hhandles.append_right (σ.environments.values.flatMap Environment.held)
  exact hall.trans (List.Perm.of_eq (List.append_assoc _ _ _))

/-- The content of a cell is dropped when another is stored there. -/
theorem books_store (h : σ.Formed) {s x : String} (hs : ¬ (Action.store s x).keepsContents σ) :
    ∃ scope i, σ.owned[s]? = some scope ∧ σ.handles[x]? = some i ∧
      ((Action.store s x).run σ).1.books =
        (σ.books.put i scope).dropScope (σ.heap.scope i) := by
  obtain ⟨scope, i, hscope, hx, hi, hrun⟩ := store_accepted hs
  refine ⟨scope, i, hscope, hx, ?_⟩
  have hτ := h.run (.store s x)
  rw [hrun] at hτ ⊢
  have hkept := h.kept_books.perm
    (held_perm_store hscope { σ.arena with heap := Store.write σ.heap i scope })
  obtain ⟨c, hc⟩ := Option.isSome_iff_exists.mp
    (h.kept_books.held_live (mem_held_iff.mpr (.inl ⟨x, hx⟩)))
  obtain ⟨-, hold, -⟩ := HeldHeap.mem_of_live_ofHolders hc
  -- the cell does not enclose the new content in the books either
  have hpath := h.acyclic.isPath_path (h.parent_lt hscope)
  have hbooks : σ.books.scopes.IsPath scope.parent (σ.heap.path scope.parent) := by
    refine HeldHeap.isPath_ofHolders hpath fun k hk => ?_
    cases hp : scope.parent with
    | none =>
      rw [hp, Heap.path_none] at hk
      cases hk
    | some p =>
      rw [hp] at hk
      exact List.mem_flatMap.mpr
        ⟨p, mem_held_iff.mpr (.inr (.inl ⟨s, scope, hscope, hp⟩)), hk⟩
  have hout : i ∉ σ.books.scopes.path scope.parent := by rwa [hbooks.path_eq]
  obtain ⟨_, t, -, hclears, -, heq⟩ := hkept.exists_drops_put hc hout
  have hput := hkept.put hc hout
  rw [← hold, heq]
  refine (hput.frees_ofHolders hτ.acyclic ?_ (fun {k c'} hk => ?_)
    fun k hk => List.mem_append_right _ hk).unique hclears.frees
  · rw [HeldHeap.put, Store.size_modify, books, HeldHeap.size_ofHolders]
    exact Store.size_write _ _ _
  · rw [HeldHeap.put, HeldHeap.modify_eq_write hc] at hk
    by_cases hki : k = i
    · rw [hki, HeldHeap.live?_write_self hc] at hk
      cases hk
      rw [hki]
      exact (σ.heap.scope_replace i scope i).trans (if_pos ⟨rfl, h.handle_lt hx⟩)
    · rw [HeldHeap.live?_write_ne _ hki] at hk
      exact (Heap.scope_replace_of_ne hki scope).trans
        (HeldHeap.mem_of_live_ofHolders hk).2.1.symm

end Session

end ScopeChain

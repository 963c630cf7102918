/-
ScopeChain.Cell.Store — shared cells and the handles that denote them.

A store is a growing row of cells. A HANDLE is the position of a cell, so
handles can be copied freely, two handles denote one cell exactly when
they are equal, and a write through one is read through the other. Cells
are never taken away: a handle that was handed out stays good.

The lemmas say what each operation does to `read?`, the view through which
a store is observed.
-/

namespace ScopeChain

/-- Denotes a cell. Equal handles denote the same cell. -/
structure Handle where
  index : Nat
deriving DecidableEq

/-- Cells with contents of type `α`. -/
structure Store (α : Type) where
  cells : Array α
deriving DecidableEq

namespace Store

variable {α : Type}

/-- The store without cells. -/
def empty : Store α := ⟨#[]⟩

/-- The number of cells. -/
def size (s : Store α) : Nat := s.cells.size

/-- The content of a cell; nothing for a handle of no cell. -/
@[inline] def read? (s : Store α) (h : Handle) : Option α := s.cells[h.index]?

/-- A new cell, and the handle that denotes it. -/
def alloc (s : Store α) (a : α) : Store α × Handle :=
  let next := s.cells.size
  (⟨s.cells.push a⟩, ⟨next⟩)

/-- Changes the content of one cell. -/
def modify (s : Store α) (h : Handle) (f : α → α) : Store α := ⟨s.cells.modify h.index f⟩

/-- Replaces the content of one cell. -/
def write (s : Store α) (h : Handle) (a : α) : Store α := ⟨s.cells.setIfInBounds h.index a⟩

/-! ## What each operation does to the view -/

@[simp] theorem size_alloc (s : Store α) (a : α) : (s.alloc a).1.size = s.size + 1 := by
  simp [alloc, size]

@[simp] theorem size_modify (s : Store α) (h : Handle) (f : α → α) :
    (s.modify h f).size = s.size := by
  simp [modify, size]

@[simp] theorem size_write (s : Store α) (h : Handle) (a : α) : (s.write h a).size = s.size := by
  simp [write, size]

@[simp] theorem alloc_snd (s : Store α) (a : α) : (s.alloc a).2 = ⟨s.size⟩ := rfl

theorem read?_eq_none_iff {s : Store α} {h : Handle} : s.read? h = none ↔ s.size ≤ h.index := by
  simp [read?, size]

theorem read?_alloc (s : Store α) (a : α) (h : Handle) :
    (s.alloc a).1.read? h = if h = ⟨s.size⟩ then some a else s.read? h := by
  obtain ⟨i⟩ := h
  simp only [read?, alloc, size, Handle.mk.injEq]
  split
  · next e => simp [e]
  · next e => rw [Array.getElem?_push]; simp [e]

theorem read?_modify (s : Store α) (h : Handle) (f : α → α) (k : Handle) :
    (s.modify h f).read? k = if k = h then (s.read? k).map f else s.read? k := by
  obtain ⟨i⟩ := h
  obtain ⟨j⟩ := k
  simp [read?, modify, Array.getElem?_modify, Handle.mk.injEq, eq_comm (a := i)]

theorem read?_write (s : Store α) (h : Handle) (a : α) (k : Handle) :
    (s.write h a).read? k = if k = h ∧ k.index < s.size then some a else s.read? k := by
  obtain ⟨i⟩ := h
  obtain ⟨j⟩ := k
  simp only [read?, write, Array.getElem?_setIfInBounds, Handle.mk.injEq, size]
  grind

/-- Stores with the same view are the same. -/
theorem ext_read? {s t : Store α} (h : ∀ k, s.read? k = t.read? k) : s = t := by
  obtain ⟨a⟩ := s
  obtain ⟨b⟩ := t
  congr
  exact Array.ext_getElem? fun i => h ⟨i⟩

/-- Changing a content that is known is replacing it. -/
theorem modify_eq_write {s : Store α} {h : Handle} {a : α} (ha : s.read? h = some a) (f : α → α) :
    s.modify h f = s.write h (f a) := by
  refine ext_read? fun k => ?_
  rw [read?_modify, read?_write]
  by_cases hk : k = h
  · subst hk
    have hlt : k.index < s.size := by
      refine Nat.lt_of_not_le fun hle => ?_
      rw [read?_eq_none_iff.mpr hle] at ha
      cases ha
    rw [if_pos rfl, if_pos ⟨rfl, hlt⟩, ha]
    rfl
  · rw [if_neg hk, if_neg fun h => hk h.1]

theorem write_write (s : Store α) (h : Handle) (a b : α) :
    (s.write h a).write h b = s.write h b := by
  refine ext_read? fun k => ?_
  rw [read?_write, read?_write, read?_write, size_write]
  split <;> rfl

theorem write_comm (s : Store α) {h k : Handle} (hne : h ≠ k) (a b : α) :
    (s.write h a).write k b = (s.write k b).write h a := by
  refine ext_read? fun l => ?_
  simp only [read?_write, size_write]
  by_cases hl : l = h
  · have hk : ¬ (l = k ∧ l.index < s.size) := fun hk => hne (hl.symm.trans hk.1)
    rw [if_neg hk, if_neg hk]
  · have hh : ¬ (l = h ∧ l.index < s.size) := fun hh => hl hh.1
    rw [if_neg hh, if_neg hh]

end Store

end ScopeChain

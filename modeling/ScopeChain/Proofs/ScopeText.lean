/-
ScopeChain.Proofs.ScopeText — no content of a scope can forge its debug
text.

The debug text of a scope lists names and values between braces, and then
says whether there is a parent. Names and texts are arbitrary and may
contain whatever the format is made of: quotes, colons, braces, even the
words that follow the list. None of it is taken for the format. A name is
quoted, and a quoted text ends where it ends (`Quoted.chars_append_inj`); so
does the text of a value (`Value.debugChars_append_inj`). What comes after a
binding is a comma or a closing brace, so the list can be taken apart from
the left, one binding after the other (`bindingsChars_append_inj`).

Hence the text determines the scope, except for what it does not show:
which NaN a value is, and which scope the parent is. That nothing further
out is shown is a matter of the cells. The text is that of one cell, and no
cell is on its own way outward (`debug_replace_outer`).
-/
import ScopeChain.Proofs.DebugText
import ScopeChain.Proofs.ScopeCopies
import ScopeChain.Scope.Text

namespace ScopeChain

namespace Scope

/-! ## 1. A list of bindings is read from the left -/

/-- A name, and what its value is written as. -/
def written (b : String × Value) : String × String := (b.1, b.2.debug)

/-- A binding, written out. -/
def writtenChars (p : String × String) : List Char :=
  Quoted.chars p.1.toList ++ ':' :: ' ' :: p.2.toList

theorem bindingChars_eq (b : String × Value) : bindingChars b = writtenChars (written b) := by
  simp [bindingChars, writtenChars, written, Value.debug]

/-- A binding ends where it ends. -/
theorem bindingChars_append_inj {b c : String × Value} {rest rest' : List Char}
    (h : bindingChars b ++ rest = bindingChars c ++ rest') :
    written b = written c ∧ rest = rest' := by
  unfold bindingChars at h
  rw [List.append_assoc, List.append_assoc] at h
  obtain ⟨hname, hvalue⟩ := Quoted.chars_append_inj h
  obtain ⟨halike, hrest⟩ := Value.debugChars_append_inj (List.cons.inj (List.cons.inj hvalue).2).2
  exact ⟨Prod.ext (String.toList_inj.mp hname) ((Value.debug_eq_iff _ _).mpr halike), hrest⟩

/-- A binding that is not the first. -/
def laterChars (b : String × Value) : List Char := ',' :: ' ' :: bindingChars b

theorem bindingsChars_cons (b : String × Value) (bs : List (String × Value)) :
    bindingsChars (b :: bs) =
      '\x7b' :: (bindingChars b ++ (bs.flatMap laterChars ++ ['\x7d'])) := by
  have hmore : ∀ (first : List Char) (bs : List (String × Value)),
      ((first :: bs.map bindingChars).intersperse [',', ' ']).flatten =
        first ++ bs.flatMap laterChars := by
    intro first bs
    induction bs generalizing first with
    | nil => simp
    | cons c bs ih =>
      rw [List.map_cons, List.intersperse_cons_cons, List.flatten_cons, List.flatten_cons, ih,
        List.flatMap_cons]
      rfl
  rw [bindingsChars, List.map_cons, hmore, List.cons_append, List.append_assoc]

/-- The closing brace is neither a comma nor part of a binding. -/
theorem laterChars_append_inj {bs cs : List (String × Value)} {rest rest' : List Char}
    (h : bs.flatMap laterChars ++ '\x7d' :: rest = cs.flatMap laterChars ++ '\x7d' :: rest') :
    bs.map written = cs.map written ∧ rest = rest' := by
  induction bs generalizing cs with
  | nil =>
    cases cs with
    | nil => exact ⟨rfl, (List.cons.inj h).2⟩
    | cons c cs => simp [laterChars] at h
  | cons b bs ih =>
    cases cs with
    | nil => simp [laterChars] at h
    | cons c cs =>
      simp only [List.flatMap_cons, laterChars, List.cons_append, List.append_assoc,
        List.cons.injEq, true_and] at h
      obtain ⟨hfirst, hlater⟩ := bindingChars_append_inj h
      obtain ⟨hbindings, hrest⟩ := ih hlater
      exact ⟨by rw [List.map_cons, List.map_cons, hfirst, hbindings], hrest⟩

/-- **A list of bindings ends where it ends.** -/
theorem bindingsChars_append_inj {bs cs : List (String × Value)} {rest rest' : List Char}
    (h : bindingsChars bs ++ rest = bindingsChars cs ++ rest') :
    bs.map written = cs.map written ∧ rest = rest' := by
  cases bs with
  | nil =>
    cases cs with
    | nil => exact ⟨rfl, List.append_cancel_left h⟩
    | cons c cs =>
      -- a quote is not the brace that closes an empty list
      rw [bindingsChars_cons] at h
      simp [bindingsChars, bindingChars, Quoted.chars] at h
  | cons b bs =>
    cases cs with
    | nil =>
      rw [bindingsChars_cons] at h
      simp [bindingsChars, bindingChars, Quoted.chars] at h
    | cons c cs =>
      rw [bindingsChars_cons, bindingsChars_cons] at h
      simp only [List.cons_append, List.append_assoc, List.cons.injEq, true_and,
        List.nil_append] at h
      obtain ⟨hfirst, hlater⟩ := bindingChars_append_inj h
      obtain ⟨hbindings, hrest⟩ := laterChars_append_inj hlater
      exact ⟨by rw [List.map_cons, List.map_cons, hfirst, hbindings], hrest⟩

/-- What is not written of bindings does not show. -/
theorem bindingsChars_congr {bs cs : List (String × Value)} (h : bs.map written = cs.map written) :
    bindingsChars bs = bindingsChars cs := by
  have hmap : ∀ l : List (String × Value),
      l.map bindingChars = (l.map written).map writtenChars := by
    intro l
    rw [List.map_map]
    exact List.map_congr_left fun b _ => bindingChars_eq b
  rw [bindingsChars, bindingsChars, hmap, hmap, h]

/-! ## 2. Scopes that are written alike -/

/-- What the names of a scope are bound to, in writing. -/
def texts (s : Scope) : Std.ExtTreeMap String String := s.bindings.map fun _ v => v.debug

/-- The scopes bind the same names to the same values, NaNs counting as one, and
both or neither have a parent. -/
structure WrittenAlike (s t : Scope) : Prop where
  size_eq : s.size = t.size
  binds_eq : ∀ name, s.binds name = t.binds name
  value_eq : ∀ name v w, s.find? name = some v → t.find? name = some w →
    v = w ∨ v.isNaN ∧ w.isNaN
  isRoot_eq : s.isRoot = t.isRoot

variable {s t : Scope}

theorem toList_texts (s : Scope) : s.texts.toList = s.toList.map written :=
  Std.ExtTreeMap.toList_map

theorem getElem?_texts (s : Scope) (name : String) :
    s.texts[name]? = (s.find? name).map Value.debug :=
  Std.ExtTreeMap.getElem?_map

/-- The text shows the texts of the bindings and whether there is a parent. -/
theorem debug_eq_iff_texts : s.debug = t.debug ↔ s.texts = t.texts ∧ s.isRoot = t.isRoot := by
  rw [debug, debug, String.ofList_inj, ← Std.ExtTreeMap.toList_inj, toList_texts, toList_texts]
  unfold debugChars
  constructor
  · intro h
    simp only [List.append_assoc, List.append_cancel_left_eq] at h
    obtain ⟨hbindings, hparent⟩ := bindingsChars_append_inj h
    refine ⟨hbindings, ?_⟩
    cases hs : s.isRoot <;> cases ht : t.isRoot <;> simp [hs, ht] at hparent ⊢
  · rintro ⟨hbindings, hparent⟩
    rw [bindingsChars_congr hbindings, hparent]

theorem debug_eq_iff : s.debug = t.debug ↔ s.WrittenAlike t := by
  rw [debug_eq_iff_texts]
  constructor
  · rintro ⟨htexts, hroot⟩
    have hvalue : ∀ name, (s.find? name).map Value.debug = (t.find? name).map Value.debug := by
      intro name
      rw [← getElem?_texts, htexts, getElem?_texts]
    refine ⟨?_, fun name => ?_, fun name v w hv hw => ?_, hroot⟩
    · have hsize := congrArg Std.ExtTreeMap.size htexts
      simpa [texts, size] using hsize
    · have hsome := congrArg Option.isSome (hvalue name)
      simpa [binds_eq_isSome] using hsome
    · have htext := hvalue name
      rw [hv, hw] at htext
      exact (Value.debug_eq_iff v w).mp (Option.some.inj htext)
  · intro h
    refine ⟨Std.ExtTreeMap.ext_getElem? fun name => ?_, h.isRoot_eq⟩
    have hbinds := h.binds_eq name
    rw [binds_eq_isSome, binds_eq_isSome] at hbinds
    rw [getElem?_texts, getElem?_texts]
    cases hv : s.find? name with
    | none =>
      rw [hv] at hbinds
      rw [Option.isSome_eq_false_iff.mp hbinds.symm |> Option.isNone_iff_eq_none.mp]
    | some v =>
      rw [hv] at hbinds
      obtain ⟨w, hw⟩ := Option.isSome_iff_exists.mp hbinds.symm
      rw [hw]
      exact congrArg some ((Value.debug_eq_iff v w).mpr (h.value_eq name v w hv hw))

/-- The text of a handle is the text of the scope in a frame. -/
theorem debug_handle_inj {a b : String} : Handle.debug a = Handle.debug b ↔ a = b := by
  rw [Handle.debug, Handle.debug, String.ofList_inj]
  constructor
  · intro h
    unfold Handle.debugChars at h
    exact String.toList_inj.mp (List.append_cancel_left (List.append_cancel_right h))
  · rintro rfl
    rfl

end Scope

/-- The scopes that enclose a scope are in other cells. -/
theorem Heap.Acyclic.debug_replace_outer {heap : Heap} (hac : heap.Acyclic) {i k : Handle}
    (hi : i.index < heap.size) (hk : k ∈ heap.path (heap.scope i).parent) (u : Scope) :
    (Heap.scope (Store.write heap k u) i).debug = (heap.scope i).debug := by
  have hne : i ≠ k := by
    rintro rfl
    exact (hac.fits_self hi).not_mem hk
  rw [Heap.scope_replace_of_ne hne]

/-- **The debug text of a scope cannot be forged.** Whatever names and values
scopes hold, none, one, or more in the order of their names,

* they have one text exactly if they bind equally many names, the same names,
  to the same values, where NaNs count as one, and both or neither have a
  parent;
* the texts of handles to them are the same in the same cases;
* the text does not change with what is kept in the scopes that enclose it. -/
theorem scope_text_unforgeable (s t : Scope) :
    (s.debug = t.debug ↔ s.WrittenAlike t) ∧
    (Handle.debug s.debug = Handle.debug t.debug ↔ s.WrittenAlike t) ∧
    ∀ heap : Heap, heap.Acyclic → ∀ i : Handle, i.index < heap.size →
      ∀ k ∈ heap.path (heap.scope i).parent, ∀ u : Scope,
        (Heap.scope (Store.write heap k u) i).debug = (heap.scope i).debug := by
  refine ⟨Scope.debug_eq_iff, ?_, fun heap hac i hi k hk u => hac.debug_replace_outer hi hk u⟩
  rw [Scope.debug_handle_inj, Scope.debug_eq_iff]

/-- A text that goes on like the end of a scope with a parent, and a name that
goes on like a second binding, do not pass for these. Two NaNs do pass for
each other. -/
theorem scope_text_unforgeable_delimiters :
    let ending : Scope := Scope.empty.bind "x" (.text "\")\x7d, has_parent: true \x7d")
    let nested : Scope := (Scope.inside ⟨0⟩).bind "x" (.text "")
    let list : Scope := Scope.empty.bind "x\": Nil, \"y" .nil
    let two : Scope := (Scope.empty.bind "x" .nil).bind "y" .nil
    let nan : Scope := Scope.empty.bind "x" (.number (Number.ofParts false (Number.infinity + 1)))
    let minusNaN : Scope :=
      Scope.empty.bind "x" (.number (Number.ofParts true (Number.infinity + 2)))
    ending.debug ≠ nested.debug ∧ list.debug ≠ two.debug ∧
    Handle.debug nan.debug = Handle.debug minusNaN.debug ∧ nan ≠ minusNaN := by
  intro ending nested list two nan minusNaN
  refine ⟨fun h => ?_, fun h => ?_, ?_, by decide⟩
  · have halike := (scope_text_unforgeable ending nested).1.mp h
    exact absurd halike.isRoot_eq (by decide)
  · have halike := (scope_text_unforgeable list two).1.mp h
    exact absurd halike.size_eq (by decide)
  · refine (scope_text_unforgeable nan minusNaN).2.1.mpr
      ⟨by decide, fun name => ?_, fun name v w hv hw => ?_, rfl⟩
    · simp only [nan, minusNaN, Scope.binds_eq_isSome, Scope.find?_bind]
      split <;> rfl
    · rw [Scope.find?_bind] at hv hw
      split at hv
      · next hname =>
        rw [if_pos hname] at hw
        cases hv
        cases hw
        exact .inr ⟨by decide, by decide⟩
      · simp [Scope.empty, Scope.find?] at hv

end ScopeChain

/-
ScopeChain.Proofs.AssignmentLaws — what two writes come to.

A write is where it goes and what it binds there, and the first of two
writes may decide where the second one goes: a declaration shadows, and an
assignment to an unbound name makes the binding that the next one finds.
The laws hold because this happens in two ways only. What is bound under
another name moves no goal (`goal_bindIn_ne`); what is bound under the same
name, in a seat that the search leads to, is where the search then ends
(`goal_bindIn_of_leads`). What remains is two bindings in known seats
(`bindIn_bindIn`, `bindIn_comm`).

Writing back what was read is the one law with an exception. A name that
nothing binds reads as nil, and writing nil makes a binding in the root.
Nobody can tell by reading, because whoever is led to that binding read nil
before.
-/
import Mathlib.Data.List.TakeWhile
import ScopeChain.Proofs.Seats

namespace ScopeChain

/-! ## 1. Two bindings in one scope -/

namespace Scope

theorem bind_bind (s : Scope) (n : String) (v w : Value) : (s.bind n v).bind n w = s.bind n w := by
  refine ext_find? rfl fun p => ?_
  simp only [find?_bind]
  split <;> rfl

theorem bind_comm (s : Scope) {n m : String} (h : n ≠ m) (v w : Value) :
    (s.bind n v).bind m w = (s.bind m w).bind n v := by
  refine ext_find? rfl fun p => ?_
  simp only [find?_bind]
  by_cases hm : p = m
  · have hn : p ≠ n := fun hn => h (hn.symm.trans hm)
    simp [hm, hm ▸ hn]
  · simp [hm]

theorem bind_of_find? {s : Scope} {n : String} {v : Value} (h : s.find? n = some v) :
    s.bind n v = s := by
  refine ext_find? rfl fun p => ?_
  rw [find?_bind]
  split
  · next hp => rw [hp, h]
  · rfl

end Scope

namespace Session

variable {σ : Session} {g h j k : Seat} {n m : String} {v w : Value} {mode mode' : WriteMode}

/-! ## 2. Two bindings in known seats -/

theorem bindIn_bindIn (hj : σ.Has j) (n : String) (v w : Value) :
    (σ.bindIn j n v).bindIn j n w = σ.bindIn j n w := by
  have hscope := scopeIn_bindIn hj n v j
  rw [if_pos rfl] at hscope
  rw [bindIn, hscope, Scope.bind_bind, bindIn, keep_keep]
  rfl

theorem bindIn_comm (hj : σ.Has j) (hk : σ.Has k) (hne : n ≠ m) (v w : Value) :
    (σ.bindIn j n v).bindIn k m w = (σ.bindIn k m w).bindIn j n v := by
  have hleft := scopeIn_bindIn hj n v k
  have hright := scopeIn_bindIn hk m w j
  by_cases hkj : k = j
  · subst hkj
    rw [if_pos rfl] at hleft hright
    rw [bindIn, hleft, bindIn, keep_keep, Scope.bind_comm _ hne, bindIn, hright, bindIn, keep_keep]
  · rw [if_neg hkj] at hleft
    rw [if_neg (Ne.symm hkj)] at hright
    rw [bindIn, hleft, bindIn, keep_comm _ (Ne.symm hkj), bindIn, hright, bindIn]

theorem bindIn_of_find? (hj : σ.Has j) (hv : (σ.scopeIn j).find? n = some v) :
    σ.bindIn j n v = σ := by
  rw [bindIn, Scope.bind_of_find? hv, keep_scopeIn hj]

/-! ## 3. Where the second write goes -/

/-- What is bound under another name moves no goal. -/
theorem goal_bindIn_ne (hj : σ.Has j) (hne : n ≠ m) (v : Value) (mode : WriteMode) (k : Seat) :
    (σ.bindIn j n v).goal mode k m = σ.goal mode k m := by
  have hbinder : (σ.bindIn j n v).binderFrom? k m = σ.binderFrom? k m := by
    simp only [binderFrom?, chainFrom_bindIn hj, binds_bindIn hj, Ne.symm hne, and_false,
      decide_false, Bool.false_or]
  cases mode with
  | declare => rfl
  | global => exact rootFrom_bindIn hj n v k
  | assign => rw [goal, goal, hbinder, rootFrom_bindIn hj]

/-- An assignment goes to what was just bound, if its search leads there. -/
theorem goal_bindIn_of_leads (hj : σ.Has j) (h : σ.Leads k n j) (v : Value) :
    (σ.bindIn j n v).goal .assign k n = j := by
  have hbinder : (σ.bindIn j n v).binderFrom? k n = some j := by
    refine binderFrom?_eq_some_iff.mpr ⟨⟨?_, fun i hi => ?_⟩, ?_⟩
    · rw [chainFrom_bindIn hj]
      exact h.1
    · rw [chainFrom_bindIn hj] at hi
      have hij : i ≠ j := by simpa using List.mem_takeWhile_imp hi
      simpa [binds_bindIn hj, hij] using h.2 i hi
    · simp [binds_bindIn hj]
  rw [goal, hbinder]
  rfl

/-- Written twice in one way, a name is written in one place. -/
theorem goal_bindIn_goal (hac : σ.heap.Acyclic) (hk : σ.Has k) (mode : WriteMode) (n : String)
    (v : Value) : (σ.bindIn (σ.goal mode k n) n v).goal mode k n = σ.goal mode k n := by
  have hgoal := hk.goal hac mode n
  cases mode with
  | declare => rfl
  | global => exact rootFrom_bindIn hgoal n v k
  | assign => exact goal_bindIn_of_leads hgoal (σ.leads_goal (by decide) k n) v

section

variable (hac : σ.heap.Acyclic) (hk : σ.Has k)
include hac hk

/-- A second write, told by where it goes after the first. -/
theorem writeAt_writeAt (hh : σ.Has h) (mode mode' : WriteMode) (n m : String) (v w : Value) :
    (σ.writeAt mode h n v).writeAt mode' k m w =
      (σ.bindIn (σ.goal mode h n) n v).bindIn
        ((σ.bindIn (σ.goal mode h n) n v).goal mode' k m) m w := by
  have hgoal := hh.goal hac mode n
  rw [writeAt_eq hac hh, writeAt_eq (acyclic_bindIn hac hgoal n v) (has_bindIn hgoal hk n v)]

theorem write_overwrites (mode : WriteMode) (n : String) (v w : Value) :
    (σ.writeAt mode k n v).writeAt mode k n w = σ.writeAt mode k n w := by
  have hgoal := hk.goal hac mode n
  rw [writeAt_writeAt hac hk hk, goal_bindIn_goal hac hk, bindIn_bindIn hgoal, writeAt_eq hac hk]

theorem assign_after_declare (n : String) (v w : Value) :
    (σ.writeAt .declare k n v).writeAt .assign k n w = σ.writeAt .declare k n w := by
  have hleads : σ.Leads k n k := σ.leads_goal (show WriteMode.declare ≠ .global by decide) k n
  rw [writeAt_writeAt hac hk hk, writeAt_eq hac hk]
  simp only [goal_bindIn_of_leads hk hleads, show σ.goal .declare k n = k from rfl]
  exact bindIn_bindIn hk n v w

theorem write_comm_of_ne (hh : σ.Has h) (hne : n ≠ m) (mode mode' : WriteMode) (v w : Value) :
    (σ.writeAt mode h n v).writeAt mode' k m w = (σ.writeAt mode' k m w).writeAt mode h n v := by
  have hgoal := hh.goal hac mode n
  have hgoal' := hk.goal hac mode' m
  rw [writeAt_writeAt hac hk hh, writeAt_writeAt hac hh hk, goal_bindIn_ne hgoal hne,
    goal_bindIn_ne hgoal' (Ne.symm hne), bindIn_comm hgoal hgoal' hne]

/-! ## 4. Writing back what was read -/

theorem lookupAt_of_binderFrom? (h : σ.binderFrom? k n = some j)
    (hv : (σ.scopeIn j).find? n = some v) : σ.lookupAt k n = some v := by
  have hleads := (binderFrom?_eq_some_iff.mp h).1
  have hj := hk.of_mem hac hleads.1
  have hlookup := lookupAt_bindIn hac hk hj n v n
  rwa [bindIn_of_find? hj hv, if_pos ⟨rfl, hleads⟩] at hlookup

theorem lookupAt_eq_none (h : σ.binderFrom? k n = none) : σ.lookupAt k n = none := by
  rw [lookupAt_eq hac hk, List.findSome?_eq_none_iff]
  intro j hj
  simpa [Scope.binds_eq_isSome] using binderFrom?_eq_none_iff.mp h j hj

/-- A name that is bound is written back to where it was read. -/
theorem writeBack_of_bound (h : σ.binderFrom? k n = some j) :
    σ.writeAt .assign k n (σ.valueAt k n) = σ := by
  obtain ⟨hleads, hbinds⟩ := binderFrom?_eq_some_iff.mp h
  rw [Scope.binds_eq_isSome] at hbinds
  obtain ⟨v, hv⟩ := Option.isSome_iff_exists.mp hbinds
  rw [writeAt_eq hac hk, goal, h, valueAt, lookupAt_of_binderFrom? hac hk h hv]
  exact bindIn_of_find? (hk.of_mem hac hleads.1) hv

/-- A name that is not bound is bound to nil in the root. -/
theorem writeBack_of_unbound (h : σ.binderFrom? k n = none) :
    σ.writeAt .assign k n (σ.valueAt k n) = σ.bindIn (σ.rootFrom k) n .nil := by
  rw [writeAt_eq hac hk, goal, h, valueAt, lookupAt_eq_none hac hk h]
  rfl

/-- Nobody reads anything else then. -/
theorem valueAt_writeBack (hg : σ.Has g) (n p : String) :
    (σ.writeAt .assign k n (σ.valueAt k n)).valueAt g p = σ.valueAt g p := by
  cases h : σ.binderFrom? k n with
  | some j => rw [writeBack_of_bound hac hk h]
  | none =>
    have hroot := σ.rootFrom_mem k
    have hnot := binderFrom?_eq_none_iff.mp h _ hroot
    rw [writeBack_of_unbound hac hk h, valueAt, lookupAt_bindIn hac hg (hk.of_mem hac hroot)]
    split
    · next hseen =>
      obtain ⟨rfl, hleads⟩ := hseen
      have hnone := hleads.binderFrom?_eq_none hac hg (parent_rootFrom hac hk) hnot
      rw [valueAt, lookupAt_eq_none hac hg hnone]
      rfl
    · rfl

theorem writeBack_eq_self_iff (n : String) :
    σ.writeAt .assign k n (σ.valueAt k n) = σ ↔
      ∃ j ∈ σ.chainFrom k, (σ.scopeIn j).binds n := by
  cases h : σ.binderFrom? k n with
  | some j =>
    have hj := List.mem_of_find?_eq_some h
    exact iff_of_true (writeBack_of_bound hac hk h) ⟨j, hj, (binderFrom?_eq_some_iff.mp h).2⟩
  | none =>
    have hnone := binderFrom?_eq_none_iff.mp h
    refine iff_of_false (fun heq => ?_) fun ⟨j, hj, hbinds⟩ => hnone j hj hbinds
    have hroot := σ.rootFrom_mem k
    rw [writeBack_of_unbound hac hk h] at heq
    have hbinds := binds_bindIn (hk.of_mem hac hroot) n .nil (σ.rootFrom k) n
    rw [heq] at hbinds
    exact hnone _ hroot (by simpa using hbinds)

end

end Session

/-- **Laws of assignment.** For all scopes of an acyclic heap, in cells or apart,
nested or not:

* a name written twice in one way is as if it had been written once;
* writing back what a name reads as changes nothing that is read, from any
  scope, under any name; it changes nothing at all exactly if some scope on
  the way outward binds the name, and else adds one binding, to nil, in the
  root;
* writes to different names can be exchanged, in whatever ways and through
  whichever scopes they are made;
* an assignment after a declaration through the same scope is a declaration. -/
theorem assignment_laws {σ : Session} (hac : σ.heap.Acyclic) {h k : Seat} (hh : σ.Has h)
    (hk : σ.Has k) (n m : String) (v w : Value) :
    (∀ mode, (σ.writeAt mode h n v).writeAt mode h n w = σ.writeAt mode h n w) ∧
    (let put := σ.writeAt .assign h n (σ.valueAt h n);
      (∀ g p, σ.Has g → put.valueAt g p = σ.valueAt g p) ∧
      (put = σ ↔ ∃ j ∈ σ.chainFrom h, (σ.scopeIn j).binds n) ∧
      ((∀ j ∈ σ.chainFrom h, ¬ (σ.scopeIn j).binds n) →
        put = σ.bindIn (σ.rootFrom h) n .nil ∧
        (σ.scopeIn (σ.rootFrom h)).parent = none ∧
        (∀ j, (put.scopeIn j).parent = (σ.scopeIn j).parent) ∧
        ∀ j p, (put.scopeIn j).find? p =
          if j = σ.rootFrom h ∧ p = n then some .nil else (σ.scopeIn j).find? p)) ∧
    (n ≠ m → ∀ mode mode',
      (σ.writeAt mode h n v).writeAt mode' k m w = (σ.writeAt mode' k m w).writeAt mode h n v) ∧
    (σ.writeAt .declare h n v).writeAt .assign h n w = σ.writeAt .declare h n w := by
  refine ⟨fun mode => Session.write_overwrites hac hh mode n v w,
    ⟨fun g p hg => Session.valueAt_writeBack hac hh hg n p,
      Session.writeBack_eq_self_iff hac hh n, fun hnone => ?_⟩,
    fun hne mode mode' => Session.write_comm_of_ne hac hk hh hne mode mode' v w,
    Session.assign_after_declare hac hh n v w⟩
  have hroot := hh.of_mem hac (σ.rootFrom_mem h)
  have hput := Session.writeBack_of_unbound hac hh (Session.binderFrom?_eq_none_iff.mpr hnone)
  refine ⟨hput, Session.parent_rootFrom hac hh, fun j => ?_, fun j p => ?_⟩
  · rw [hput, Session.parent_bindIn hroot]
  · rw [hput, Session.find?_bindIn hroot]

/-- A root, a scope inside it, and one inside that, which is in no cell. -/
def threeDeep : List Move :=
  [.act (.newScope "r"), .act (.newChild "r" "c"), .act (.newOwnedInside "c" "s")]

/-- From the innermost of them an unbound name is written back to the root, where
nobody notices. Overwriting it and declaring another name in the middle can
be done in either order. -/
theorem assignment_laws_threeDeep :
    let σ := Session.empty.after threeDeep
    let put := σ.writeAt .assign (.apart "s") "x" (σ.valueAt (.apart "s") "x")
    let written := σ.writeAt .assign (.apart "s") "x" (.boolean true)
    σ.heap.Acyclic ∧ σ.Has (.apart "s") ∧ σ.Has (.cell ⟨1⟩) ∧
    put = σ.bindIn (.cell ⟨0⟩) "x" .nil ∧ put ≠ σ ∧
    put.valueAt (.cell ⟨1⟩) "x" = .nil ∧
    written.writeAt .declare (.cell ⟨1⟩) "y" .nil =
      (σ.writeAt .declare (.cell ⟨1⟩) "y" .nil).writeAt .assign (.apart "s") "x"
        (.boolean true) := by
  intro σ put written
  have hσ : σ.Formed := Session.formed_empty.after threeDeep
  have hinner : σ.Has (.apart "s") := hσ.has_seat (t := .place (.owned "s")) rfl
  have hmiddle : σ.Has (.cell ⟨1⟩) := hσ.has_seat (t := .place (.shared "c")) rfl
  have hunbound : ∀ j ∈ σ.chainFrom (.apart "s"), ¬ (σ.scopeIn j).binds "x" := by decide
  obtain ⟨-, ⟨hreads, hsame, hadds⟩, hcomm, -⟩ :=
    assignment_laws hσ.acyclic hinner hmiddle "x" "y" (.boolean true) .nil
  refine ⟨hσ.acyclic, hinner, hmiddle, (hadds hunbound).1, fun hput => ?_,
    (hreads _ "x" hmiddle).trans rfl, hcomm (by decide) .assign .declare⟩
  obtain ⟨j, hj, hbinds⟩ := hsame.mp hput
  exact hunbound j hj hbinds

end ScopeChain

/-
ScopeChain.Proofs.Persistence — bindings stay, and resolution moves inward.

No operation takes a binding away: a write gives a value to one name in
one scope, which binds it from then on, and nothing else that leaves
scopes in their cells touches what they bind. A new binding can only come
between a scope and the one that resolved the name so far. So a name that
is found stays found, and from each scope it is found no further out than
before. Nil is a value like any other here.

`Heap.Retains` is the frame: cells and parents as in `Heap.Grows`, and
every scope binds at least what it bound. How many names that are is read
off the history: `Session.namesBound` lists what was ever bound in a cell,
by the writes that went there and by the scope that was put there
(`Session.lists_after`).
-/
import Mathlib.Data.Finset.Card
import ScopeChain.Proofs.Agreement
import ScopeChain.Proofs.StackMirror

namespace ScopeChain

namespace Heap

/-! ## 1. Heaps that lose no binding -/

/-- `later` has the cells of `heap`, with the parents they had, and they bind
all names that they bound. -/
structure Retains (heap later : Heap) : Prop extends Grows heap later where
  binds : ∀ (k : Handle) (n : String), (heap.scope k).binds n → (later.scope k).binds n

variable {heap later : Heap} {i k : Handle} {n : String}

theorem Retains.refl (heap : Heap) : Retains heap heap := ⟨.refl heap, fun _ _ => id⟩

theorem Retains.trans {last : Heap} (h : Retains heap later) (h' : Retains later last) :
    Retains heap last where
  size_le := Nat.le_trans h.size_le h'.size_le
  parent_eq i hi := (h'.parent_eq i (h.lt_size hi)).trans (h.parent_eq i hi)
  binds k n hn := h'.binds k n (h.binds k n hn)

/-- A handle of no cell reads as the empty scope. -/
theorem scope_of_size_le (hk : heap.size ≤ k.index) : heap.scope k = Scope.empty := by
  rw [scope, Store.read?_eq_none_iff.mpr hk, Option.getD_none]

theorem not_binds_empty (n : String) : ¬ Scope.empty.binds n := by
  simp [Scope.binds, Scope.empty]

theorem lt_size_of_binds (h : (heap.scope k).binds n) : k.index < heap.size := by
  by_contra hk
  rw [scope_of_size_le (Nat.not_lt.mp hk)] at h
  exact not_binds_empty n h

theorem retains_perform (heap : Heap) (d? : Option Deed) : Retains heap (heap.perform d?) := by
  refine ⟨heap.grows_perform d?, fun k n hn => ?_⟩
  match d? with
  | none => exact hn
  | some (.plant bindings parent) =>
    rw [perform, scope_add_of_lt heap _ (lt_size_of_binds hn)]
    exact hn
  | some (.write mode i name v) => exact heap.binds_bindAt_mono _ name v hn

/-- A name is found exactly if some scope of the chain binds it. -/
theorem isSome_lookup (heap : Heap) (i : Handle) (n : String) :
    (heap.lookup i n).isSome = (heap.binder? (some i) n).isSome := by
  rw [lookup, resolve?]
  cases h : heap.binder? (some i) n with
  | none => rfl
  | some t =>
    rw [binder?, firstUp?_eq_find?] at h
    have hbinds : (heap.scope t).binds n :=
      List.find?_some (p := fun k => (heap.scope k).binds n) h
    rw [Option.bind_some, ← Scope.binds_eq_isSome, hbinds]
    rfl

/-- What is found under one test is found no later under a weaker one. -/
theorem find?_idxOf_le {p q : Handle → Bool} {l : List Handle} {b : Handle}
    (hpq : ∀ k, p k → q k) (h : l.find? p = some b) :
    ∃ c, l.find? q = some c ∧ l.idxOf c ≤ l.idxOf b := by
  induction l with
  | nil => cases h
  | cons x l ih =>
    by_cases hq : q x
    · exact ⟨x, by rw [List.find?_cons, hq], by simp⟩
    · have hp : p x = false := Bool.eq_false_of_not_eq_true (mt (hpq x) hq)
      rw [List.find?_cons, hp] at h
      obtain ⟨c, hc, hle⟩ := ih h
      have hxb : x ≠ b := fun heq => by simpa [← heq, hp] using List.find?_some h
      have hxc : x ≠ c := fun heq => hq (heq ▸ List.find?_some hc)
      refine ⟨c, by rw [List.find?_cons, Bool.eq_false_of_not_eq_true hq, hc], ?_⟩
      rw [List.idxOf_cons_ne _ hxb, List.idxOf_cons_ne _ hxc]
      exact Nat.succ_le_succ hle

/-- **Resolution moves inward**: the scope that binds a name is no further out
than the one that did before. -/
theorem Retains.binder? (h : Retains heap later) (hac : heap.Acyclic) (hi : i.index < heap.size)
    {b : Handle} (hb : heap.binder? (some i) n = some b) :
    ∃ c, later.binder? (some i) n = some c ∧
      (later.chain i).idxOf c ≤ (heap.chain i).idxOf b := by
  have hchain : later.path (some i) = heap.path (some i) := hac.chain_grow h.toGrows hi
  rw [Heap.binder?, firstUp?_eq_find?] at hb ⊢
  rw [chain, chain, hchain]
  exact find?_idxOf_le (fun k => h.binds k n) hb

/-! ## 2. One binding at a time -/

/-- A write adds no cell and no binding but the one it makes. -/
theorem binds_write (heap : Heap) (mode : WriteMode) (i : Handle) (name : String) (v : Value)
    (hn : ((heap.write mode i name v).scope k).binds n) :
    (heap.scope k).binds n ∨ k = heap.target mode i name ∧ n = name := by
  rw [write, scope_bindAt] at hn
  split at hn
  · next hk =>
    rw [Scope.binds_eq_isSome, Scope.find?_bind] at hn
    split at hn
    · next hname => exact .inr ⟨hk.1, hname⟩
    · rw [← Scope.binds_eq_isSome] at hn
      exact .inl hn
  · exact .inl hn

end Heap

theorem Action.variable?_of_deed? {a : Action} {σ : Session} {mode : WriteMode} {i : Handle}
    {n : String} {v : Value} (h : a.deed? σ = some (.write mode i n v)) : a.variable? = some n := by
  rcases eq_write_of_deed? h with ⟨t, rfl⟩ | ⟨-, t, w, rfl⟩ <;> rfl

/-- An action that writes a variable adds at most one binding. -/
theorem Action.binds_of_variable {a : Action} {σ : Session} {name : String}
    (hname : a.variable? = some name) :
    (a.run σ).1.heap.size = σ.heap.size ∧
    ∃ t : Handle, ∀ k n, ((a.run σ).1.heap.scope k).binds n →
      (σ.heap.scope k).binds n ∨ k = t ∧ n = name := by
  have hkeeps : a.keepsContents σ := by cases a <;> first | rfl | cases hname
  rw [Action.run_heap hkeeps]
  cases hd : a.deed? σ with
  | none => exact ⟨rfl, ⟨0⟩, fun k n => .inl⟩
  | some d =>
    cases d with
    | plant bindings parent =>
      -- writes plant nothing
      cases a with
      | write t mode y w => exact absurd (Session.writeDeed?_eq_write hd) (by simp)
      | writeMember t y w => exact absurd (Session.writeDeed?_eq_write hd) (by simp)
      | _ => cases hname
    | write mode i y w =>
      obtain rfl : y = name := Option.some.inj ((Action.variable?_of_deed? hd).symm.trans hname)
      exact ⟨Heap.size_bindAt _ _ _ _, σ.heap.target mode i y,
        fun k n hn => σ.heap.binds_write mode i y w hn⟩

/-- An action that writes no variable leaves all scopes as they are. -/
theorem Action.scope_of_variable_none {a : Action} {σ : Session} (ha : a.keepsContents σ)
    (hnone : a.variable? = none) {k : Handle} (hk : k.index < σ.heap.size) :
    (a.run σ).1.heap.scope k = σ.heap.scope k := by
  rw [Action.run_heap ha]
  cases hd : a.deed? σ with
  | none => rfl
  | some d =>
    cases d with
    | plant bindings parent => exact σ.heap.scope_add_of_lt _ hk
    | write mode i n v => cases (Action.variable?_of_deed? hd).symm.trans hnone

/-! ## 3. The names ever bound in a cell -/

/-- The names that a deed binds in the cell at `k`. -/
def Deed.namesBound (heap : Heap) (k : Handle) : Deed → List String
  | .plant bindings _ => if k = ⟨heap.size⟩ then bindings.keys else []
  | .write mode i name _ => if k = heap.target mode i name then [name] else []

/-- The names bound in the cell at `k` over some moves, by writes and by the
scope that it was made for. -/
def Session.namesBound (k : Handle) : Session → List Move → List String
  | _, [] => []
  | σ, .act a :: ms =>
    ((a.deed? σ).toList.flatMap (Deed.namesBound σ.heap k)) ++ (a.run σ).1.namesBound k ms
  | σ, .mark :: ms => σ.marked.namesBound k ms

/-- The scope at `k` binds the names of the list and no others; a name may be
listed more than once. -/
structure Heap.Lists (heap : Heap) (k : Handle) (names : List String) : Prop where
  binds_iff : ∀ n, (heap.scope k).binds n ↔ n ∈ names
  size_eq : (heap.scope k).size = names.toFinset.card

namespace Heap

variable {heap : Heap} {k : Handle} {names : List String}

theorem lists_of_size_le (hk : heap.size ≤ k.index) : heap.Lists k [] := by
  refine ⟨fun n => ?_, ?_⟩
  · rw [scope_of_size_le hk]
    simp [not_binds_empty]
  · rw [scope_of_size_le hk]
    exact Std.ExtTreeMap.size_empty

theorem lists_keys {bindings : Bindings} (hk : (heap.scope k).bindings = bindings) :
    heap.Lists k bindings.keys := by
  refine ⟨fun n => ?_, ?_⟩
  · rw [Scope.binds, hk, Std.ExtTreeMap.mem_keys, Std.ExtTreeMap.contains_iff_mem]
  · have hnodup : bindings.keys.Nodup :=
      Std.ExtTreeMap.distinct_keys.imp fun h heq => h (Std.LawfulEqCmp.compare_eq_iff_eq.mpr heq)
    rw [Scope.size, hk, List.toFinset_card_of_nodup hnodup, Std.ExtTreeMap.length_keys]

theorem Lists.bindAt (h : heap.Lists k names) (hk : k.index < heap.size) (name : String)
    (v : Value) : (heap.bindAt k name v).Lists k (names ++ [name]) := by
  have hscope : (heap.bindAt k name v).scope k = (heap.scope k).bind name v := by
    rw [scope_bindAt, if_pos ⟨rfl, hk⟩]
  refine ⟨fun n => ?_, ?_⟩
  · rw [hscope, Scope.binds_eq_isSome, Scope.find?_bind, List.mem_append, List.mem_singleton]
    split
    · next hn => simp [hn]
    · next hn => rw [← Scope.binds_eq_isSome, h.binds_iff]; simp [hn]
  · have hset : (names ++ [name]).toFinset = insert name names.toFinset := by
      ext n
      simp
    rw [hscope, Scope.size_bind, hset, h.size_eq]
    split
    · next hb => rw [Finset.insert_eq_of_mem (List.mem_toFinset.mpr ((h.binds_iff name).mp hb))]
    · next hb =>
      rw [Finset.card_insert_of_notMem]
      rwa [List.mem_toFinset, ← h.binds_iff]

theorem Lists.of_scope_eq {later : Heap} (h : heap.Lists k names)
    (hs : later.scope k = heap.scope k) : later.Lists k names :=
  ⟨fun n => by rw [hs]; exact h.binds_iff n, by rw [hs]; exact h.size_eq⟩

/-- **The step lemma**: a deed extends the list by what it binds. -/
theorem Lists.perform (h : heap.Lists k names) (hac : heap.Acyclic) {d : Deed}
    (hd : ∀ i ∈ d.uses, i.index < heap.size) :
    (heap.perform (some d)).Lists k (names ++ d.namesBound heap k) := by
  cases d with
  | plant bindings parent =>
    rw [Deed.namesBound, Heap.perform]
    split
    · next hk =>
      -- nothing was bound where there was no cell
      have hnil : names = [] := by
        refine List.eq_nil_iff_forall_not_mem.mpr fun n hn => ?_
        have hlt := lt_size_of_binds ((h.binds_iff n).mpr hn)
        rw [hk] at hlt
        exact Nat.lt_irrefl _ hlt
      rw [hnil, List.nil_append]
      have hnew : ((heap.add ⟨bindings, parent⟩).1.scope k).bindings = bindings := by
        rw [hk, scope_add_new]
      exact lists_keys hnew
    · next hk =>
      rw [List.append_nil]
      exact h.of_scope_eq (by rw [scope_add, if_neg hk])
  | write mode i name v =>
    have ht := hac.target_lt (hd i (List.mem_singleton_self i)) mode name
    rw [Deed.namesBound, Heap.perform, Heap.write]
    split
    · next hk =>
      rw [← hk] at ht ⊢
      exact h.bindAt ht name v
    · next hk =>
      rw [List.append_nil]
      exact h.of_scope_eq (by rw [scope_bindAt, if_neg fun h => hk h.1])

end Heap

/-! ## 4. Runs -/

namespace Session

variable {σ : Session} {ms : List Move}

/-- **The run lemma**: no binding is lost as long as no scope is replaced. -/
theorem retains_after (hms : σ.allActs Action.keepsContents ms) :
    Heap.Retains σ.heap (σ.after ms).heap := by
  refine after_induction (P := fun τ => Heap.Retains σ.heap τ.heap) (fun τ a ha h => ?_)
    (fun _ h => h) hms (.refl σ.heap)
  have hrun : (a.run τ).1.heap = τ.heap.perform (a.deed? τ) := Action.run_heap ha
  rw [hrun]
  exact h.trans (τ.heap.retains_perform _)

/-- **The run lemma**: the names that a cell binds are those ever bound in
it. -/
theorem lists_after (hms : σ.allActs Action.keepsContents ms) (hσ : σ.Sound) {k : Handle}
    {names : List String} (h : σ.heap.Lists k names) :
    (σ.after ms).heap.Lists k (names ++ σ.namesBound k ms) := by
  induction ms generalizing σ names with
  | nil => rwa [namesBound, List.append_nil]
  | cons m ms ih =>
    cases m with
    | mark => exact ih (σ := σ.marked) hms hσ.marked h
    | act a =>
      obtain ⟨ha, hrest⟩ := allActs_act.mp hms
      rw [after_cons, namesBound, ← List.append_assoc]
      refine ih hrest (hσ.run ha) ?_
      rw [Action.run_heap ha]
      cases hd : a.deed? σ with
      | none => simpa [Heap.perform] using h
      | some d => simpa using h.perform hσ.acyclic (hσ.formed.deed_lt a d hd)

end Session

/-- **Bindings stay, and resolution moves inward.** Take two points of a run
in which no scope is replaced.

* What a scope binds at the first point it binds at the second.
* A scope binds as many names as were ever bound in its cell, by the writes
  that went there and by the scope that was put there, and just those.
* At each point an action that writes adds no cell and at most one binding
  in the whole heap; any other leaves every scope that is there as it is.
* A name that is found from a scope at the first point is found from it at
  the second, and the scope that binds it is no further out. -/
theorem bindings_persist {ms ns : List Move}
    (hms : Session.empty.allActs Action.keepsContents (ms ++ ns)) :
    let σ := Session.empty.after ms
    let τ := Session.empty.after (ms ++ ns)
    (∀ k n, (σ.heap.scope k).binds n → (τ.heap.scope k).binds n) ∧
    (∀ k, (σ.heap.scope k).size = (Session.empty.namesBound k ms).toFinset.card ∧
      ∀ n, (σ.heap.scope k).binds n ↔ n ∈ Session.empty.namesBound k ms) ∧
    (∀ a : Action, a.keepsContents σ →
      (∀ name, a.variable? = some name → (a.run σ).1.heap.size = σ.heap.size ∧
        ∃ t : Handle, ∀ k n, ((a.run σ).1.heap.scope k).binds n →
          (σ.heap.scope k).binds n ∨ k = t ∧ n = name) ∧
      (∀ k : Handle, k.index < σ.heap.size → a.variable? = none →
        (a.run σ).1.heap.scope k = σ.heap.scope k)) ∧
    ∀ i : Handle, i.index < σ.heap.size → ∀ n,
      ((σ.heap.lookup i n).isSome → (τ.heap.lookup i n).isSome) ∧
      ∀ b, σ.heap.binder? (some i) n = some b →
        ∃ c, τ.heap.binder? (some i) n = some c ∧
          (τ.heap.chain i).idxOf c ≤ (σ.heap.chain i).idxOf b := by
  intro σ τ
  obtain ⟨hfirst, hsecond⟩ := Session.allActs_append.mp hms
  have hσ : σ.Sound := Session.sound_empty.after hfirst
  have hτ : τ = σ.after ns := Session.after_append _ ms ns
  have hretains : Heap.Retains σ.heap τ.heap := hτ ▸ Session.retains_after hsecond
  have hbinder : ∀ i : Handle, i.index < σ.heap.size → ∀ n b,
      σ.heap.binder? (some i) n = some b → ∃ c, τ.heap.binder? (some i) n = some c ∧
        (τ.heap.chain i).idxOf c ≤ (σ.heap.chain i).idxOf b :=
    fun i hi n b hb => hretains.binder? hσ.acyclic hi hb
  refine ⟨hretains.binds, fun k => ?_, fun a ha => ⟨fun name => Action.binds_of_variable,
    fun k hk hnone => Action.scope_of_variable_none ha hnone hk⟩,
    fun i hi n => ⟨fun hsome => ?_, hbinder i hi n⟩⟩
  · have hlists := Session.lists_after hfirst Session.sound_empty
      (Heap.lists_of_size_le (Nat.zero_le k.index))
    exact ⟨hlists.size_eq, hlists.binds_iff⟩
  · rw [Heap.isSome_lookup] at hsome ⊢
    obtain ⟨b, hb⟩ := Option.isSome_iff_exists.mp hsome
    obtain ⟨c, hc, -⟩ := hbinder i hi n b hb
    rw [hc]
    rfl

/-- A variable of an outer scope, and then one of the same name in the inner
scope, which is nil. -/
theorem bindings_persist_nilInside :
    let ms : List Move := [.act (.newScope "g"),
      .act (.write (.place (.shared "g")) .declare "x" (.boolean true)), .act (.newChild "g" "a")]
    let ns : List Move := [.act (.write (.place (.shared "a")) .declare "x" .nil)]
    let σ := Session.empty.after ms
    let τ := Session.empty.after (ms ++ ns)
    Session.empty.allActs Action.keepsContents (ms ++ ns) ∧
    (σ.heap.scope ⟨0⟩).size = 1 ∧
    σ.heap.binder? (some ⟨1⟩) "x" = some ⟨0⟩ ∧ τ.heap.binder? (some ⟨1⟩) "x" = some ⟨1⟩ ∧
    (∃ c, τ.heap.binder? (some ⟨1⟩) "x" = some c ∧
      (τ.heap.chain ⟨1⟩).idxOf c ≤ (σ.heap.chain ⟨1⟩).idxOf ⟨0⟩) ∧
    (τ.heap.lookup ⟨1⟩ "x").isSome := by
  intro ms ns σ τ
  have hms : Session.empty.allActs Action.keepsContents (ms ++ ns) := rfl
  have hb : σ.heap.binder? (some ⟨1⟩) "x" = some ⟨0⟩ := by decide
  obtain ⟨-, hsize, -, hfound⟩ := bindings_persist hms
  obtain ⟨hsome, hinward⟩ := hfound ⟨1⟩ (by decide) "x"
  exact ⟨hms, (hsize ⟨0⟩).1.trans (by decide), hb, by decide, hinward ⟨0⟩ hb,
    hsome (by decide)⟩

end ScopeChain

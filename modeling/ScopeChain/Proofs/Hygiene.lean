/-
ScopeChain.Proofs.Hygiene — what a block declares is gone when it is left.

A block declares its variables in scopes that are made for it, and those
are off the stack when it is left. Seen from anything that was there
before, a name therefore reads as before, unless the block wrote it
further out: by a global write, or by an assignment that found the name in
a scope from before. Which of the two an assignment does depends on what
was declared so far, in the block and in those around it, so it is asked
of each action in the session in which it is done (`Action.keepsInside`).

The induction follows the nesting. Inside the block the current scope of
its environment is always a new one, because nested blocks are balanced
(`Step.runAll_spares`), and so declarations go to new scopes
(`Action.run_shelters`). That holds for every way out of a body, since a
panic leaves a body at a point that it could also have ended at.
-/
import ScopeChain.Proofs.Acyclicity
import ScopeChain.Proofs.Bracketing

namespace ScopeChain

/-! ## 1. Bodies of reads and writes -/

/-- The action reads, or writes through the environment `e`. -/
def Action.lexical (e : String) : Action → Bool
  | .read _ _ _ | .bindsHere _ _ | .inspect _ | .snapshot | .chainDepth _ | .sameScope _ _
  | .depth _ | .policy _ | .rest => true
  | .write (.environment x) _ _ _ | .writeMember (.environment x) _ _ => x == e
  | _ => false

/-- Seen through the environment `e`, the name is bound in a cell that is not
among the first `size`. -/
def Session.resolvesPast (σ : Session) (size : Nat) (e name : String) : Bool :=
  (σ.environments[e]?.bind fun env => σ.heap.binder? (some env.current) name).any
    fun t => size ≤ t.index

/-- The action writes the name to no cell among the first `size`: it is no
global write of it, and an assignment of it only where the name is bound in
a later cell. -/
def Action.keepsInside (size : Nat) (e name : String) (a : Action) (σ : Session) : Bool :=
  match a with
  | .write _ .global n _ => n != name
  | .write _ .assign n _ | .writeMember _ n _ => n != name || σ.resolvesPast size e name
  | _ => true

/-- The action does not write the name but by a declaration. -/
def Action.onlyDeclares (name : String) : Action → Bool
  | .write _ mode n _ => n != name || mode == .declare
  | .writeMember _ n _ => n != name
  | _ => true

/-- An action of a body, or of a guard in it. -/
def Action.lexicalOrGuard (e : String) : Action → Bool
  | .openBlock _ => true
  | .closeBlock _ none => true
  | a => a.lexical e

theorem Action.spares_of_lexical {e : String} {a : Action} (h : a.lexical e) (x : String) :
    a.spares x := by
  cases a <;> first | rfl | cases h

theorem Action.deed?_lexical {e : String} {a : Action} (h : a.lexical e) {σ : Session}
    {env : Environment} (he : σ.environments[e]? = some env) :
    a.deed? σ = none ∨ ∃ mode name v, a.deed? σ = some (.write mode env.current name v) ∧
      ∀ size n, a.keepsInside size e n σ → name = n → mode = .declare ∨
        mode = .assign ∧ σ.resolvesPast size e n := by
  cases a with
  | write t mode name v =>
    cases t with
    | place p => cases h
    | environment x =>
      obtain rfl : x = e := beq_iff_eq.mp h
      refine .inr ⟨mode, name, v, by simp [deed?, Session.writeDeed?, he], ?_⟩
      rintro size n hn rfl
      cases mode with
      | declare => exact .inl rfl
      | assign => exact .inr ⟨rfl, by simpa [keepsInside] using hn⟩
      | global => simp [keepsInside] at hn
  | writeMember t name v =>
    cases t with
    | place p => cases h
    | environment x =>
      obtain rfl : x = e := beq_iff_eq.mp h
      refine .inr ⟨.assign, name, Value.ofHost v, by simp [deed?, Session.writeDeed?, he], ?_⟩
      rintro size n hn rfl
      exact .inr ⟨rfl, by simpa [keepsInside] using hn⟩
  | _ => first | exact .inl rfl | cases h

/-! ## 2. Heaps that shelter a name -/

/-- The cells are there, with the parents they had, and the first `size` of
them bind the name to what they bound it to. -/
structure Heap.Shelters (size : Nat) (name : String) (heap later : Heap) : Prop
    extends Heap.Grows heap later where
  find?_eq : ∀ k : Handle, k.index < size → (later.scope k).find? name = (heap.scope k).find? name

namespace Heap

variable {heap later : Heap} {size : Nat} {name : String}

theorem Shelters.refl (size : Nat) (name : String) (heap : Heap) : Shelters size name heap heap :=
  ⟨.refl heap, fun _ _ => rfl⟩

theorem Shelters.trans {last : Heap} (h : Shelters size name heap later)
    (h' : Shelters size name later last) : Shelters size name heap last where
  size_le := Nat.le_trans h.size_le h'.size_le
  parent_eq i hi := (h'.parent_eq i (h.lt_size hi)).trans (h.parent_eq i hi)
  find?_eq k hk := (h'.find?_eq k hk).trans (h.find?_eq k hk)

theorem shelters_add (hsize : size ≤ heap.size) (s : Scope) :
    Shelters size name heap (heap.add s).1 where
  toGrows := heap.grows_add s
  find?_eq k hk := by rw [heap.scope_add_of_lt s (Nat.lt_of_lt_of_le hk hsize)]

/-- A write shelters a name if it writes another one or goes to a later cell. -/
theorem shelters_write {mode : WriteMode} {i : Handle} {n : String} (v : Value)
    (h : n = name → size ≤ (heap.target mode i n).index) :
    Shelters size name heap (heap.write mode i n v) where
  toGrows := heap.grows_write mode i n v
  find?_eq k hk := by
    by_cases hn : n = name
    · have hne : k ≠ heap.target mode i n := by
        rintro rfl
        exact Nat.not_lt.mpr (h hn) hk
      rw [write, scope_bindAt, if_neg fun hc => hne hc.1]
    · exact heap.find?_bindAt_ne _ v k (Ne.symm hn)

/-- A sheltered name is found as before from everything that was there. -/
theorem Shelters.lookup_eq (h : Shelters heap.size name heap later) (hac : heap.Acyclic)
    {i : Handle} (hi : i.index < heap.size) : later.lookup i name = heap.lookup i name := by
  have hlt := (hac.isPath_chain hi).lt_size
  rw [lookup_eq_findSome?, lookup_eq_findSome?, hac.chain_grow h.toGrows hi]
  generalize heap.chain i = l at hlt
  induction l with
  | nil => rfl
  | cons k l ih =>
    rw [List.findSome?_cons, List.findSome?_cons, h.find?_eq k (hlt k List.mem_cons_self),
      ih fun j hj => hlt j (List.mem_cons_of_mem _ hj)]

end Heap

/-! ## 3. Inside the block -/

/-- Whatever is declared through `e` goes past the first `size` cells. -/
structure Session.Within (size : Nat) (e : String) (σ : Session) : Prop where
  size_le : size ≤ σ.heap.size
  current_ge : ∃ env : Environment, σ.environments[e]? = some env ∧ size ≤ env.current.index

section

variable {σ τ : Session} {size : Nat} {e name : String}

theorem Session.Within.grow (h : σ.Within size e) (hheap : Heap.Grows σ.heap τ.heap)
    (hτ : τ.environments[e]? = σ.environments[e]?) : τ.Within size e := by
  refine ⟨Nat.le_trans h.size_le hheap.size_le, ?_⟩
  rw [hτ]
  exact h.current_ge

theorem Session.openBlock_grows (σ : Session) (x : String) :
    Heap.Grows σ.heap (σ.openBlock x).1.heap := by
  rw [← run_openBlock, Action.run_heap rfl]
  exact σ.heap.grows_perform _

theorem Session.openBlock_shelters (h : size ≤ σ.heap.size) (name x : String) :
    Heap.Shelters size name σ.heap (σ.openBlock x).1.heap := by
  rw [← run_openBlock, Action.run_heap rfl, Action.deed?]
  cases σ.environments[x]? with
  | none => exact .refl size name σ.heap
  | some env =>
    dsimp only [Option.bind_some]
    cases env.policy.objection? (env.depth + 1) with
    | none => exact Heap.shelters_add h _
    | some err => exact .refl size name σ.heap

/-- The environment that a block is opened on stands on a new scope. -/
theorem Session.within_openBlock (h : σ.openBlock e = (τ, .ok ())) (hsize : size ≤ σ.heap.size) :
    τ.Within size e := by
  have hheap := σ.openBlock_grows e
  rcases σ.openBlock_cases e with ⟨τ', r, hopen, -⟩ | ⟨τ', env, hopen, -, hτ⟩
  · rw [hopen] at h
    cases h
  · rw [hopen] at h
    cases h
    rw [hopen] at hheap
    refine ⟨Nat.le_trans hsize hheap.size_le, env.opened ⟨σ.heap.size⟩, ?_, hsize⟩
    rw [hτ, Std.ExtTreeMap.getElem?_insert_self]

/-- A nested block, of this environment or of another. -/
theorem Session.Within.openBlock (h : σ.Within size e) {x : String}
    (hopen : σ.openBlock x = (τ, .ok ())) : τ.Within size e := by
  by_cases hx : x = e
  · subst hx
    exact within_openBlock hopen h.size_le
  · have hheap := σ.openBlock_grows x
    have hspares : (Action.openBlock x).spares e := by
      simpa [Action.spares, Action.environmentName?] using hx
    have henv := Action.run_spares hspares σ
    rw [run_openBlock] at henv
    rw [hopen] at hheap henv
    exact h.grow hheap henv

theorem Session.heap_leaveBlock (x : String) (catches : Bool) (body : Stretch) :
    (leaveBlock x catches body).1.heap = body.session.heap := by
  rw [leaveBlock_session, Action.run_heap rfl]
  rfl

/-- **The step lemma**: what is done through `e` shelters the names that it
keeps inside. -/
theorem Action.run_shelters {a : Action} (ha : a.lexical e) (h : σ.Within size e)
    (hn : a.keepsInside size e name σ) : Heap.Shelters size name σ.heap (a.run σ).1.heap := by
  have hkeeps : a.keepsContents σ := by cases a <;> first | rfl | cases ha
  obtain ⟨env, he, hsize⟩ := h.current_ge
  rw [Action.run_heap hkeeps]
  rcases Action.deed?_lexical ha he with hd | ⟨mode, n, v, hd, hmode⟩
  · rw [hd]
    exact .refl size name σ.heap
  · rw [hd]
    refine Heap.shelters_write v fun hname => ?_
    rcases hmode size name hn hname with rfl | ⟨rfl, hpast⟩
    · exact hsize
    · rw [Session.resolvesPast, he, Option.bind_some, Option.any_eq_true] at hpast
      obtain ⟨t, ht, hle⟩ := hpast
      rw [hname, Heap.target, ht]
      exact of_decide_eq_true hle

/-! ## 4. Whole bodies -/

/-- The heap after a block, if it is known what its body does. -/
theorem Step.block_shelters {detail : Detail} {x : String} {catches : Bool} {body : List Step}
    (hsize : size ≤ σ.heap.size)
    (hms : σ.allActs (Action.keepsInside size e name)
      (Step.moves detail (.block x catches body) σ))
    (hbody : ∀ τ, σ.openBlock x = (τ, .ok ()) →
      τ.allActs (Action.keepsInside size e name) (Step.movesAll detail body τ) →
      Heap.Shelters size name τ.heap (Step.runAll detail body τ).session.heap) :
    Heap.Shelters size name σ.heap (Step.run detail (.block x catches body) σ).1.heap := by
  have hopened := Session.openBlock_shelters hsize name x
  rw [Step.moves, Session.allActs_act, Session.run_openBlock] at hms
  obtain ⟨-, hms⟩ := hms
  rw [Step.run]
  generalize hopen : σ.openBlock x = opened at hms hopened ⊢
  obtain ⟨τ, r | ⟨⟩⟩ := opened
  · exact hopened
  · dsimp only at hms hopened ⊢
    rw [Session.heap_leaveBlock]
    exact hopened.trans (hbody τ hopen (Session.allActs_append.mp hms).1)

theorem Session.repeatBody_shelters {body : Session → Stretch} {moves : Session → List Move}
    (hmoves : ∀ σ, (body σ).session = σ.after (moves σ))
    (henv : ∀ σ, (body σ).session.environments[e]? = σ.environments[e]?)
    (hbody : ∀ σ : Session, σ.Within size e →
      σ.allActs (Action.keepsInside size e name) (moves σ) →
      Heap.Shelters size name σ.heap (body σ).session.heap)
    (n : Nat) {σ : Session} (last : List Entry) (h : σ.Within size e)
    (hms : σ.allActs (Action.keepsInside size e name) (repeatMoves body moves n σ)) :
    Heap.Shelters size name σ.heap (repeatBody body n σ last).session.heap := by
  induction n generalizing σ last with
  | zero => exact .refl size name σ.heap
  | succ n ih =>
    rw [repeatMoves, allActs_append, ← hmoves] at hms
    obtain ⟨hround, hms⟩ := hms
    have hheap := hbody σ h hround
    have hafter := h.grow hheap.toGrows (henv σ)
    rw [repeatBody]
    generalize body σ = done at hms hheap hafter ⊢
    obtain ⟨τ, log, _ | message⟩ := done
    · exact hheap.trans (ih log hafter hms)
    · exact hheap

mutual

theorem Step.run_shelters (detail : Detail) : ∀ (s : Step) {σ : Session},
    s.only (Action.lexical e) → σ.Within size e →
    σ.allActs (Action.keepsInside size e name) (Step.moves detail s σ) →
    Heap.Shelters size name σ.heap (Step.run detail s σ).1.heap
  | .act _, _, hs, h, hms => Action.run_shelters hs h (Session.allActs_act.mp hms).1
  | .block _ _ body, _, hs, h, hms =>
    Step.block_shelters h.size_le hms fun _ hopen =>
      Step.runAll_shelters detail body hs (h.openBlock hopen)
  | .rounds n body, σ, hs, h, hms => by
    rw [Step.run, Session.ofRounds_session]
    have hspares := Step.onlyAll_mono (fun _ ha => Action.spares_of_lexical ha e) body hs
    exact Session.repeatBody_shelters (Step.runAll_session detail body)
      (fun τ => Step.runAll_spares detail body τ hspares)
      (fun τ hτ => Step.runAll_shelters detail body hs hτ) n [] h hms
  | .panic _, σ, _, _, _ => .refl size name σ.heap

/-- **The run lemma.** However a body ends, it has sheltered the names that
all its actions kept inside. -/
theorem Step.runAll_shelters (detail : Detail) : ∀ (body : List Step) {σ : Session},
    Step.onlyAll (Action.lexical e) body → σ.Within size e →
    σ.allActs (Action.keepsInside size e name) (Step.movesAll detail body σ) →
    Heap.Shelters size name σ.heap (Step.runAll detail body σ).session.heap
  | [], σ, _, _, _ => .refl size name σ.heap
  | s :: rest, σ, hs, h, hms => by
    rw [Step.onlyAll, Bool.and_eq_true] at hs
    rw [Step.movesAll, Session.allActs_append, ← Step.run_session] at hms
    obtain ⟨hfirst, hms⟩ := hms
    have hheap := Step.run_shelters detail s hs.1 h hfirst
    have hspares := Step.only_mono (fun _ ha => Action.spares_of_lexical ha e) s hs.1
    have hafter := h.grow hheap.toGrows (Step.run_spares detail s σ hspares)
    rw [Step.runAll]
    generalize Step.run detail s σ = done at hms hheap hafter ⊢
    obtain ⟨τ, a | message⟩ := done
    · have hmarked : τ.marked.Within size e := ⟨hafter.size_le, hafter.current_ge⟩
      exact hheap.trans (Step.runAll_shelters detail rest hs.2 hmarked hms)
    · exact hheap

end

end

/-! ## 5. What is seen afterwards -/

/-- The name reads in `τ` as it reads in `σ`: from every cell that `σ` has, and
through everything that its tables name. -/
structure Session.ReadsAlike (name : String) (σ τ : Session) : Prop where
  lookup_eq : ∀ i : Handle, i.index < σ.heap.size → τ.heap.lookup i name = σ.heap.lookup i name
  answer_eq : ∀ (t : Target) (query : Query),
    ((Action.read t query name).run τ).2 = ((Action.read t query name).run σ).2

theorem Session.Formed.readsAlike {σ τ : Session} (h : σ.Formed) {name : String}
    (hheap : Heap.Shelters σ.heap.size name σ.heap τ.heap) (hhandles : τ.handles = σ.handles)
    (howned : τ.owned = σ.owned) (henv : τ.environments = σ.environments) :
    Session.ReadsAlike name σ τ := by
  have hlookup : ∀ i : Handle, i.index < σ.heap.size →
      τ.arena.heap.lookup i name = σ.arena.heap.lookup i name :=
    fun i hi => hheap.lookup_eq h.acyclic hi
  refine ⟨hlookup, fun t query => ?_⟩
  match t with
  | .place (.shared x) =>
    simp only [Action.run, Session.withLookup, Session.withHandle, hhandles]
    cases hx : σ.handles[x]? with
    | none => rfl
    | some i => exact congrArg query.answer (hlookup i (h.handle_lt hx))
  | .place (.owned x) =>
    simp only [Action.run, Session.withLookup, Session.withOwned, howned]
    cases hx : σ.owned[x]? with
    | none => rfl
    | some s =>
      refine congrArg query.answer ?_
      rw [(s.unfolds τ.arena.heap).lookup_eq, (s.unfolds σ.arena.heap).lookup_eq]
      cases hp : s.parent with
      | none => rfl
      | some p => exact congrArg (s.find? name).or (hlookup p (h.parent_lt hx p hp))
  | .environment x =>
    simp only [Action.run, Session.withLookup, Session.withEnvironment, henv]
    cases hx : σ.environments[x]? with
    | none => rfl
    | some env =>
      have hlt := h.held_lt hx _ (Environment.mem_held.mpr (.inl env.current_mem_frames))
      exact congrArg query.answer (hlookup env.current hlt)

/-- Neither what a body does nor a guard binds a handle or an owned scope. -/
theorem Action.run_tables {a : Action} {e : String} (ha : a.lexicalOrGuard e) (σ : Session) :
    (a.run σ).1.handles = σ.handles ∧ (a.run σ).1.owned = σ.owned := by
  have hkeeps : a.keepsContents σ := by cases a <;> first | rfl | cases ha
  have hnone : a.handle? σ = none ∧ a.owned? σ = none := by
    cases a with
    | write t mode n v => cases t with
      | place p => cases ha
      | environment x => exact ⟨rfl, rfl⟩
    | writeMember t n v => cases t with
      | place p => cases ha
      | environment x => exact ⟨rfl, rfl⟩
    | closeBlock x name => cases name with
      | none => exact ⟨rfl, rfl⟩
      | some y => cases ha
    | _ => first | exact ⟨rfl, rfl⟩ | cases ha
  rw [run_handles hkeeps, run_owned hkeeps, hnone.1, hnone.2]
  exact ⟨rfl, rfl⟩

theorem Action.lexicalOrGuard_of_lexical {a : Action} {e : String} (h : a.lexical e) :
    a.lexicalOrGuard e := by
  cases a <;> first | exact h | cases h

theorem Step.block_tables (detail : Detail) {e : String} (catches : Bool) {body : List Step}
    (hbody : Step.onlyAll (Action.lexical e) body) (σ : Session) :
    (Step.run detail (.block e catches body) σ).1.handles = σ.handles ∧
    (Step.run detail (.block e catches body) σ).1.owned = σ.owned := by
  have honly := Step.onlyAll_mono (fun _ => Action.lexicalOrGuard_of_lexical) body hbody
  have hmoves := Step.moves_only (p := Action.lexicalOrGuard e) (fun _ => rfl) (fun _ => rfl) detail
    (.block e catches body) σ honly
  rw [Step.run_session]
  refine Session.after_induction (P := fun τ => τ.handles = σ.handles ∧ τ.owned = σ.owned)
    (fun τ a ha hτ => ?_) (fun _ hτ => hτ) (Session.allActs_of_only hmoves σ) ⟨rfl, rfl⟩
  have hrun := Action.run_tables ha τ
  exact ⟨hrun.1.trans hτ.1, hrun.2.trans hτ.2⟩

theorem Action.keepsInside_of_onlyDeclares {a : Action} {name : String}
    (h : a.onlyDeclares name) (size : Nat) (e : String) (σ : Session) :
    a.keepsInside size e name σ := by
  cases a with
  | write t mode n v => cases mode <;> simp_all [onlyDeclares, keepsInside]
  | writeMember t n v => simp_all [onlyDeclares, keepsInside]
  | _ => rfl

/-- **Blocks are hygienic.** Enter a block in any session that a run leads to,
with a body of reads, of writes through the block's environment, of nested
blocks, rounds and panics. However it is left, by return, by refusal or by
a panic, every environment is as it was, and a name reads as before, from
every cell there was and through every handle, owned scope and
environment,

* if what is done in the block does not write it globally, and assigns it
  only while it is found in a scope that was opened in the block;
* and so, if the body writes it by declarations alone, at any level. -/
theorem blocks_hygienic (detail : Detail) (ms : List Move) {e : String} (catches : Bool)
    {body : List Step} (hbody : Step.onlyAll (Action.lexical e) body) :
    let σ := Session.empty.after ms
    let block : Step := .block e catches body
    let left := (Step.run detail block σ).1
    left.environments = σ.environments ∧
    (∀ name, σ.allActs (Action.keepsInside σ.heap.size e name) (Step.moves detail block σ) →
      Session.ReadsAlike name σ left) ∧
    ∀ name, Step.onlyAll (Action.onlyDeclares name) body → Session.ReadsAlike name σ left := by
  intro σ block left
  have hσ : σ.Formed := Session.formed_empty.after ms
  have henv : left.environments = σ.environments := by
    refine Std.ExtTreeMap.ext_getElem? fun {x} => ?_
    have hspares := Step.onlyAll_mono (fun _ ha => Action.spares_of_lexical ha x) body hbody
    exact Step.run_spares detail block σ hspares
  have htables := Step.block_tables detail catches hbody σ
  have hreads : ∀ name,
      σ.allActs (Action.keepsInside σ.heap.size e name) (Step.moves detail block σ) →
      Session.ReadsAlike name σ left := by
    intro name hms
    have hheap := Step.block_shelters (Nat.le_refl _) hms fun τ hopen hτ =>
      Step.runAll_shelters detail body hbody (Session.within_openBlock hopen (Nat.le_refl _)) hτ
    exact hσ.readsAlike hheap htables.1 htables.2 henv
  refine ⟨henv, hreads, fun name hname => hreads name ?_⟩
  have hmoves := Step.moves_only (p := Action.onlyDeclares name) (fun _ => rfl) (fun _ => rfl)
    detail block σ hname
  exact Session.allActs_mono (fun a τ ha => Action.keepsInside_of_onlyDeclares ha _ e τ)
    (Session.allActs_of_only hmoves σ)

/-- A block that declares a name, assigns it in a block inside, declares it
there once more, and panics. -/
def shadowing : List Step :=
  [.act (.write (.environment "e") .declare "x" .nil),
    .block "e" false [.act (.write (.environment "e") .assign "x" (.boolean false)),
      .act (.write (.environment "e") .declare "x" .nil), .panic "p"]]

theorem blocks_hygienic_shadowing :
    let ms : List Move := [.act (.newEnvironment Policy.standard "e"),
      .act (.write (.environment "e") .declare "x" (.boolean true)), .act (.takeCurrent "e" "h")]
    let σ := Session.empty.after ms
    let block : Step := .block "e" true shadowing
    let left := (Step.run ⟨false, false⟩ block σ).1
    Step.onlyAll (Action.lexical "e") shadowing ∧
    σ.allActs (Action.keepsInside σ.heap.size "e" "x") (Step.moves ⟨false, false⟩ block σ) ∧
    Step.onlyAll (Action.onlyDeclares "y") shadowing ∧
    left.heap.size = 3 ∧
    left.heap.lookup ⟨0⟩ "x" = some (.boolean true) ∧
    ((Action.read (.environment "e") .value "x").run left).2 = .value (.boolean true) ∧
    ((Action.read (.place (.shared "h")) .binding "y").run left).2 = .binding none := by
  intro ms σ block left
  have hbody : Step.onlyAll (Action.lexical "e") shadowing := rfl
  have hinside : σ.allActs (Action.keepsInside σ.heap.size "e" "x")
      (Step.moves ⟨false, false⟩ block σ) := by decide +kernel
  have hdeclares : Step.onlyAll (Action.onlyDeclares "y") shadowing := rfl
  obtain ⟨-, hreads, hcreated⟩ := blocks_hygienic ⟨false, false⟩ ms true hbody
  have hx : Session.ReadsAlike "x" σ left := hreads "x" hinside
  have hy : Session.ReadsAlike "y" σ left := hcreated "y" hdeclares
  exact ⟨hbody, hinside, hdeclares, by decide +kernel,
    (hx.lookup_eq ⟨0⟩ (by decide)).trans (by decide +kernel),
    (hx.answer_eq (.environment "e") .value).trans rfl,
    (hy.answer_eq (.place (.shared "h")) .binding).trans rfl⟩

end ScopeChain

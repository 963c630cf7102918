/-
ScopeChain.Proofs.Bookkeeping — the stack of an environment is what its
history leaves open.

Nothing but the environment itself opens and closes its blocks, so its
stack can be told from the blocks that were opened and closed since it was
made: read as brackets, the ones that are still open are the stack. No
invariant of the heap is needed for that, and none would hold: scopes may
be replaced under the stack, and the chain of the current scope may lead
anywhere.

`Matched` is the bracket language: each block that is opened is closed
again, the last first. `Leaves` cuts it off at the base: a history in
which some blocks are still open. An opening that is granted and a closing
that gives a handle back extend the history by one bracket, all else by
none (`Action.run_accounts`), and so a run keeps the stack and the history
together (`Session.accounts_after`).
-/
import ScopeChain.Proofs.Bracketing
import ScopeChain.Proofs.StackMirror

namespace ScopeChain

/-! ## 1. Histories of a stack -/

/-- Something that happened to the stack of an environment. -/
inductive StackEvent where
  /-- A block was opened, with this handle for its new scope. -/
  | pushed (i : Handle)
  /-- A block was closed, and this handle was given back. -/
  | popped (i : Handle)
deriving DecidableEq

/-- A block was opened. -/
def StackEvent.isPush : StackEvent → Bool
  | pushed _ => true
  | popped _ => false

/-- A block was closed. -/
def StackEvent.isPop : StackEvent → Bool
  | pushed _ => false
  | popped _ => true

/-- All blocks that are opened are closed, and each closing gives back the
handle of the block that was opened last. -/
inductive Matched : List StackEvent → Prop
  | nil : Matched []
  | pair {i : Handle} {inner rest : List StackEvent} (hinner : Matched inner)
    (hrest : Matched rest) : Matched (.pushed i :: inner ++ .popped i :: rest)

/-- The history leaves these blocks open, the last opened first. -/
inductive Leaves : List StackEvent → List Handle → Prop
  | none {history : List StackEvent} (h : Matched history) : Leaves history []
  | block {history inner : List StackEvent} {i : Handle} {outer : List Handle}
    (h : Leaves history outer) (hinner : Matched inner) :
    Leaves (history ++ .pushed i :: inner) (i :: outer)

/-- The last block opened and not yet closed is the one at `i`. -/
def LastOpen (history : List StackEvent) (i : Handle) : Prop :=
  ∃ before inner, history = before ++ .pushed i :: inner ∧ Matched inner

/-- Each closing gave back the handle of the last block opened and not yet
closed. -/
def PopsMatch (history : List StackEvent) : Prop :=
  ∀ before i later, history = before ++ .popped i :: later → LastOpen before i

section

variable {history inner : List StackEvent} {blocks : List Handle} {i : Handle}

theorem Matched.append (h : Matched history) (h' : Matched inner) : Matched (history ++ inner) := by
  induction h with
  | nil => exact h'
  | pair hinner _ _ ih => simpa using Matched.pair hinner ih

theorem Leaves.append (h : Leaves history blocks) (h' : Matched inner) :
    Leaves (history ++ inner) blocks := by
  cases h with
  | none h => exact .none (h.append h')
  | block h hinner => simpa using Leaves.block h (hinner.append h')

/-- One more block is opened. -/
theorem Leaves.push (h : Leaves history blocks) (i : Handle) :
    Leaves (history ++ [.pushed i]) (i :: blocks) :=
  .block h .nil

/-- The last block is closed. -/
theorem Leaves.pop (h : Leaves history (i :: blocks)) :
    Leaves (history ++ [.popped i]) blocks := by
  cases h with
  | block h hinner => simpa using h.append (.pair (i := i) hinner .nil)

theorem Leaves.lastOpen (h : Leaves history (i :: blocks)) : LastOpen history i := by
  cases h with
  | block _ hinner => exact ⟨_, _, rfl, hinner⟩

theorem Matched.count_eq (h : Matched history) :
    history.countP StackEvent.isPush = history.countP StackEvent.isPop := by
  induction h with
  | nil => rfl
  | pair _ _ ih ih' =>
    simp only [List.countP_append, List.countP_cons, StackEvent.isPush, StackEvent.isPop, ih, ih']
    simp
    omega

/-- Openings exceed closings by the blocks left open. -/
theorem Leaves.count_eq (h : Leaves history blocks) :
    history.countP StackEvent.isPush = history.countP StackEvent.isPop + blocks.length := by
  induction h with
  | none h => rw [h.count_eq]; rfl
  | block _ hinner ih =>
    simp only [List.countP_append, List.countP_cons, StackEvent.isPush, StackEvent.isPop, ih,
      hinner.count_eq, List.length_cons]
    simp
    omega

/-- No block is left open exactly if every one is closed. -/
theorem Leaves.matched_iff (h : Leaves history blocks) : Matched history ↔ blocks = [] := by
  constructor
  · intro hm
    have hcount := h.count_eq
    rw [hm.count_eq] at hcount
    exact List.length_eq_zero_iff.mp (by omega)
  · rintro rfl
    cases h with
    | none hm => exact hm

theorem popsMatch_nil : PopsMatch [] := by
  intro before i later h
  simp at h

/-- The next event, if it is a closing, has to give back the last open block. -/
theorem PopsMatch.concat (h : PopsMatch history) {event : StackEvent}
    (hlast : ∀ i, event = .popped i → LastOpen history i) : PopsMatch (history ++ [event]) := by
  intro before i later heq
  rcases List.eq_nil_or_concat later with rfl | ⟨later, last, rfl⟩
  · obtain ⟨rfl, hevent⟩ := List.append_inj' heq rfl
    exact hlast i (List.singleton_inj.mp hevent)
  · have heq' : history ++ [event] = (before ++ .popped i :: later) ++ [last] := by simpa using heq
    exact h before i later (List.append_inj' heq' rfl).1

end

/-! ## 2. What a move adds to the history -/

/-- What an action does to the stack of the environment `x`: it opens a block,
if that is granted, or closes one, if one is given back. -/
def Action.stackEvent? (x : String) (a : Action) (σ : Session) : Option StackEvent :=
  match a with
  | .openBlock y => if y = x then σ.environments[x]?.bind fun env =>
      match env.openBlock σ.arena with
      | (.ok _, _) => some (.pushed (σ.heap.child env.current).2)
      | (.error _, _) => none
    else none
  | .closeBlock y _ => if y = x then σ.environments[x]?.bind fun env =>
      (env.closeBlock σ.arena).1.map .popped
    else none
  | _ => none

/-- The history of the stack of `x` over some moves. -/
def Session.stackHistory (x : String) : Session → List Move → List StackEvent
  | _, [] => []
  | σ, .act a :: ms => (a.stackEvent? x σ).toList ++ (a.run σ).1.stackHistory x ms
  | σ, .mark :: ms => σ.marked.stackHistory x ms

theorem Action.stackEvent?_of_spares {a : Action} {x : String} (h : a.spares x) (σ : Session) :
    a.stackEvent? x σ = none := by
  cases a with
  | openBlock y =>
    have hyx : y ≠ x := by simpa [spares, environmentName?] using h
    exact if_neg hyx
  | closeBlock y name =>
    have hyx : y ≠ x := by simpa [spares, environmentName?] using h
    exact if_neg hyx
  | _ => rfl

/-- The stack and its history, with every closing matched. -/
structure Accounts (history : List StackEvent) (blocks : List Handle) : Prop where
  leaves : Leaves history blocks
  pops : PopsMatch history

theorem accounts_nil : Accounts [] [] := ⟨.none .nil, popsMatch_nil⟩

/-- **The step lemma**: an action that keeps an environment changes its blocks
as the history says, and nothing else of it. -/
theorem Action.run_accounts {a : Action} {x : String} (ha : a.keeps x) {σ : Session}
    {env : Environment} (he : σ.environments[x]? = some env) {history : List StackEvent}
    (h : Accounts history env.blocks) :
    ∃ blocks, (a.run σ).1.environments[x]? = some { env with blocks } ∧
      Accounts (history ++ (a.stackEvent? x σ).toList) blocks := by
  by_cases hspares : a.spares x
  · refine ⟨env.blocks, (run_spares hspares σ).trans he, ?_⟩
    rw [stackEvent?_of_spares hspares, Option.toList_none, List.append_nil]
    exact h
  cases a with
  | openBlock y =>
    obtain rfl : y = x := by simpa [spares, environmentName?] using hspares
    rw [run_environments, environment?, stackEvent?, if_pos rfl, he, Option.bind_some,
      Option.bind_some, Environment.openBlock_eq]
    rcases env.policy.objection? (env.depth + 1) with _ | ⟨depth, limit⟩
    · refine ⟨⟨σ.heap.size⟩ :: env.blocks, Table.getElem?_rebind_self _ y _, h.leaves.push _, ?_⟩
      exact h.pops.concat fun i hi => by cases hi
    · exact ⟨env.blocks, he, by simpa using h⟩
  | closeBlock y name =>
    obtain rfl : y = x := by simpa [spares, environmentName?] using hspares
    rw [run_environments, environment?, stackEvent?, if_pos rfl, he, Option.bind_some,
      Option.map_some, Environment.closeBlock_eq]
    refine ⟨env.blocks.tail, Table.getElem?_rebind_self _ y _, ?_⟩
    cases hblocks : env.blocks with
    | nil => simpa [hblocks] using h
    | cons i rest =>
      rw [hblocks] at h
      exact ⟨h.leaves.pop, h.pops.concat fun j hj => by cases hj; exact h.leaves.lastOpen⟩
  | _ => exact absurd ha hspares

/-- **The run lemma.** -/
theorem Session.accounts_after {x : String} {ns : List Move}
    (hns : ∀ m ∈ ns, m.only (Action.keeps x)) {σ : Session} {env : Environment}
    (he : σ.environments[x]? = some env) {history : List StackEvent}
    (h : Accounts history env.blocks) :
    ∃ blocks, (σ.after ns).environments[x]? = some { env with blocks } ∧
      Accounts (history ++ σ.stackHistory x ns) blocks := by
  induction ns generalizing σ env history with
  | nil => exact ⟨env.blocks, he, by simpa [stackHistory] using h⟩
  | cons m ns ih =>
    have hrest : ∀ m ∈ ns, m.only (Action.keeps x) := fun k hk => hns k (List.mem_cons_of_mem _ hk)
    cases m with
    | mark => exact ih hrest (σ := σ.marked) he h
    | act a =>
      obtain ⟨blocks, he', h'⟩ := Action.run_accounts (hns _ List.mem_cons_self) he h
      obtain ⟨blocks', hlast, hlast'⟩ := ih hrest he' h'
      rw [List.append_assoc] at hlast'
      exact ⟨blocks', hlast, hlast'⟩

/-! ## 3. New environments -/

/-- The environment that an action makes, when it does not open or close one
that is there, has no block open and is what the heap tells: its depth is
that of its base, and its global scope the root above it. -/
theorem Session.Formed.mirrors_made {σ : Session} (h : σ.Formed) {a : Action} {x : String}
    {made : Environment} (hmade : a.environment? σ = some (x, some made)) (hnew : ¬ a.keeps x) :
    made.blocks = [] ∧ made.Mirrors (a.run σ).1.heap := by
  cases Action.environment?_makes hmade with
  | created limits =>
    rw [Action.run_heap rfl]
    exact ⟨rfl, Environment.mirrors_create σ.arena limits⟩
  | placed limits hi =>
    rw [Action.run_heap rfl]
    exact ⟨rfl, Environment.mirrors_ofScope (h.handle_lt hi) limits⟩
  | @called _ env he =>
    rw [Action.run_heap rfl]
    have hglobal := h.held_lt he _ (Environment.mem_held.mpr (.inr rfl))
    exact ⟨rfl, Environment.mirrors_ofScope hglobal env.policy⟩
  | @entered _ _ env _ he hi hp =>
    rw [Action.run_heap rfl, Action.deed?_enterClosure he hi hp]
    exact ⟨rfl, Environment.mirrors_frame_add env h.acyclic (h.handle_lt hi)⟩
  | opened he hp => exact absurd rfl hnew
  | closed he name => exact absurd rfl hnew

/-- Closing a block where none is open changes nothing. -/
theorem Session.run_closeBlock_base {σ : Session} {x : String} {e : Environment}
    (he : σ.environments[x]? = some e) (hb : e.blocks = []) (name : Option String) :
    (Action.closeBlock x name).run σ = (σ, .flag false) := by
  have hsame : σ.environments.insert x e = σ.environments := by
    refine Std.ExtTreeMap.ext_getElem? fun y => ?_
    rw [Std.ExtTreeMap.getElem?_insert]
    split
    · next hxy => rw [← he, Std.LawfulEqCmp.eq_of_compare hxy]
    · rfl
  simp only [Action.run, withEnvironment, he, Session.closeBlock_eq, hb, List.head?_nil,
    Environment.closed_of_blocks_nil hb, Environment.closeBlock, hsame]

/-- What closing a block gives back where one is open. -/
theorem Session.run_closeBlock_open {σ : Session} {x : String} {e : Environment} {i : Handle}
    (he : σ.environments[x]? = some e) (hi : e.blocks.head? = some i) (name : Option String) :
    (e.closeBlock σ.arena).1 = some i ∧
    ((Action.closeBlock x name).run σ).2 = .flag true ∧
    ∀ n, name = some n → ((Action.closeBlock x name).run σ).1.handles[n]? = some i := by
  rw [Environment.closeBlock_eq, hi]
  refine ⟨rfl, ?_, ?_⟩
  · simp only [Action.run, withEnvironment, he, Session.closeBlock_eq, hi]
  · rintro n rfl
    rw [Action.run_handles rfl]
    simp only [Action.handle?, he, hi, Option.bind_some, Option.map_some]
    exact Table.getElem?_rebind_self _ n _

/-- **The stack is what its history leaves open.** Let an action make an
environment at any point of any run, and let the run go on in any way, as
long as nothing else is put under its name: blocks opened and closed, by
hand or by guards, panics, steps on other environments, scopes replaced
wherever they are. Then at every point,

* the stack is not empty, and the current scope is its top;
* the depth is that of the base when the environment was made, plus the
  openings granted, less the closings that gave a handle back, and never
  below that of the base;
* base, global scope and policy are those it was made with;
* each closing that gave a handle back gave that of the last block opened
  and not yet closed, and the next one will;
* it will give none exactly if all blocks opened are closed, and then it
  changes nothing. -/
theorem stack_bookkeeping (ms : List Move) {a : Action} {x : String} {made : Environment}
    (hmade : a.environment? (Session.empty.after ms) = some (x, some made)) (hnew : ¬ a.keeps x)
    {ns : List Move} (hns : ∀ m ∈ ns, m.only (Action.keeps x)) :
    let start := (a.run (Session.empty.after ms)).1
    let σ := start.after ns
    let history := start.stackHistory x ns
    let pushes := history.countP StackEvent.isPush
    let pops := history.countP StackEvent.isPop
    start.environments[x]? = some made ∧
    ∃ e : Environment, σ.environments[x]? = some e ∧
      e.frames ≠ [] ∧ e.frames.head? = some e.current ∧
      e.depth = start.heap.depth made.base + pushes - pops ∧ pops ≤ pushes ∧
      start.heap.depth made.base ≤ e.depth ∧
      e.base = made.base ∧ e.global = made.global ∧ e.policy = made.policy ∧
      PopsMatch history ∧
      (Matched history ↔ pops = pushes) ∧
      ∀ name, let closing := (Action.closeBlock x name).run σ
        (closing.2 = .flag false ↔ Matched history) ∧
        (Matched history → closing = (σ, .flag false)) ∧
        (¬ Matched history → ∃ i, LastOpen history i ∧ (e.closeBlock σ.arena).1 = some i ∧
          closing.2 = .flag true ∧ ∀ n, name = some n → closing.1.handles[n]? = some i) := by
  intro start σ history pushes pops
  have hσ : (Session.empty.after ms).Formed := Session.formed_empty.after ms
  obtain ⟨hblocks, hmirrors⟩ := hσ.mirrors_made hmade hnew
  have hstart : start.environments[x]? = some made := by
    rw [Action.run_environments, hmade, Table.getElem?_rebind_self]
  obtain ⟨blocks, he, haccounts⟩ :=
    Session.accounts_after hns hstart (hblocks ▸ accounts_nil)
  rw [List.nil_append] at haccounts
  have hcount : pushes = pops + blocks.length := haccounts.leaves.count_eq
  have hmatched : Matched history ↔ blocks = [] := haccounts.leaves.matched_iff
  let e : Environment := { made with blocks }
  have hdepth : e.depth = start.heap.depth made.base + blocks.length := by
    rw [← hmirrors.baseDepth_eq]
    rfl
  refine ⟨hstart, e, he, List.ne_nil_of_mem e.current_mem_frames, e.head?_frames,
    by omega, by omega, by omega, rfl, rfl, rfl, haccounts.pops, ?_, fun name => ?_⟩
  · rw [hmatched, ← List.length_eq_zero_iff]
    omega
  · cases hb : blocks with
    | nil =>
      have hm : Matched history := hmatched.mpr hb
      have hclosing := Session.run_closeBlock_base he hb name
      exact ⟨iff_of_true (by rw [hclosing]) hm, fun _ => hclosing, fun h => absurd hm h⟩
    | cons i rest =>
      have hm : ¬ Matched history := fun h => by simp [hmatched.mp h] at hb
      obtain ⟨hback, hflag, hhandles⟩ :=
        Session.run_closeBlock_open (i := i) he (by rw [hb]; rfl) name
      refine ⟨iff_of_false (by rw [hflag]; simp) hm, fun h => absurd h hm, fun _ =>
        ⟨i, ?_, hback, hflag, hhandles⟩⟩
      rw [hb] at haccounts
      exact haccounts.leaves.lastOpen

/-- A block, in which the scope is replaced by a root; then another, which is
closed again. -/
def replacedUnder : List Move := [.act (.openBlock "e"), .act (.takeCurrent "e" "h"),
  .act (.newOwned "s"), .act (.store "s" "h"), .act (.openBlock "e"), .act (.closeBlock "e" none)]

theorem stack_bookkeeping_replacedUnder :
    let a : Action := .newEnvironment Policy.standard "e"
    let made : Environment := ⟨⟨0⟩, [], ⟨0⟩, 1, Policy.standard⟩
    let start := (a.run Session.empty).1
    let σ := start.after replacedUnder
    let history := start.stackHistory "e" replacedUnder
    a.environment? Session.empty = some ("e", some made) ∧ ¬ a.keeps "e" ∧
    (∀ m ∈ replacedUnder, m.only (Action.keeps "e")) ∧
    history = [.pushed ⟨1⟩, .pushed ⟨2⟩, .popped ⟨2⟩] ∧
    σ.heap.depth ⟨1⟩ = 1 ∧
    (∃ e, σ.environments["e"]? = some e ∧ e.depth = 2) ∧
    ((Action.closeBlock "e" none).run σ).2 = .flag true := by
  intro a made start σ history
  have hmade : a.environment? (Session.empty.after []) = some ("e", some made) := by decide
  have hnew : ¬ a.keeps "e" := by decide
  have hns : ∀ m ∈ replacedUnder, m.only (Action.keeps "e") := by decide
  have hhistory : history = [.pushed ⟨1⟩, .pushed ⟨2⟩, .popped ⟨2⟩] := by decide
  obtain ⟨-, e, he, -, -, hdepth, -, -, -, -, -, -, hmatched, hclosing⟩ :=
    stack_bookkeeping [] hmade hnew hns
  obtain ⟨-, -, hopen⟩ := hclosing none
  have hm : ¬ Matched history := fun h => absurd (hmatched.mp h) (by decide)
  obtain ⟨i, -, -, hflag, -⟩ := hopen hm
  exact ⟨hmade, hnew, hns, hhistory, by decide, ⟨e, he, hdepth.trans (by decide)⟩, hflag⟩

end ScopeChain

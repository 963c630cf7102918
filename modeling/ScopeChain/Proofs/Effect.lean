/-
ScopeChain.Proofs.Effect — what one action can do.

There are many actions, but each does little. It performs at most one DEED
on the heap, planting a new scope or writing a name through one that is
there, and it rebinds at most one name in each of the three tables.
`Action.deed?`, `Action.handle?`, `Action.owned?` and `Action.environment?`
say which, in terms of the session before, and `Action.run_eq` says that
apart from the record of events this is all. Every invariant of sessions
is derived from it, so no later proof opens `Action.run`.

The one exception is `store`, which replaces the scope in a cell, unless
it is refused. It is not a deed here: all other actions keep contents
(`Action.keepsContents`), and the heap of a run of such actions only grows
(`Heap.Grows`).
-/
import ScopeChain.Proofs.Chain
import ScopeChain.Proofs.Moves

namespace ScopeChain

/-! ## 1. Policies and the three operations that ask or count -/

namespace Policy

/-- The policy has nothing against a chain of `depth` scopes. -/
def Admits (p : Policy) (depth : Nat) : Prop := ∀ limit, p.maxDepth = some limit → depth ≤ limit

theorem objection?_eq_none_iff {p : Policy} {depth : Nat} :
    p.objection? depth = none ↔ p.Admits depth := by
  unfold objection? Admits
  cases p.maxDepth with
  | none => simp
  | some limit => simp

theorem objection?_of_lt {p : Policy} {depth limit : Nat} (hp : p.maxDepth = some limit)
    (hlt : limit < depth) : p.objection? depth = some (.depthExceeded depth limit) := by
  unfold objection?
  rw [hp]
  exact if_pos hlt

/-- Either the policy admits the depth or it has a limit below it. -/
theorem admits_or_lt (p : Policy) (depth : Nat) :
    p.Admits depth ∨ ∃ limit, p.maxDepth = some limit ∧ limit < depth := by
  unfold Admits
  cases p.maxDepth with
  | none => exact .inl fun limit h => nomatch h
  | some limit =>
    rcases Nat.lt_or_ge limit depth with hlt | hle
    · exact .inr ⟨limit, rfl, hlt⟩
    · refine .inl fun other h => ?_
      cases h
      exact hle

end Policy

namespace Environment

/-- The environment with one more block, the scope at `i`. -/
def opened (e : Environment) (i : Handle) : Environment := { e with blocks := i :: e.blocks }

/-- The environment without its innermost block, if a block is open. -/
def closed (e : Environment) : Environment := { e with blocks := e.blocks.tail }

/-- The environment of a closure body: on the new scope at `base`, inside the
one that was captured. -/
def frame (e : Environment) (heap : Heap) (captured base : Handle) : Environment :=
  { base, blocks := [], global := heap.root captured, baseDepth := heap.depth captured + 1,
    policy := e.policy }

theorem openBlock_eq (e : Environment) (a : Arena) :
    e.openBlock a = match e.policy.objection? (e.depth + 1) with
      | some (.depthExceeded depth limit) =>
        (.error (.depthExceeded depth limit), a.report (.limitReached depth limit))
      | none => (.ok (e.opened ⟨a.heap.size⟩),
        (a.add (Scope.inside e.current)).1.report (.blockOpened (e.depth + 1))) := by
  unfold openBlock permit
  dsimp only
  rcases e.policy.objection? (e.depth + 1) with _ | ⟨depth, limit⟩ <;> rfl

theorem enterClosure_eq (e : Environment) (captured : Handle) (a : Arena) :
    e.enterClosure captured a = match e.policy.objection? (a.heap.depth captured + 1) with
      | some (.depthExceeded depth limit) =>
        (.error (.depthExceeded depth limit), a.report (.limitReached depth limit))
      | none => (.ok (e.frame a.heap captured ⟨a.heap.size⟩),
        (a.add (Scope.inside captured)).1.report
          (.closureEntered (a.heap.depth captured + 1))) := by
  unfold enterClosure permit
  dsimp only
  rcases e.policy.objection? (a.heap.depth captured + 1) with _ | ⟨depth, limit⟩ <;> rfl

theorem closeBlock_eq (e : Environment) (a : Arena) :
    e.closeBlock a = (e.blocks.head?, e.closed, match e.blocks with
      | [] => a
      | _ :: _ => a.report (.blockClosed e.closed.depth)) := by
  obtain ⟨base, blocks, global, baseDepth, policy⟩ := e
  cases blocks <;> rfl

end Environment

/-! ## 2. Deeds -/

/-- Something done to the heap. -/
inductive Deed where
  /-- Puts a scope with these bindings into a new cell, inside the one at
  `parent` if there is one. -/
  | plant (bindings : Bindings) (parent : Option Handle)
  /-- Writes a name through the scope at `i`. -/
  | write (mode : WriteMode) (i : Handle) (name : String) (v : Value)

/-- Does a deed, if there is one to do. -/
def Heap.perform (heap : Heap) : Option Deed → Heap
  | none => heap
  | some (.plant bindings parent) => (heap.add ⟨bindings, parent⟩).1
  | some (.write mode i name v) => heap.write mode i name v

/-- The handles that a deed uses: the parent of a new scope, the scope that is
written through. -/
def Deed.uses : Deed → List Handle
  | .plant _ parent => parent.toList
  | .write _ i _ _ => [i]

theorem Heap.grows_perform (heap : Heap) (d? : Option Deed) : Grows heap (heap.perform d?) := by
  match d? with
  | none => exact .refl heap
  | some (.plant bindings parent) => exact grows_add heap ⟨bindings, parent⟩
  | some (.write mode i name v) => exact grows_write heap mode i name v

/-- A deed that uses cells only closes no cycle. -/
theorem Heap.Acyclic.perform {heap : Heap} (h : heap.Acyclic) {d? : Option Deed}
    (hd : ∀ d ∈ d?, ∀ i ∈ d.uses, i.index < heap.size) : (heap.perform d?).Acyclic := by
  match d? with
  | none => exact h
  | some (.plant bindings parent) =>
    exact h.add fun p hp => hd _ rfl p (Option.mem_toList.mpr hp)
  | some (.write mode i name v) => exact h.write mode i name v

/-- The heap of a session. -/
abbrev Session.heap (σ : Session) : Heap := σ.arena.heap

/-- The deed of a write through an owned scope: none if the write stays in the
scope itself, else the same write through its parent. -/
def Scope.deed? (s : Scope) (mode : WriteMode) (name : String) (v : Value) : Option Deed :=
  match mode with
  | .declare => none
  | .assign => if s.binds name then none else s.parent.map fun p => .write .assign p name v
  | .global => s.parent.map fun p => .write .global p name v

/-- The deed of a write through a target. -/
def Session.writeDeed? (σ : Session) (t : Target) (mode : WriteMode) (name : String) (v : Value) :
    Option Deed :=
  match t with
  | .place (.shared h) => σ.handles[h]?.map fun i => .write mode i name v
  | .place (.owned s) => σ.owned[s]?.bind fun scope => scope.deed? mode name v
  | .environment e => σ.environments[e]?.map fun env => .write mode env.current name v

/-- The deed of an action. A scope that it plants inside another one names
that one as its parent. -/
def Action.deed? (a : Action) (σ : Session) : Option Deed :=
  match a with
  | .write t mode name v => σ.writeDeed? t mode name v
  | .writeMember t name v => σ.writeDeed? t .assign name (Value.ofHost v)
  | .newScope _ => some (.plant ∅ none)
  | .newChild h _ => σ.handles[h]?.map fun i => .plant ∅ (some i)
  | .wrap s _ => σ.owned[s]?.map fun scope => .plant scope.bindings scope.parent
  | .newEnvironment _ _ => some (.plant ∅ none)
  | .enterClosure e h _ => σ.environments[e]?.bind fun env => σ.handles[h]?.bind fun i =>
    match env.policy.objection? (σ.heap.depth i + 1) with
    | none => some (.plant ∅ (some i))
    | some _ => none
  | .openBlock e => σ.environments[e]?.bind fun env =>
    match env.policy.objection? (env.depth + 1) with
    | none => some (.plant ∅ (some env.current))
    | some _ => none
  | _ => none

/-- The action replaces no scope: it is no `store`, or one that is refused. -/
def Action.keepsContents (a : Action) (σ : Session) : Bool :=
  match a with
  | .store s h => (σ.owned[s]?.bind fun scope => σ.handles[h]?.bind fun i =>
    σ.heap.replace? i scope).isNone
  | _ => true

theorem Scope.write_snd (s : Scope) (heap : Heap) (mode : WriteMode) (name : String) (v : Value) :
    (s.write heap mode name v).2 = heap.perform (s.deed? mode name v) := by
  obtain ⟨bindings, parent⟩ := s
  unfold Scope.write Scope.target? Scope.deed?
  cases mode with
  | declare => rfl
  | assign =>
    cases Scope.binds ⟨bindings, parent⟩ name with
    | true => rfl
    | false => cases parent <;> rfl
  | global => cases parent <;> rfl

/-- A write leaves the owned scope where it is. -/
theorem Scope.write_fst_parent (s : Scope) (heap : Heap) (mode : WriteMode) (name : String)
    (v : Value) : (s.write heap mode name v).1.parent = s.parent := by
  unfold Scope.write
  cases s.target? heap mode name <;> rfl

/-! ## 3. Tables -/

/-- A name and what it stands for from now on, nothing if it is forgotten. -/
abbrev Rebinding (α : Type) := Option (String × Option α)

namespace Table

variable {α : Type}

/-- Rebinds a name of a table, if there is one to rebind. -/
def rebind (t : Table α) : Rebinding α → Table α
  | none => t
  | some (x, some a) => t.insert x a
  | some (x, none) => t.erase x

theorem getElem?_rebind_self (t : Table α) (x : String) (a? : Option α) :
    (t.rebind (some (x, a?)))[x]? = a? := by
  cases a? <;> simp [rebind]

theorem getElem?_rebind_ne (t : Table α) {x y : String} (h : x ≠ y) (a? : Option α) :
    (t.rebind (some (x, a?)))[y]? = t[y]? := by
  cases a? with
  | none => simp [rebind, Std.ExtTreeMap.getElem?_erase, h]
  | some a => simp [rebind, Std.ExtTreeMap.getElem?_insert, h]

/-- What stands under a name stood there before or was just put there. -/
theorem getElem?_rebind_cases {t : Table α} {c : Rebinding α} {x : String} {a : α}
    (h : (t.rebind c)[x]? = some a) : t[x]? = some a ∨ c = some (x, some a) := by
  cases c with
  | none => exact .inl h
  | some c =>
    obtain ⟨y, a?⟩ := c
    by_cases hyx : y = x
    · subst hyx
      rw [getElem?_rebind_self] at h
      exact .inr (by rw [h])
    · rw [getElem?_rebind_ne t hyx] at h
      exact .inl h

end Table

/-- The scope that a place names. -/
def Session.scopeAt? (σ : Session) : Place → Option Scope
  | .shared h => σ.handles[h]?.map σ.heap.scope
  | .owned s => σ.owned[s]?

/-- The handle that an action binds. -/
def Action.handle? (a : Action) (σ : Session) : Rebinding Handle :=
  match a with
  | .newScope x => some (x, some ⟨σ.heap.size⟩)
  | .share h x => σ.handles[h]?.map fun i => (x, some i)
  | .newChild h x => σ.handles[h]?.map fun _ => (x, some ⟨σ.heap.size⟩)
  | .takeRoot h x => σ.handles[h]?.map fun i => (x, some (σ.heap.root i))
  | .takeParent p x => (σ.scopeAt? p).bind fun s => s.parent.map fun i => (x, some i)
  | .dropHandle h => some (h, none)
  | .wrap s x => σ.owned[s]?.map fun _ => (x, some ⟨σ.heap.size⟩)
  | .closeBlock e (some x) =>
    σ.environments[e]?.bind fun env => env.blocks.head?.map fun i => (x, some i)
  | .takeGlobal e x => σ.environments[e]?.map fun env => (x, some env.global)
  | .takeCurrent e x => σ.environments[e]?.map fun env => (x, some env.current)
  | _ => none

/-- The owned scope that a write changes. -/
def Session.writeOwned? (σ : Session) (t : Target) (mode : WriteMode) (name : String) (v : Value) :
    Rebinding Scope :=
  match t with
  | .place (.owned s) => σ.owned[s]?.map fun scope => (s, some (scope.write σ.heap mode name v).1)
  | _ => none

/-- The owned scope that an action binds. -/
def Action.owned? (a : Action) (σ : Session) : Rebinding Scope :=
  match a with
  | .write t mode name v => σ.writeOwned? t mode name v
  | .writeMember t name v => σ.writeOwned? t .assign name (Value.ofHost v)
  | .newOwned x => some (x, some Scope.empty)
  | .newOwnedInside h x => σ.handles[h]?.map fun i => (x, some ⟨∅, some i⟩)
  | .copyScope p x => (σ.scopeAt? p).map fun s => (x, some s)
  | .wrap s _ => σ.owned[s]?.map fun _ => (s, some Scope.empty)
  | _ => none

/-- The environment that an action binds. -/
def Action.environment? (a : Action) (σ : Session) : Rebinding Environment :=
  match a with
  | .newEnvironment limits x => some (x, some (Environment.create σ.arena limits).1)
  | .newEnvironmentOver h limits x =>
    σ.handles[h]?.map fun i => (x, some (Environment.ofScope σ.heap i limits))
  | .callFrom e x => σ.environments[e]?.map fun env => (x, some (env.child σ.heap))
  | .enterClosure e h x => σ.environments[e]?.bind fun env => σ.handles[h]?.bind fun i =>
    match env.policy.objection? (σ.heap.depth i + 1) with
    | none => some (x, some (env.frame σ.heap i ⟨σ.heap.size⟩))
    | some _ => none
  | .openBlock e => σ.environments[e]?.bind fun env =>
    match env.policy.objection? (env.depth + 1) with
    | none => some (e, some (env.opened ⟨σ.heap.size⟩))
    | some _ => none
  | .closeBlock e _ => σ.environments[e]?.map fun env => (e, some env.closed)
  | .dropEnvironment e => some (e, none)
  | _ => none

/-! ## 4. This is all that an action does -/

/-- A session that differs in the events alone from one to which a deed and
three rebindings were applied. -/
def Session.changed (σ : Session) (deed? : Option Deed) (handle? : Rebinding Handle)
    (owned? : Rebinding Scope) (environment? : Rebinding Environment) (events : Array Event) :
    Session :=
  { arena := ⟨σ.heap.perform deed?, events⟩
    handles := σ.handles.rebind handle?
    owned := σ.owned.rebind owned?
    environments := σ.environments.rebind environment?
    shown := σ.shown }

theorem Session.write_eq (σ : Session) (t : Target) (mode : WriteMode) (name : String)
    (v : Value) : (σ.write t mode name v).1 = σ.changed (σ.writeDeed? t mode name v) none
      (σ.writeOwned? t mode name v) none (σ.write t mode name v).1.arena.events := by
  match t with
  | .place (.shared h) =>
    rw [Session.write, withHandle, writeDeed?]
    cases σ.handles[h]? <;> rfl
  | .place (.owned s) =>
    rw [Session.write, withOwned, writeDeed?, writeOwned?]
    cases σ.owned[s]? with
    | none => rfl
    | some scope =>
      rw [changed, Option.bind_some, ← scope.write_snd σ.heap mode name v]
      rfl
  | .environment e =>
    rw [Session.write, withEnvironment, writeDeed?]
    cases σ.environments[e]? with
    | none => rfl
    | some env => cases mode <;> rfl

theorem Session.openBlock_eq (σ : Session) (e : String) {env : Environment}
    (he : σ.environments[e]? = some env) :
    σ.openBlock e = match env.policy.objection? (env.depth + 1) with
      | some (.depthExceeded depth limit) =>
        ({ σ with arena := σ.arena.report (.limitReached depth limit) },
          .error (.nesting (.depthExceeded depth limit)))
      | none => ({ σ with
          arena := (σ.arena.add (Scope.inside env.current)).1.report (.blockOpened (env.depth + 1))
          environments := σ.environments.insert e (env.opened ⟨σ.heap.size⟩) }, .ok ()) := by
  unfold openBlock
  simp only [he, Environment.openBlock_eq]
  rcases env.policy.objection? (env.depth + 1) with _ | ⟨depth, limit⟩ <;> rfl

theorem Session.openBlock_unknown (σ : Session) (e : String) (he : σ.environments[e]? = none) :
    σ.openBlock e = (σ, .error (.misuse .unknownEnvironment)) := by
  unfold openBlock
  rw [he]

theorem Session.openBlock_admitted (σ : Session) (e : String) {env : Environment}
    (he : σ.environments[e]? = some env) (hp : env.policy.Admits (env.depth + 1)) :
    σ.openBlock e = ({ σ with
      arena := (σ.arena.add (Scope.inside env.current)).1.report (.blockOpened (env.depth + 1))
      environments := σ.environments.insert e (env.opened ⟨σ.heap.size⟩) }, .ok ()) := by
  rw [σ.openBlock_eq e he, Policy.objection?_eq_none_iff.mpr hp]

theorem Session.openBlock_refused (σ : Session) (e : String) {env : Environment} {limit : Nat}
    (he : σ.environments[e]? = some env) (hp : env.policy.maxDepth = some limit)
    (hlt : limit < env.depth + 1) :
    σ.openBlock e = ({ σ with arena := σ.arena.report (.limitReached (env.depth + 1) limit) },
      .error (.nesting (.depthExceeded (env.depth + 1) limit))) := by
  rw [σ.openBlock_eq e he, Policy.objection?_of_lt hp hlt]

theorem Session.closeBlock_eq (σ : Session) (e : String) (env : Environment) :
    σ.closeBlock e env = (env.blocks.head?, env.closed, { σ with
      arena := (env.closeBlock σ.arena).2.2
      environments := σ.environments.insert e env.closed }) := by
  obtain ⟨arena, handles, owned, environments, shown⟩ := σ
  rw [closeBlock, Environment.closeBlock_eq]

theorem Session.enterClosure_eq (σ : Session) (e h name : String) {env : Environment} {i : Handle}
    (he : σ.environments[e]? = some env) (hh : σ.handles[h]? = some i) :
    σ.enterClosure e h name = match env.policy.objection? (σ.heap.depth i + 1) with
      | some (.depthExceeded depth limit) =>
        ({ σ with arena := σ.arena.report (.limitReached depth limit) },
          .refused (.nesting (.depthExceeded depth limit)))
      | none => ({ σ with
          arena := (σ.arena.add (Scope.inside i)).1.report
            (.closureEntered (σ.heap.depth i + 1))
          environments := σ.environments.insert name (env.frame σ.heap i ⟨σ.heap.size⟩) },
          .opened) := by
  unfold enterClosure withEnvironment withHandle
  simp only [he, hh, Environment.enterClosure_eq]
  rcases env.policy.objection? (σ.heap.depth i + 1) with _ | ⟨depth, limit⟩ <;> rfl

/-- A `store` that replaces nothing does nothing. -/
theorem Session.store_refused {σ : Session} {s h : String}
    (hs : (Action.store s h).keepsContents σ) : (σ.store s h).1 = σ := by
  rw [Action.keepsContents, Option.isNone_iff_eq_none] at hs
  rw [store, withOwned]
  cases ho : σ.owned[s]? with
  | none => rfl
  | some scope =>
    dsimp only
    rw [withHandle]
    cases hh : σ.handles[h]? with
    | none => rfl
    | some i =>
      rw [ho, hh] at hs
      dsimp only [Option.bind_some] at hs ⊢
      rw [hs]
      rfl

/-- **What an action does.** Its deed, its rebindings, and what it reports. -/
theorem Action.run_eq {a : Action} {σ : Session} (ha : a.keepsContents σ) :
    (a.run σ).1 = σ.changed (a.deed? σ) (a.handle? σ) (a.owned? σ) (a.environment? σ)
      (a.run σ).1.arena.events := by
  -- each case asks whether the names that the action looks up are there
  cases a with
  | write t mode name v => exact σ.write_eq t mode name v
  | writeMember t name v => exact σ.write_eq t .assign name (Value.ofHost v)
  | store s h =>
    rw [run, Session.store_refused ha]
    rfl
  | read t query name =>
    rcases t with (h | s) | e
    · simp only [run, Session.withLookup, Session.withHandle]
      cases σ.handles[h]? <;> rfl
    · simp only [run, Session.withLookup, Session.withOwned]
      cases σ.owned[s]? <;> rfl
    · simp only [run, Session.withLookup, Session.withEnvironment]
      cases σ.environments[e]? <;> rfl
  | bindsHere t name =>
    rcases t with (h | s) | e
    · simp only [run, Session.bindsHere, Session.withScope, Session.withHandle]
      cases σ.handles[h]? <;> rfl
    · simp only [run, Session.bindsHere, Session.withScope, Session.withOwned]
      cases σ.owned[s]? <;> rfl
    · simp only [run, Session.bindsHere, Session.withEnvironment]
      cases σ.environments[e]? <;> rfl
  | inspect p =>
    rcases p with h | s
    · simp only [run, Session.inspect, Session.withHandle]
      cases σ.handles[h]? <;> rfl
    · simp only [run, Session.inspect, Session.withOwned]
      cases σ.owned[s]? <;> rfl
  | takeParent p name =>
    rcases p with h | s
    · simp only [run, Session.takeParent, Session.withScope, Session.withHandle, handle?,
        Session.scopeAt?]
      cases σ.handles[h]? with
      | none => rfl
      | some i =>
        simp only [Option.map_some, Option.bind_some]
        cases (σ.heap.scope i).parent <;> rfl
    · simp only [run, Session.takeParent, Session.withScope, Session.withOwned, handle?,
        Session.scopeAt?]
      cases σ.owned[s]? with
      | none => rfl
      | some scope =>
        simp only [Option.bind_some]
        cases scope.parent <;> rfl
  | copyScope p name =>
    rcases p with h | s
    · simp only [run, Session.withScope, Session.withHandle, owned?, Session.scopeAt?]
      cases σ.handles[h]? <;> rfl
    · simp only [run, Session.withScope, Session.withOwned, owned?, Session.scopeAt?]
      cases σ.owned[s]? <;> rfl
  | sameScope x y =>
    simp only [run, Session.withHandle]
    cases σ.handles[x]? with
    | none => rfl
    | some i => cases σ.handles[y]? <;> rfl
  | share h name | newChild h name | takeRoot h name | newOwnedInside h name | chainDepth h
  | newEnvironmentOver h limits name =>
    simp only [run, deed?, handle?, owned?, environment?, Session.withHandle]
    cases σ.handles[h]? <;> rfl
  | wrap s name =>
    rw [run, Session.wrap, Session.withOwned, deed?, handle?, owned?]
    cases σ.owned[s]? <;> rfl
  | enterClosure e h name =>
    rw [run, deed?, environment?]
    cases he : σ.environments[e]? with
    | none =>
      simp only [Session.enterClosure, Session.withEnvironment, he]
      rfl
    | some env =>
      cases hh : σ.handles[h]? with
      | none =>
        simp only [Session.enterClosure, Session.withEnvironment, Session.withHandle, he, hh]
        rfl
      | some i =>
        simp only [σ.enterClosure_eq e h name he hh, Option.bind_some]
        rcases env.policy.objection? (σ.heap.depth i + 1) with _ | ⟨depth, limit⟩ <;> rfl
  | openBlock e =>
    rw [Session.run_openBlock, deed?, environment?]
    cases he : σ.environments[e]? with
    | none => simp only [Session.openBlock, he]; rfl
    | some env =>
      simp only [σ.openBlock_eq e he, Option.bind_some]
      rcases env.policy.objection? (env.depth + 1) with _ | ⟨depth, limit⟩ <;> rfl
  | closeBlock e name =>
    simp only [run, Session.withEnvironment, environment?, Session.closeBlock_eq,
      Environment.closeBlock_eq]
    cases he : σ.environments[e]? with
    | none => cases name <;> simp [handle?, he] <;> rfl
    | some env =>
      obtain ⟨base, blocks, global, baseDepth, policy⟩ := env
      cases blocks <;> cases name <;> simp [handle?, he] <;> rfl
  | callFrom e name | depth e | policy e | takeGlobal e name | takeCurrent e name =>
    simp only [run, deed?, handle?, owned?, environment?, Session.withEnvironment]
    cases σ.environments[e]? <;> rfl
  | _ => rfl

section Projections

variable {a : Action} {σ : Session} (ha : a.keepsContents σ)
include ha

theorem Action.run_heap : (a.run σ).1.heap = σ.heap.perform (a.deed? σ) := by
  rw [run_eq ha]; rfl

theorem Action.run_handles : (a.run σ).1.handles = σ.handles.rebind (a.handle? σ) := by
  rw [run_eq ha]; rfl

theorem Action.run_owned : (a.run σ).1.owned = σ.owned.rebind (a.owned? σ) := by
  rw [run_eq ha]; rfl

end Projections

/-- Of the environments this holds for every action. -/
theorem Action.run_environments (a : Action) (σ : Session) :
    (a.run σ).1.environments = σ.environments.rebind (a.environment? σ) := by
  cases ha : a.keepsContents σ with
  | true =>
    rw [run_eq ha]
    rfl
  | false =>
    cases a with
    | store s h =>
      rw [run, Session.store, Session.withOwned]
      cases σ.owned[s]? with
      | none => rfl
      | some scope =>
        dsimp only
        rw [Session.withHandle]
        cases σ.handles[h]? with
        | none => rfl
        | some i =>
          dsimp only
          cases σ.arena.heap.replace? i scope <;> rfl
    | _ => cases ha

/-! ## 5. Where things come from -/

theorem Environment.mem_held {e : Environment} {i : Handle} :
    i ∈ e.held ↔ i ∈ e.frames ∨ i = e.global := by
  simp [held]

/-- The name that a place has in its table. -/
def Place.tableName : Place → String
  | .shared h => h
  | .owned s => s

/-- The name that a target has in its table. -/
def Target.tableName : Target → String
  | .place p => p.tableName
  | .environment e => e

/-- The names of the tables that an action mentions. -/
def Action.names : Action → List String
  | .read t _ _ | .bindsHere t _ | .write t _ _ _ | .writeMember t _ _ => [t.tableName]
  | .inspect p => [p.tableName]
  | .takeParent p x | .copyScope p x => [p.tableName, x]
  | .newScope x | .dropHandle x | .newOwned x | .newEnvironment _ x | .dropEnvironment x
  | .chainDepth x | .openBlock x | .depth x | .policy x | .closeBlock x none => [x]
  | .share x y | .newChild x y | .takeRoot x y | .sameScope x y | .newOwnedInside x y | .wrap x y
  | .store x y | .newEnvironmentOver x _ y | .callFrom x y | .takeGlobal x y | .takeCurrent x y
  | .closeBlock x (some y) => [x, y]
  | .enterClosure x y z => [x, y, z]
  | .snapshot | .rest | .unknown => []

/-- The handles that the names of the tables lead to at once; `mine` says
which names count. -/
inductive Session.Holds (mine : String → Bool) (σ : Session) : Handle → Prop
  | bound {x : String} {i : Handle} (hx : mine x) (h : σ.handles[x]? = some i) : Holds mine σ i
  | parent {x : String} {s : Scope} {i : Handle} (hx : mine x) (h : σ.owned[x]? = some s)
    (hi : s.parent = some i) : Holds mine σ i
  | held {x : String} {e : Environment} {i : Handle} (hx : mine x)
    (h : σ.environments[x]? = some e) (hi : i ∈ e.held) : Holds mine σ i

/-- The handles that an action can get hold of: those in the tables, those of
the scopes in the tables, and the roots above them. -/
inductive Session.Offers (σ : Session) : Handle → Prop
  | bound {x : String} {i : Handle} (h : σ.handles[x]? = some i) : σ.Offers i
  | root {x : String} {i : Handle} (h : σ.handles[x]? = some i) : σ.Offers (σ.heap.root i)
  | parent {p : Place} {s : Scope} {i : Handle} (h : σ.scopeAt? p = some s)
    (hi : s.parent = some i) : σ.Offers i
  | held {x : String} {e : Environment} {i : Handle} (h : σ.environments[x]? = some e)
    (hi : i ∈ e.held) : σ.Offers i

theorem Session.Holds.current {mine : String → Bool} {σ : Session} {x : String} {e : Environment}
    (hx : mine x) (h : σ.environments[x]? = some e) : σ.Holds mine e.current :=
  .held hx h (Environment.mem_held.mpr (.inl e.current_mem_frames))

theorem Session.Holds.offers {mine : String → Bool} {σ : Session} {i : Handle}
    (h : σ.Holds mine i) : σ.Offers i := by
  cases h with
  | bound _ hi => exact .bound hi
  | @parent x s _ _ hs hi => exact .parent (p := .owned x) hs hi
  | held _ he hi => exact .held he hi

theorem Session.writeDeed?_holds {mine : String → Bool} {σ : Session} {t : Target}
    {mode : WriteMode} {name : String} {v : Value} {d : Deed}
    (h : σ.writeDeed? t mode name v = some d) (ht : mine t.tableName) :
    ∀ i ∈ d.uses, σ.Holds mine i := by
  intro k hk
  match t with
  | .place (.shared x) =>
    obtain ⟨i, hi, rfl⟩ := Option.map_eq_some_iff.mp h
    rw [Deed.uses, List.mem_singleton] at hk
    exact hk ▸ .bound ht hi
  | .place (.owned x) =>
    obtain ⟨s, hs, hd⟩ := Option.bind_eq_some_iff.mp h
    have hparent : ∀ m, (s.parent.map fun p => Deed.write m p name v) = some d →
        σ.Holds mine k := by
      intro m hm
      obtain ⟨p, hp, rfl⟩ := Option.map_eq_some_iff.mp hm
      rw [Deed.uses, List.mem_singleton] at hk
      exact hk ▸ .parent ht hs hp
    cases mode with
    | declare => cases hd
    | assign =>
      simp only [Scope.deed?] at hd
      split at hd
      · cases hd
      · exact hparent .assign hd
    | global => exact hparent .global hd
  | .environment x =>
    obtain ⟨env, he, rfl⟩ := Option.map_eq_some_iff.mp h
    rw [Deed.uses, List.mem_singleton] at hk
    exact hk ▸ .current ht he

/-- The deed of a write is a write of the same mode, name and value. -/
theorem Session.writeDeed?_eq_write {σ : Session} {t : Target} {mode : WriteMode} {name : String}
    {v : Value} {d : Deed} (h : σ.writeDeed? t mode name v = some d) :
    ∃ i, d = .write mode i name v := by
  match t with
  | .place (.shared x) =>
    obtain ⟨i, -, rfl⟩ := Option.map_eq_some_iff.mp h
    exact ⟨i, rfl⟩
  | .environment x =>
    obtain ⟨e, -, rfl⟩ := Option.map_eq_some_iff.mp h
    exact ⟨e.current, rfl⟩
  | .place (.owned x) =>
    obtain ⟨s, -, h⟩ := Option.bind_eq_some_iff.mp h
    cases mode with
    | declare => cases h
    | assign =>
      simp only [Scope.deed?] at h
      split at h
      · cases h
      · obtain ⟨p, -, rfl⟩ := Option.map_eq_some_iff.mp h
        exact ⟨p, rfl⟩
    | global =>
      obtain ⟨p, -, rfl⟩ := Option.map_eq_some_iff.mp h
      exact ⟨p, rfl⟩

/-- Only writes write. -/
theorem Action.eq_write_of_deed? {a : Action} {σ : Session} {mode : WriteMode} {i : Handle}
    {n : String} {v : Value} (h : a.deed? σ = some (.write mode i n v)) :
    (∃ t, a = .write t mode n v) ∨ mode = .assign ∧ ∃ t w, a = .writeMember t n w := by
  cases a with
  | write t mode name w =>
    obtain ⟨k, hk⟩ := Session.writeDeed?_eq_write h
    cases hk
    exact .inl ⟨t, rfl⟩
  | writeMember t name w =>
    obtain ⟨k, hk⟩ := Session.writeDeed?_eq_write h
    cases hk
    exact .inr ⟨rfl, t, w, rfl⟩
  | _ => simp_all [deed?, Option.bind_eq_some_iff] <;> grind

/-- A deed uses handles that the names of the action lead to at once. -/
theorem Action.deed?_holds {mine : String → Bool} {a : Action} {σ : Session} {d : Deed}
    (h : a.deed? σ = some d) (hmine : ∀ x ∈ a.names, mine x) : ∀ i ∈ d.uses, σ.Holds mine i := by
  cases a with
  | write t mode name v => exact Session.writeDeed?_holds h (hmine _ (List.mem_singleton_self _))
  | writeMember t name v =>
    exact Session.writeDeed?_holds h (hmine _ (List.mem_singleton_self _))
  | newScope x =>
    cases h
    intro k hk
    cases hk
  | newEnvironment limits x =>
    cases h
    intro k hk
    cases hk
  | newChild x y =>
    obtain ⟨i, hi, rfl⟩ := Option.map_eq_some_iff.mp h
    intro k hk
    rw [Deed.uses, Option.toList_some, List.mem_singleton] at hk
    exact hk ▸ .bound (hmine x (by simp [names])) hi
  | wrap x y =>
    obtain ⟨s, hs, rfl⟩ := Option.map_eq_some_iff.mp h
    intro k hk
    exact .parent (hmine x (by simp [names])) hs (Option.mem_toList.mp hk)
  | enterClosure e x y =>
    obtain ⟨env, -, h⟩ := Option.bind_eq_some_iff.mp h
    obtain ⟨i, hi, h⟩ := Option.bind_eq_some_iff.mp h
    split at h
    · cases h
      intro k hk
      rw [Deed.uses, Option.toList_some, List.mem_singleton] at hk
      exact hk ▸ .bound (hmine x (by simp [names])) hi
    · cases h
  | openBlock e =>
    obtain ⟨env, he, h⟩ := Option.bind_eq_some_iff.mp h
    split at h
    · cases h
      intro k hk
      rw [Deed.uses, Option.toList_some, List.mem_singleton] at hk
      exact hk ▸ .current (hmine e (by simp [names])) he
    · cases h
  | _ => cases h

/-- A deed uses handles that the session offers. -/
theorem Action.deed?_uses {a : Action} {σ : Session} {d : Deed} (h : a.deed? σ = some d) :
    ∀ i ∈ d.uses, σ.Offers i := by
  intro i hi
  have hholds : σ.Holds (fun _ => true) i := deed?_holds h (fun _ _ => rfl) i hi
  exact hholds.offers

/-- How an action comes to bind a handle. -/
inductive Action.Binds (σ : Session) (x : String) : Action → Handle → Prop
  | planted {a : Action} {bindings : Bindings} {parent : Option Handle}
    (hs : a.deed? σ = some (.plant bindings parent)) : Binds σ x a ⟨σ.heap.size⟩
  | shared {h : String} {i : Handle} (hi : σ.handles[h]? = some i) : Binds σ x (.share h x) i
  | root {h : String} {i : Handle} (hi : σ.handles[h]? = some i) :
    Binds σ x (.takeRoot h x) (σ.heap.root i)
  | above {p : Place} {s : Scope} {i : Handle} (hs : σ.scopeAt? p = some s)
    (hi : s.parent = some i) : Binds σ x (.takeParent p x) i
  | block {e : String} {env : Environment} {i : Handle} (he : σ.environments[e]? = some env)
    (hi : env.blocks.head? = some i) : Binds σ x (.closeBlock e (some x)) i
  | global {e : String} {env : Environment} (he : σ.environments[e]? = some env) :
    Binds σ x (.takeGlobal e x) env.global
  | current {e : String} {env : Environment} (he : σ.environments[e]? = some env) :
    Binds σ x (.takeCurrent e x) env.current

/-- **Where handles come from.** An action binds the handle of a scope that it
plants, or one that it finds. -/
theorem Action.handle?_binds {a : Action} {σ : Session} {x : String} {i : Handle}
    (h : a.handle? σ = some (x, some i)) : a.Binds σ x i := by
  cases a with
  | newScope y =>
    cases h
    exact .planted rfl
  | share y z =>
    obtain ⟨k, hk, he⟩ := Option.map_eq_some_iff.mp h
    cases he
    exact .shared hk
  | newChild y z =>
    obtain ⟨k, hk, he⟩ := Option.map_eq_some_iff.mp h
    cases he
    exact .planted (by rw [deed?, hk]; rfl)
  | takeRoot y z =>
    obtain ⟨k, hk, he⟩ := Option.map_eq_some_iff.mp h
    cases he
    exact .root hk
  | takeParent p y =>
    obtain ⟨s, hs, he⟩ := Option.bind_eq_some_iff.mp h
    obtain ⟨k, hk, he⟩ := Option.map_eq_some_iff.mp he
    cases he
    exact .above hs hk
  | dropHandle y => cases h
  | wrap y z =>
    obtain ⟨s, hs, he⟩ := Option.map_eq_some_iff.mp h
    cases he
    exact .planted (by rw [deed?, hs]; rfl)
  | closeBlock e y =>
    cases y with
    | none => cases h
    | some y =>
      obtain ⟨env, he, h⟩ := Option.bind_eq_some_iff.mp h
      obtain ⟨k, hk, hx⟩ := Option.map_eq_some_iff.mp h
      cases hx
      exact .block he hk
  | takeGlobal e y =>
    obtain ⟨env, he, hx⟩ := Option.map_eq_some_iff.mp h
    cases hx
    exact .global he
  | takeCurrent e y =>
    obtain ⟨env, he, hx⟩ := Option.map_eq_some_iff.mp h
    cases hx
    exact .current he
  | _ => cases h

theorem Environment.head?_mem_held {e : Environment} {i : Handle} (hi : e.blocks.head? = some i) :
    i ∈ e.held :=
  mem_held.mpr (.inl (List.mem_append_left _ (List.mem_of_mem_head? (Option.mem_def.mpr hi))))

/-- A handle that an action binds was on offer, unless it is that of a scope
the action has just planted. -/
theorem Action.handle?_cases {a : Action} {σ : Session} {x : String} {i : Handle}
    (h : a.handle? σ = some (x, some i)) :
    σ.Offers i ∨ i = ⟨σ.heap.size⟩ ∧ ∃ bindings parent, a.deed? σ = some (.plant bindings parent) := by
  cases handle?_binds h with
  | planted hs => exact .inr ⟨rfl, _, _, hs⟩
  | shared hi => exact .inl (.bound hi)
  | root hi => exact .inl (.root hi)
  | above hs hi => exact .inl (.parent hs hi)
  | block he hi => exact .inl (.held he (Environment.head?_mem_held hi))
  | global he => exact .inl (.held he (Environment.mem_held.mpr (.inr rfl)))
  | current he =>
    exact .inl (.held he (Environment.mem_held.mpr (.inl (Environment.current_mem_frames _))))

theorem Session.writeOwned?_parent {σ : Session} {t : Target} {mode : WriteMode} {name : String}
    {v : Value} {x : String} {s : Scope} (h : σ.writeOwned? t mode name v = some (x, some s)) :
    ∀ i ∈ s.parent, σ.Offers i := by
  match t with
  | .place (.owned y) =>
    obtain ⟨scope, hs, he⟩ := Option.map_eq_some_iff.mp h
    cases he
    intro i hi
    rw [Scope.write_fst_parent] at hi
    exact .parent (p := .owned _) hs hi

/-- The parent of a scope that an action stores was on offer. -/
theorem Action.owned?_parent {a : Action} {σ : Session} {x : String} {s : Scope}
    (h : a.owned? σ = some (x, some s)) : ∀ i ∈ s.parent, σ.Offers i := by
  cases a with
  | write t mode name v => exact Session.writeOwned?_parent h
  | writeMember t name v => exact Session.writeOwned?_parent h
  | newOwned y =>
    cases h
    intro i hi
    cases hi
  | newOwnedInside y z =>
    obtain ⟨k, hk, he⟩ := Option.map_eq_some_iff.mp h
    cases he
    intro i hi
    cases hi
    exact .bound hk
  | copyScope p y =>
    obtain ⟨scope, hs, he⟩ := Option.map_eq_some_iff.mp h
    cases he
    exact fun i hi => .parent hs hi
  | wrap y z =>
    obtain ⟨scope, hs, he⟩ := Option.map_eq_some_iff.mp h
    cases he
    intro i hi
    cases hi
  | _ => cases h

theorem Action.deed?_openBlock {σ : Session} {e : String} {env : Environment}
    (he : σ.environments[e]? = some env) (hp : env.policy.Admits (env.depth + 1)) :
    (Action.openBlock e).deed? σ = some (.plant ∅ (some env.current)) := by
  simp only [deed?, he, Option.bind_some, Policy.objection?_eq_none_iff.mpr hp]

theorem Action.deed?_enterClosure {σ : Session} {e h name : String} {env : Environment}
    {i : Handle} (he : σ.environments[e]? = some env) (hi : σ.handles[h]? = some i)
    (hp : env.policy.Admits (σ.heap.depth i + 1)) :
    (Action.enterClosure e h name).deed? σ = some (.plant ∅ (some i)) := by
  simp only [deed?, he, hi, Option.bind_some, Policy.objection?_eq_none_iff.mpr hp]

/-- How an action comes to bind an environment, or to drop one. -/
inductive Action.Makes (σ : Session) (x : String) : Action → Option Environment → Prop
  | created (limits : Policy) :
    Makes σ x (.newEnvironment limits x) (some (Environment.create σ.arena limits).1)
  | placed {h : String} {i : Handle} (limits : Policy) (hi : σ.handles[h]? = some i) :
    Makes σ x (.newEnvironmentOver h limits x) (some (Environment.ofScope σ.heap i limits))
  | called {e : String} {env : Environment} (he : σ.environments[e]? = some env) :
    Makes σ x (.callFrom e x) (some (env.child σ.heap))
  | entered {e h : String} {env : Environment} {i : Handle} (he : σ.environments[e]? = some env)
    (hi : σ.handles[h]? = some i) (hp : env.policy.Admits (σ.heap.depth i + 1)) :
    Makes σ x (.enterClosure e h x) (some (env.frame σ.heap i ⟨σ.heap.size⟩))
  | opened {env : Environment} (he : σ.environments[x]? = some env)
    (hp : env.policy.Admits (env.depth + 1)) :
    Makes σ x (.openBlock x) (some (env.opened ⟨σ.heap.size⟩))
  | closed {env : Environment} (he : σ.environments[x]? = some env) (name : Option String) :
    Makes σ x (.closeBlock x name) (some env.closed)
  | dropped : Makes σ x (.dropEnvironment x) none

/-- **Where environments come from.** There are six ways to bind one and one
to drop it, and no other action does either. -/
theorem Action.environment?_makes {a : Action} {σ : Session} {x : String}
    {env? : Option Environment} (h : a.environment? σ = some (x, env?)) : a.Makes σ x env? := by
  cases a with
  | newEnvironment limits y =>
    cases h
    exact .created limits
  | newEnvironmentOver y limits z =>
    obtain ⟨i, hi, he⟩ := Option.map_eq_some_iff.mp h
    cases he
    exact .placed limits hi
  | callFrom e y =>
    obtain ⟨env, hv, he⟩ := Option.map_eq_some_iff.mp h
    cases he
    exact .called hv
  | enterClosure e y z =>
    obtain ⟨env, hv, h⟩ := Option.bind_eq_some_iff.mp h
    obtain ⟨i, hi, h⟩ := Option.bind_eq_some_iff.mp h
    split at h
    · next hp =>
      cases h
      exact .entered hv hi (Policy.objection?_eq_none_iff.mp hp)
    · cases h
  | openBlock e =>
    obtain ⟨env, hv, h⟩ := Option.bind_eq_some_iff.mp h
    split at h
    · next hp =>
      cases h
      exact .opened hv (Policy.objection?_eq_none_iff.mp hp)
    · cases h
  | closeBlock e y =>
    obtain ⟨env, hv, he⟩ := Option.map_eq_some_iff.mp h
    cases he
    exact .closed hv _
  | dropEnvironment e =>
    cases h
    exact .dropped
  | _ => cases h

end ScopeChain

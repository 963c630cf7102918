/-
ScopeChain.Proofs.Containment — what is done in a frame stays in it.

A function call or a closure entry makes a FRAME over a scope that was
there: for a call the global scope of the caller, for a closure the scope
it captured. Suppose that from then on only the frame is used and what
comes of it: its blocks, calls from it, handles captured in it, closures
entered on those. Then everything that existed before is as it was, with
two exceptions on the chain of the frame's scope. A name that a scope
there already binds can be assigned a new value, and the root can gain
names. So what a frame declares is not seen from outside, unless it goes
to the root.

The invariant (`Session.Inside`) is about what can be reached. All handles
in use are those of new scopes or of the root (`Heap.Inner`), and a new
scope has a new parent or one on the chain (`Heap.Near`). So a write goes
to a new scope or to the root, or else it is an assignment that found its
name bound on the chain (`Heap.Around.target_cases`).
-/
import Mathlib.Data.List.Find
import ScopeChain.Proofs.Agreement
import ScopeChain.Proofs.StackMirror

namespace ScopeChain

/-! ## 1. Heaps around a frame -/

/-- How a heap may change while a frame over the scope at `c` is in use. The
cells from before keep their parents, those that are not on the chain of `c`
keep all they have, and those on it keep the names they bind, but for the
root, which may bind more. Only names that are assigned change their values,
except in the root. -/
structure Heap.Contains (heap : Heap) (c : Handle) (assigned : String → Bool) (later : Heap) :
    Prop where
  grows : Heap.Grows heap later
  off : ∀ k : Handle, k.index < heap.size → k ∉ heap.chain c → later.scope k = heap.scope k
  on : ∀ k ∈ heap.chain c, k ≠ heap.root c →
    ∀ n, (later.scope k).binds n = (heap.scope k).binds n
  root : ∀ n, (heap.scope (heap.root c)).binds n → (later.scope (heap.root c)).binds n
  unassigned : ∀ k : Handle, k.index < heap.size → k ≠ heap.root c →
    ∀ n, ¬ assigned n → (later.scope k).find? n = (heap.scope k).find? n

/-- The cell is new, or the root of the chain of `c`. -/
def Heap.Inner (heap : Heap) (c k : Handle) : Prop := heap.size ≤ k.index ∨ k = heap.root c

/-- The cell is new, or on the chain of `c`. -/
def Heap.Near (heap : Heap) (c k : Handle) : Prop := heap.size ≤ k.index ∨ k ∈ heap.chain c

/-- A heap that contains the frame, in which the parents of new scopes are new
or on the chain of `c`. -/
structure Heap.Around (heap : Heap) (c : Handle) (assigned : String → Bool) (later : Heap) :
    Prop extends Heap.Contains heap c assigned later where
  near : ∀ k : Handle, heap.size ≤ k.index →
    ∀ p, (later.scope k).parent = some p → heap.Near c p

namespace Heap

variable {heap later : Heap} {c i k : Handle} {assigned : String → Bool}

theorem Around.refl (heap : Heap) (c : Handle) (assigned : String → Bool) :
    heap.Around c assigned heap where
  grows := .refl heap
  off _ _ _ := rfl
  on _ _ _ _ := rfl
  root _ := id
  unassigned _ _ _ _ _ := rfl
  near k hk p hp := by
    have hout : heap.scope k = Scope.empty := by
      rw [scope, Store.read?_eq_none_iff.mpr hk, Option.getD_none]
    rw [hout] at hp
    cases hp

section

variable (hac : heap.Acyclic) (hc : c.index < heap.size)
include hac hc

theorem Near.of_inner (h : heap.Inner c k) : heap.Near c k := by
  rcases h with hk | rfl
  · exact .inl hk
  · exact .inr (hac.root_mem_chain hc)

variable (h : heap.Around c assigned later)
include h

/-- Climbing from a near cell meets near cells only. -/
theorem Around.near_path {start : Option Handle} {path : List Handle}
    (hpath : later.IsPath start path) (hstart : ∀ i, start = some i → heap.Near c i) :
    ∀ k ∈ path, heap.Near c k := by
  induction hpath with
  | done => simp
  | @up i rest _ _ ih =>
    have hi := hstart i rfl
    have hparent : ∀ p, (later.scope i).parent = some p → heap.Near c p := by
      intro p hp
      rcases hi with hnew | hmem
      · exact h.near i hnew p hp
      · have hlt := (hac.isPath_chain hc).lt_size i hmem
        rw [h.grows.parent_eq i hlt] at hp
        exact .inr (hac.parent_mem_chain hc hmem hp)
    intro k hk
    rcases List.mem_cons.mp hk with rfl | hk
    · exact hi
    · exact ih hparent k hk

variable (hlater : later.Acyclic) (hi : i.index < later.size) (hinner : heap.Inner c i)
include hlater hi hinner

theorem Around.near_chain : ∀ k ∈ later.chain i, heap.Near c k := by
  refine h.near_path hac hc (hlater.isPath_chain hi) ?_
  rintro _ ⟨⟩
  exact .of_inner hac hc hinner

theorem Around.inner_root : heap.Inner c (later.root i) := by
  have hmem := hlater.root_mem_chain hi
  rcases h.near_chain hac hc hlater hi hinner _ hmem with hnew | hroot
  · exact .inl hnew
  · have hlt := (hac.isPath_chain hc).lt_size _ hroot
    have hparent := hlater.parent_root hi
    rw [h.grows.parent_eq _ hlt] at hparent
    exact .inr (hac.eq_root_of_mem_chain hc hroot hparent)

/-- **Where writes go**: to a new scope or to the root, or else it is an
assignment and the scope is one on the chain that binds the name. -/
theorem Around.target_cases (mode : WriteMode) (name : String) :
    heap.Inner c (later.target mode i name) ∨
    mode = .assign ∧ later.target mode i name ∈ heap.chain c ∧
      (later.scope (later.target mode i name)).binds name := by
  have hroot := h.inner_root hac hc hlater hi hinner
  cases mode with
  | declare => exact .inl hinner
  | global => exact .inl hroot
  | assign =>
    rw [target]
    cases hbinder : later.binder? (some i) name with
    | none => exact .inl hroot
    | some t =>
      rw [binder?, firstUp?_eq_find?] at hbinder
      have hmem : t ∈ later.chain i := List.mem_of_find?_eq_some hbinder
      have hbinds : (later.scope t).binds name :=
        List.find?_some (p := fun i => (later.scope i).binds name) hbinder
      rcases h.near_chain hac hc hlater hi hinner t hmem with hnew | hchain
      · exact .inl (.inl hnew)
      · exact .inr ⟨rfl, hchain, hbinds⟩

/-- **A write stays contained.** -/
theorem Around.write {mode : WriteMode} {name : String}
    (hassigned : mode = .assign → assigned name) (v : Value) :
    heap.Around c assigned (later.write mode i name v) := by
  have htarget := h.target_cases hac hc hlater hi hinner mode name
  have hroot := hac.root_mem_chain hc
  rw [Heap.write]
  generalize later.target mode i name = t at htarget
  -- if the target is an old scope and no root, it is assigned and had the name
  have hold : ∀ k : Handle, k.index < heap.size → k ≠ heap.root c → k = t →
      mode = .assign ∧ k ∈ heap.chain c ∧ (later.scope k).binds name := by
    rintro k hk hkr rfl
    rcases htarget with (hnew | hkr') | h
    · omega
    · exact absurd hkr' hkr
    · exact h
  have hsame : ∀ k, k ≠ t → (later.bindAt t name v).scope k = later.scope k := by
    intro k hk
    rw [scope_bindAt, if_neg fun hc => hk hc.1]
  refine ⟨⟨⟨?_, fun k hk => ?_⟩, fun k hk hout => ?_, fun k hk hkr n => ?_, fun n hn => ?_,
    fun k hk hkr n hn => ?_⟩, fun k hk p hp => ?_⟩
  · rw [size_bindAt]
    exact h.grows.size_le
  · rw [parent_bindAt]
    exact h.grows.parent_eq k hk
  · have hkr : k ≠ heap.root c := fun heq => hout (heq ▸ hroot)
    rw [hsame k fun hkt => hout (hold k hk hkr hkt).2.1]
    exact h.off k hk hout
  · have hlt := (hac.isPath_chain hc).lt_size k hk
    rw [← h.on k hk hkr n]
    by_cases hkt : k = t
    · exact later.binds_bindAt_of_binds (hkt ▸ (hold k hlt hkr hkt).2.2) v
    · rw [hsame k hkt]
  · exact later.binds_bindAt_mono t name v (h.root n hn)
  · rw [← h.unassigned k hk hkr n hn]
    by_cases hkt : k = t
    · have hne : n ≠ name := by
        rintro rfl
        exact hn (hassigned (hold k hk hkr hkt).1)
      exact later.find?_bindAt_ne t v k hne
    · rw [hsame k hkt]
  · rw [parent_bindAt] at hp
    exact h.near k hk p hp

omit hlater hi hinner in
/-- **A new scope stays contained**, if it is in a new one, in one on the
chain, or in none. -/
theorem Around.plant {s : Scope} (hs : ∀ p, s.parent = some p → heap.Near c p) :
    heap.Around c assigned (later.add s).1 := by
  have hold : ∀ k : Handle, k.index < heap.size → (later.add s).1.scope k = later.scope k :=
    fun k hk => later.scope_add_of_lt s (h.grows.lt_size hk)
  refine ⟨⟨⟨?_, fun k hk => ?_⟩, fun k hk hout => ?_, fun k hk hkr n => ?_, fun n hn => ?_,
    fun k hk hkr n hn => ?_⟩, fun k hk p hp => ?_⟩
  · have := h.grows.size_le
    rw [size_add]
    omega
  · rw [hold k hk]
    exact h.grows.parent_eq k hk
  · rw [hold k hk]
    exact h.off k hk hout
  · rw [hold k ((hac.isPath_chain hc).lt_size k hk)]
    exact h.on k hk hkr n
  · rw [hold _ (hac.root_lt hc)]
    exact h.root n hn
  · rw [hold k hk]
    exact h.unassigned k hk hkr n hn
  · rw [scope_add] at hp
    split at hp
    · exact hs p hp
    · exact h.near k hk p hp

end

/-- **What is seen from before.** A name seen from a scope that was there is
bound where it was bound, or else nothing bound it and now the root does. -/
theorem Contains.binder?_cases (h : heap.Contains c assigned later) (hac : heap.Acyclic)
    (hc : c.index < heap.size) (hk : k.index < heap.size) (n : String) :
    later.binder? (some k) n = heap.binder? (some k) n ∨
    heap.binder? (some k) n = none ∧ later.binder? (some k) n = some (heap.root c) := by
  have hbinds : ∀ x ∈ heap.chain k, x ≠ heap.root c →
      (later.scope x).binds n = (heap.scope x).binds n := by
    intro x hx hxr
    by_cases hxc : x ∈ heap.chain c
    · exact h.on x hxc hxr n
    · rw [h.off x ((hac.isPath_chain hk).lt_size x hx) hxc]
  have hchain : later.chain k = heap.chain k := hac.chain_grow h.grows hk
  rw [binder?, binder?, firstUp?_eq_find?, firstUp?_eq_find?]
  rw [show later.path (some k) = heap.chain k from hchain,
    show heap.path (some k) = heap.chain k from rfl]
  by_cases hr : heap.root c ∈ heap.chain k
  · -- the root comes last, so what is bound before it is found first
    obtain ⟨before, hbefore⟩ := hac.chain_suffix hk hr
    rw [hac.chain_root hc] at hbefore
    have hnodup := (hac.isPath_chain hk).nodup
    rw [← hbefore] at hbinds hnodup ⊢
    have hout : ∀ x ∈ before, x ≠ heap.root c := by
      rintro x hx rfl
      exact (List.nodup_append.mp hnodup).2.2 _ hx _ (List.mem_singleton_self _) rfl
    have hfind : before.find? (fun x => (later.scope x).binds n) =
        before.find? (fun x => (heap.scope x).binds n) :=
      List.find?_congr fun x hx => hbinds x (List.mem_append_left _ hx) (hout x hx)
    rw [List.find?_append, List.find?_append, hfind]
    cases before.find? (fun x => (heap.scope x).binds n) with
    | some x => exact .inl rfl
    | none =>
      have hroot := h.root n
      cases hp : (heap.scope (heap.root c)).binds n <;>
        cases hq : (later.scope (heap.root c)).binds n <;> simp_all
  · refine .inl (List.find?_congr fun x hx => hbinds x hx ?_)
    rintro rfl
    exact hr hx

end Heap

/-! ## 2. Actions in a frame -/

/-- The action does not get at the parent of a scope, and replaces none. -/
def Action.staysInside : Action → Bool
  | .takeParent _ _ => false
  | .copyScope _ _ => false
  | .store _ _ => false
  | _ => true

/-- The action uses only what is mine, and that from inside. -/
def Action.inFrame (mine : String → Bool) (a : Action) : Bool :=
  a.names.all mine && a.staysInside

/-- The name that an action assigns. -/
def Action.assigned? : Action → Option String
  | .write _ .assign name _ => some name
  | .writeMember _ name _ => some name
  | _ => none

/-- The move assigns the name. -/
def Move.assigns (name : String) : Move → Bool
  | .act a => a.assigned? == some name
  | .mark => false

namespace Action

variable {a : Action} {σ : Session} {mine : String → Bool}

theorem keepsContents_of_staysInside (h : a.staysInside) (σ : Session) : a.keepsContents σ := by
  cases a <;> first | rfl | cases h

theorem mine_of_inFrame (h : a.inFrame mine) : ∀ x ∈ a.names, mine x := by
  rw [inFrame, Bool.and_eq_true, List.all_eq_true] at h
  exact h.1

theorem staysInside_of_inFrame (h : a.inFrame mine) : a.staysInside := by
  rw [inFrame, Bool.and_eq_true] at h
  exact h.2

theorem assigned?_of_deed? {i : Handle} {n : String} {v : Value}
    (h : a.deed? σ = some (.write .assign i n v)) : a.assigned? = some n := by
  rcases eq_write_of_deed? h with ⟨t, rfl⟩ | ⟨-, t, w, rfl⟩ <;> rfl

/-- An owned scope that an action in a frame stores has a parent that its names
lead to. -/
theorem owned?_holds {x : String} {s : Scope} (hs : a.owned? σ = some (x, some s))
    (h : a.inFrame mine) : ∀ p, s.parent = some p → σ.Holds mine p := by
  have hmine := mine_of_inFrame h
  have hwrite : ∀ {t : Target} {mode : WriteMode} {name : String} {v : Value},
      mine t.tableName → σ.writeOwned? t mode name v = some (x, some s) →
      ∀ p, s.parent = some p → σ.Holds mine p := by
    intro t mode name v ht hw p hp
    match t with
    | .place (.owned y) =>
      obtain ⟨scope, hscope, he⟩ := Option.map_eq_some_iff.mp hw
      cases he
      rw [Scope.write_fst_parent] at hp
      exact .parent ht hscope hp
  cases a with
  | write t mode name v => exact hwrite (hmine _ (List.mem_singleton_self _)) hs
  | writeMember t name v => exact hwrite (hmine _ (List.mem_singleton_self _)) hs
  | newOwned y =>
    cases hs
    rintro p ⟨⟩
  | newOwnedInside y z =>
    obtain ⟨k, hk, he⟩ := Option.map_eq_some_iff.mp hs
    cases he
    rintro p ⟨⟩
    exact .bound (hmine y (by simp [names])) hk
  | copyScope q y => cases staysInside_of_inFrame h
  | wrap y z =>
    obtain ⟨scope, -, he⟩ := Option.map_eq_some_iff.mp hs
    cases he
    rintro p ⟨⟩
  | _ => cases hs

end Action

/-! ## 3. Sessions in which a frame is used -/

/-- The heap is around the frame over `c`, and what is mine leads to new scopes
and to the root. -/
structure Session.Inside (heap : Heap) (c : Handle) (mine assigned : String → Bool)
    (σ : Session) : Prop where
  formed : σ.Formed
  around : heap.Around c assigned σ.heap
  inner : ∀ i, σ.Holds mine i → heap.Inner c i

namespace Session.Inside

variable {heap : Heap} {c : Handle} {mine assigned : String → Bool} {σ : Session}
  (hac : heap.Acyclic) (hc : c.index < heap.size)

theorem marked (h : σ.Inside heap c mine assigned) : σ.marked.Inside heap c mine assigned := by
  refine ⟨h.formed.marked, h.around, fun i hi => h.inner i ?_⟩
  cases hi with
  | bound hx hi => exact .bound hx hi
  | parent hx hs hp => exact .parent hx hs hp
  | held hx he hk => exact .held hx he hk

variable (h : σ.Inside heap c mine assigned) {a : Action} (ha : a.inFrame mine)
include hac hc h ha

/-- The heap after an action in the frame. -/
theorem around_run (hassigned : ∀ n, a.assigned? = some n → assigned n) :
    heap.Around c assigned (σ.heap.perform (a.deed? σ)) := by
  have huses : ∀ d, a.deed? σ = some d → ∀ i ∈ d.uses, σ.Holds mine i :=
    fun d hd => Action.deed?_holds hd (Action.mine_of_inFrame ha)
  match hd : a.deed? σ with
  | none => exact h.around
  | some (.plant bindings parent) =>
    refine h.around.plant hac hc fun p hp => .of_inner hac hc (h.inner p ?_)
    exact huses _ hd p (Option.mem_toList.mpr hp)
  | some (.write mode i name v) =>
    have hi : σ.Holds mine i := huses _ hd i (List.mem_singleton_self i)
    refine h.around.write hac hc h.formed.acyclic (h.formed.offers_lt hi.offers) (h.inner i hi)
      (fun hmode => ?_) v
    subst hmode
    exact hassigned name (Action.assigned?_of_deed? hd)

/-- The handles that what is mine leads to after an action in the frame. -/
theorem inner_run (haround : heap.Around c assigned (σ.heap.perform (a.deed? σ))) :
    ∀ i, (a.run σ).1.Holds mine i → heap.Inner c i := by
  have hkeeps := Action.keepsContents_of_staysInside (Action.staysInside_of_inFrame ha) σ
  have hmine := Action.mine_of_inFrame ha
  have hnew : heap.Inner c ⟨σ.heap.size⟩ := .inl h.around.grows.size_le
  have hroot : ∀ i, σ.Holds mine i → heap.Inner c (σ.heap.root i) := fun i hi =>
    h.around.inner_root hac hc h.formed.acyclic (h.formed.offers_lt hi.offers) (h.inner i hi)
  have hheld : ∀ x e, mine x → σ.environments[x]? = some e → ∀ k ∈ e.held, heap.Inner c k :=
    fun x e hx he k hk => h.inner k (.held hx he hk)
  intro i hi
  cases hi with
  | @bound x i hx hi =>
    rw [Action.run_handles hkeeps] at hi
    rcases Table.getElem?_rebind_cases hi with hi | hi
    · exact h.inner i (.bound hx hi)
    · cases Action.handle?_binds hi with
      | planted hs => exact hnew
      | @shared y _ hy => exact h.inner i (.bound (hmine y (by simp [Action.names])) hy)
      | @root y k hy => exact hroot k (.bound (hmine y (by simp [Action.names])) hy)
      | above hs hp => cases Action.staysInside_of_inFrame ha
      | @block e env _ he hk =>
        exact hheld e env (hmine e (by simp [Action.names])) he i (Environment.head?_mem_held hk)
      | @global e env he =>
        exact hheld e env (hmine e (by simp [Action.names])) he _
          (Environment.mem_held.mpr (.inr rfl))
      | @current e env he => exact h.inner _ (.current (hmine e (by simp [Action.names])) he)
  | @parent x s i hx hs hp =>
    rw [Action.run_owned hkeeps] at hs
    rcases Table.getElem?_rebind_cases hs with hs | hs
    · exact h.inner i (.parent hx hs hp)
    · exact h.inner i (Action.owned?_holds hs ha i hp)
  | @held x e i hx he hk =>
    rw [Action.run_environments] at he
    rcases Table.getElem?_rebind_cases he with he | he
    · exact hheld x e hx he i hk
    · cases Action.environment?_makes he with
      | created limits =>
        have hac' : (σ.heap.add Scope.empty).1.Acyclic := h.formed.acyclic.add (by rintro p ⟨⟩)
        rcases Environment.mem_held_ofScope hk with rfl | rfl
        · exact hnew
        · exact haround.inner_root hac hc hac' (Heap.new_lt_size_add σ.heap _) hnew
      | @placed y k limits hy =>
        have hk' : σ.Holds mine k := .bound (hmine y (by simp [Action.names])) hy
        rcases Environment.mem_held_ofScope hk with rfl | rfl
        · exact h.inner _ hk'
        · exact hroot _ hk'
      | @called y env hy =>
        have hk' : σ.Holds mine env.global :=
          .held (hmine y (by simp [Action.names])) hy (Environment.mem_held.mpr (.inr rfl))
        rcases Environment.mem_held_ofScope hk with rfl | rfl
        · exact h.inner _ hk'
        · exact hroot _ hk'
      | @entered y z env k hy hz hp =>
        rcases Environment.mem_held_frame hk with rfl | rfl
        · exact hnew
        · exact hroot k (.bound (hmine z (by simp [Action.names])) hz)
      | opened hy hp =>
        rcases Environment.mem_held_opened hk with rfl | hk
        · exact hnew
        · exact hheld x _ hx hy i hk
      | closed hy name => exact hheld x _ hx hy i (Environment.mem_held_closed hk)

/-- **The step lemma**: what is done in the frame keeps the session inside. -/
theorem run (hassigned : ∀ n, a.assigned? = some n → assigned n) :
    (a.run σ).1.Inside heap c mine assigned := by
  have hkeeps := Action.keepsContents_of_staysInside (Action.staysInside_of_inFrame ha) σ
  have haround := h.around_run hac hc ha hassigned
  refine ⟨h.formed.run a, ?_, h.inner_run hac hc ha haround⟩
  rw [Action.run_heap hkeeps]
  exact haround

omit h ha in
/-- **The run lemma.** -/
theorem after (h : σ.Inside heap c mine assigned) {ms : List Move}
    (hms : ∀ m ∈ ms, m.only fun a => a.inFrame mine && a.assigned?.all assigned) :
    (σ.after ms).Inside heap c mine assigned := by
  refine after_induction (fun τ a ha hτ => ?_) (fun τ hτ => hτ.marked)
    (allActs_of_only hms σ) h
  rw [Bool.and_eq_true] at ha
  refine hτ.run hac hc ha.1 fun n hn => ?_
  have hall := ha.2
  rwa [hn] at hall

end Session.Inside

/-- Names that are not mine stand for what they stood for. -/
theorem Session.after_other {mine : String → Bool} {ms : List Move}
    (hms : ∀ m ∈ ms, m.only (Action.inFrame mine)) (σ : Session) {x : String} (hx : ¬ mine x) :
    (σ.after ms).handles[x]? = σ.handles[x]? ∧ (σ.after ms).owned[x]? = σ.owned[x]? ∧
    (σ.after ms).environments[x]? = σ.environments[x]? := by
  refine after_induction
    (P := fun τ => τ.handles[x]? = σ.handles[x]? ∧ τ.owned[x]? = σ.owned[x]? ∧
      τ.environments[x]? = σ.environments[x]?) (fun τ a ha hτ => ?_) (fun _ hτ => hτ)
    (allActs_of_only hms σ) ⟨rfl, rfl, rfl⟩
  obtain ⟨hhandle, howned, henvironment⟩ : _ ∧ _ ∧ _ :=
    Action.run_other (σ := τ) fun hmem => hx (Action.mine_of_inFrame ha x hmem)
  exact ⟨hhandle.trans hτ.1, howned.trans hτ.2.1, henvironment.trans hτ.2.2⟩

/-! ## 4. Frames -/

/-- The action makes the frame `frame` over the scope at `c`, under the name
`f`: by a call from an environment, over its global scope, or by entering a
closure, over the scope that it captured. -/
inductive Session.MakesFrame (σ : Session) (f : String) : Action → Handle → Environment → Prop
  | called {e : String} {env : Environment} (he : σ.environments[e]? = some env) :
    MakesFrame σ f (.callFrom e f) env.global (env.child σ.heap)
  | entered {e h : String} {env : Environment} {c : Handle} (he : σ.environments[e]? = some env)
    (hc : σ.handles[h]? = some c) (hp : env.policy.Admits (σ.heap.depth c + 1)) :
    MakesFrame σ f (.enterClosure e h f) c (env.frame σ.heap c ⟨σ.heap.size⟩)

namespace Session

variable {σ : Session} {f : String} {a : Action} {c : Handle} {frame : Environment}

theorem MakesFrame.lt_size (hframe : σ.MakesFrame f a c frame) (hσ : σ.Sound) :
    c.index < σ.heap.size := by
  cases hframe with
  | called he => exact (hσ.mirrors he).global_lt hσ.acyclic
  | entered _ hc _ => exact hσ.handle_lt hc

/-- Making a frame binds its name and no other. -/
theorem MakesFrame.other (hframe : σ.MakesFrame f a c frame) {x : String} (hx : x ≠ f) :
    (a.run σ).1.handles[x]? = σ.handles[x]? ∧ (a.run σ).1.owned[x]? = σ.owned[x]? ∧
    (a.run σ).1.environments[x]? = σ.environments[x]? := by
  have hname : ∀ env?, a.environment? σ ≠ some (x, env?) := by
    intro env? h
    cases hframe <;> cases Action.environment?_makes h <;> exact hx rfl
  refine ⟨?_, ?_, ?_⟩
  · cases hframe <;> rw [Action.run_handles rfl] <;> rfl
  · cases hframe <;> rw [Action.run_owned rfl] <;> rfl
  · rw [Action.run_environments]
    exact Table.getElem?_rebind_other hname

/-- The frame is used from inside from the start. -/
theorem MakesFrame.inside (hframe : σ.MakesFrame f a c frame) (hσ : σ.Sound)
    {mine : String → Bool} (hmine : ∀ i, (a.run σ).1.Holds mine i → i ∈ frame.held)
    (assigned : String → Bool) : (a.run σ).1.Inside σ.heap c mine assigned := by
  have hac := hσ.acyclic
  have hc := hframe.lt_size hσ
  refine ⟨hσ.formed.run a, ?_, fun i hi => ?_⟩
  · cases hframe with
    | called he =>
      rw [Action.run_heap rfl]
      exact .refl σ.heap _ assigned
    | entered he hh hp =>
      rw [Action.run_heap rfl, Action.deed?_enterClosure he hh hp]
      refine (Heap.Around.refl σ.heap c assigned).plant hac hc ?_
      rintro _ ⟨⟩
      exact .inr (by rw [hac.chain_eq hc]; exact List.mem_cons_self)
  · have hheld := hmine i hi
    cases hframe with
    | @called e env he =>
      have hglobal : σ.heap.root env.global = env.global := (hσ.mirrors he).global_child hac
      rcases Environment.mem_held_ofScope hheld with rfl | rfl
      · exact .inr hglobal.symm
      · exact .inr rfl
    | entered he hh hp =>
      rcases Environment.mem_held_frame hheld with rfl | rfl
      · exact .inl (Nat.le_refl _)
      · exact .inr rfl

end Session

/-- **Frames contain what is done in them.** In a session in which no scope was
replaced, let a call or a closure entry make a frame over the scope at `c`.
Then let the frame be used for any number of moves, through names that led
to nothing but the frame when it was made, and with parents left alone: its
blocks and guards, reads and writes, calls from it, captures in it and
closures entered on those. Of all that existed before the frame,

* what is not on the chain of `c` is unchanged; on the chain the same names
  are bound, with values changed by assignment only; the root keeps its
  names and may gain some (`Heap.Contains`);
* every scope has the chain it had, and a name seen from it is bound where
  it was bound, or else was bound nowhere and now is in the root;
* after a call nothing is changed but the global scope;
* the other names, the caller's among them, stand for the same handles, owned
  scopes and environments. -/
theorem frames_contain {ms : List Move} (hms : Session.empty.allActs Action.keepsContents ms)
    {f : String} {a : Action} {c : Handle} {frame : Environment}
    (hframe : (Session.empty.after ms).MakesFrame f a c frame) {mine : String → Bool}
    (hmine : ∀ i, (a.run (Session.empty.after ms)).1.Holds mine i → i ∈ frame.held)
    {ns : List Move} (hns : ∀ m ∈ ns, m.only (Action.inFrame mine)) :
    let σ := Session.empty.after ms
    let τ := σ.after (.act a :: ns)
    let assigned := fun n => ns.any (Move.assigns n)
    σ.heap.Contains c assigned τ.heap ∧
    (∀ k : Handle, k.index < σ.heap.size →
      τ.heap.chain k = σ.heap.chain k ∧
      ∀ n, τ.heap.binder? (some k) n = σ.heap.binder? (some k) n ∨
        σ.heap.binder? (some k) n = none ∧
          τ.heap.binder? (some k) n = some (σ.heap.root c)) ∧
    (∀ e, a = .callFrom e f → ∀ k : Handle, k.index < σ.heap.size → k ≠ c →
      τ.heap.scope k = σ.heap.scope k) ∧
    (∀ x, x ≠ f → ¬ mine x → τ.handles[x]? = σ.handles[x]? ∧ τ.owned[x]? = σ.owned[x]? ∧
      τ.environments[x]? = σ.environments[x]?) := by
  intro σ τ assigned
  have hσ : σ.Sound := Session.sound_empty.after hms
  have hac := hσ.acyclic
  have hc := hframe.lt_size hσ
  have hstart := hframe.inside hσ hmine assigned
  have hassigned : ∀ m ∈ ns, m.only fun a => a.inFrame mine && a.assigned?.all assigned := by
    intro m hm
    have hin := hns m hm
    cases m with
    | mark => rfl
    | act b =>
      have hb : ∀ n, b.assigned? = some n → assigned n := fun n hn =>
        List.any_eq_true.mpr ⟨_, hm, by simp [Move.assigns, hn]⟩
      refine Bool.and_eq_true_iff.mpr ⟨hin, ?_⟩
      cases hn : b.assigned? with
      | none => rfl
      | some n => exact hb n hn
  have hτ : σ.heap.Contains c assigned τ.heap :=
    (hstart.after hac hc hassigned).around.toContains
  refine ⟨hτ, fun k hk => ⟨hac.chain_grow hτ.grows hk, hτ.binder?_cases hac hc hk⟩,
    fun e he k hk hkc => ?_, fun x hxf hx => ?_⟩
  · subst he
    cases hframe with
    | @called _ env he =>
      -- the global scope is alone on its chain
      have hchain := hac.chain_root ((hσ.mirrors he).base_lt)
      rw [← (hσ.mirrors he).global_eq] at hchain
      refine hτ.off k hk fun hmem => hkc ?_
      rwa [hchain, List.mem_singleton] at hmem
  · obtain ⟨hhandle, howned, henvironment⟩ : _ ∧ _ ∧ _ := hframe.other hxf
    obtain ⟨hhandle', howned', henvironment'⟩ : _ ∧ _ ∧ _ :=
      Session.after_other hns (a.run σ).1 hx
    exact ⟨hhandle'.trans hhandle, howned'.trans howned, henvironment'.trans henvironment⟩

/-- An environment with a block that declares a variable, and a handle of the
block. -/
def captured : List Move := [.act (.newEnvironment Policy.standard "e"), .act (.openBlock "e"),
  .act (.write (.environment "e") .declare "x" .nil), .act (.takeCurrent "e" "h")]

/-- The names of a closure frame and of a call from it. -/
def ofFrame (x : String) : Bool := x == "f" || x == "g"

theorem captured_holds {i : Handle}
    (h : ((Action.enterClosure "e" "h" "f").run (Session.empty.after captured)).1.Holds
      ofFrame i) : i = ⟨2⟩ ∨ i = ⟨0⟩ := by
  have hname : ∀ x, ofFrame x → x = "f" ∨ x = "g" := by
    intro x hx
    simpa [ofFrame] using hx
  cases h with
  | bound hx h => rcases hname _ hx with rfl | rfl <;> cases h
  | parent hx h _ => rcases hname _ hx with rfl | rfl <;> cases h
  | @held x e i hx h hi =>
    rcases hname x hx with rfl | rfl
    · have he : ((Action.enterClosure "e" "h" "f").run
          (Session.empty.after captured)).1.environments["f"]? =
          some ⟨⟨2⟩, [], ⟨0⟩, 3, Policy.standard⟩ := by decide
      rw [he] at h
      cases h
      simpa [Environment.held, Environment.frames] using hi
    · cases h

/-- A closure assigns the variable that it captured, declares one of its own,
and calls a function, which declares a global. -/
theorem frames_contain_captured :
    let ns : List Move := [
      .act (.write (.environment "f") .assign "x" (.boolean true)),
      .act (.write (.environment "f") .declare "y" (.boolean true)),
      .act (.callFrom "f" "g"),
      .act (.write (.environment "g") .declare "z" (.boolean true))]
    let σ := Session.empty.after captured
    let τ := σ.after (.act (.enterClosure "e" "h" "f") :: ns)
    let frame : Environment := ⟨⟨2⟩, [], ⟨0⟩, 3, Policy.standard⟩
    Session.empty.allActs Action.keepsContents captured ∧
    σ.MakesFrame "f" (.enterClosure "e" "h" "f") ⟨1⟩ frame ∧
    (∀ i, ((Action.enterClosure "e" "h" "f").run σ).1.Holds ofFrame i → i ∈ frame.held) ∧
    (∀ m ∈ ns, m.only (Action.inFrame ofFrame)) ∧
    (∀ n, (τ.heap.scope ⟨1⟩).binds n = (σ.heap.scope ⟨1⟩).binds n) ∧
    (τ.heap.scope ⟨1⟩).find? "x" = some (.boolean true) ∧
    τ.heap.binder? (some ⟨1⟩) "y" = none ∧
    τ.heap.binder? (some ⟨1⟩) "z" = some ⟨0⟩ := by
  intro ns σ τ frame
  have hms : Session.empty.allActs Action.keepsContents captured := rfl
  have he : σ.environments["e"]? = some ⟨⟨0⟩, [⟨1⟩], ⟨0⟩, 1, Policy.standard⟩ := by decide
  have hframe : σ.MakesFrame "f" (.enterClosure "e" "h" "f") ⟨1⟩ frame :=
    .entered he (by decide) (Policy.objection?_eq_none_iff.mp (by decide))
  have hmine : ∀ i, ((Action.enterClosure "e" "h" "f").run σ).1.Holds ofFrame i →
      i ∈ frame.held := by
    intro i hi
    rcases captured_holds hi with rfl | rfl <;> decide
  have hns : ∀ m ∈ ns, m.only (Action.inFrame ofFrame) := by decide
  obtain ⟨hcontains, -⟩ := frames_contain hms hframe hmine hns
  exact ⟨hms, hframe, hmine, hns, hcontains.on ⟨1⟩ (by decide) (by decide), by decide, by decide,
    by decide⟩

end ScopeChain

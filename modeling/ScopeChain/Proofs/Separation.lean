/-
ScopeChain.Proofs.Separation — parties with scopes of their own do not
interfere.

Several parties share a session. Each has names of its own in the tables
and uses no others, and the scopes that these names lead to have roots
that no other party's names lead to. Then the parties may take turns in
any order, each running a script of its own, and none of them can tell:
every action answers what it answers when the party has the session for
itself, and the party's scopes, handles and environments end up the same.
Only the positions of scopes that were made on the way may differ.

For each party there is a correspondence between the cells of its solo run
and those of the race (`Race.Separate`). What the party does, it does on
both sides (`Thread.Within.turnsAlike`); what the others do happens outside
of its correspondence, since those of different parties have no cell of the
race in common, and each grows by new cells only.
-/
import Mathlib.Logic.Function.Basic
import ScopeChain.Proofs.Agreement
import ScopeChain.Proofs.Threads

namespace ScopeChain

/-! ## 1. Scripts that keep to their own names -/

/-- The action mentions only what is mine, and asks for no description. -/
def Action.within (mine : String → Bool) (a : Action) : Bool :=
  a.names.all mine && a.shows fun _ => true

mutual

/-- The step, its guard included, mentions only what is mine. -/
def Step.within (mine : String → Bool) : Step → Bool
  | .act a => a.within mine
  | .block e _ body => mine e && Step.withinAll mine body
  | .rounds _ body => Step.withinAll mine body
  | .panic _ => true

/-- The steps mention only what is mine. -/
def Step.withinAll (mine : String → Bool) : List Step → Bool
  | [] => true
  | s :: rest => s.within mine && Step.withinAll mine rest

end

/-- What is left to do mentions only what is mine. -/
def Task.within (mine : String → Bool) : Task → Bool
  | .steps rest => Step.withinAll mine rest
  | .rounds _ body => Step.withinAll mine body
  | .leave e _ => mine e
  | .note => true

/-- All that the thread has left to do mentions only what is mine. -/
def Thread.Within (mine : String → Bool) (t : Thread) : Prop := ∀ task ∈ t.tasks, task.within mine

section

variable {mine : String → Bool}

theorem Action.mine_of_within {a : Action} (h : a.within mine) : ∀ x ∈ a.names, mine x := by
  rw [within, Bool.and_eq_true, List.all_eq_true] at h
  exact h.1

theorem Action.shows_of_within {a : Action} (h : a.within mine) : a.shows fun _ => true := by
  rw [within, Bool.and_eq_true] at h
  exact h.2

theorem Step.within_tasks {s : Step} (h : s.within mine) (answer? : Option Answer) :
    ∀ task ∈ s.tasks answer?, task.within mine := by
  cases s with
  | act a => simp [tasks]
  | panic message => simp [tasks]
  | rounds n body => simpa [tasks, Task.within, within] using h
  | block e catches body =>
    rw [within, Bool.and_eq_true] at h
    unfold tasks
    split
    · simp_all [Task.within]
    · simp_all
    · simp

theorem Task.within_tasks {task : Task} (h : task.within mine) (answer? : Option Answer) :
    ∀ later ∈ task.tasks answer?, later.within mine := by
  cases task with
  | note => simp [tasks]
  | leave e catches => simp [tasks]
  | rounds n body => cases n <;> simp_all [tasks, within]
  | steps rest =>
    cases rest with
    | nil => simp [tasks]
    | cons s rest =>
      rw [within, Step.withinAll, Bool.and_eq_true] at h
      intro later hlater
      rw [tasks, List.mem_append] at hlater
      rcases hlater with hlater | hlater
      · exact Step.within_tasks h.1 answer? later hlater
      · simp only [List.mem_cons, List.not_mem_nil, or_false] at hlater
        rcases hlater with rfl | rfl
        · rfl
        · exact h.2

theorem Thread.Within.next {t : Thread} (h : t.Within mine) (reply? : Option (Action × Answer)) :
    (t.next reply?).Within mine := by
  obtain ⟨tasks, panicking, replies⟩ := t
  cases tasks with
  | nil => simp [Thread.next, Thread.Within]
  | cons task rest =>
    have hrest : ∀ later ∈ rest, later.within mine := fun later hlater =>
      h later (List.mem_cons_of_mem _ hlater)
    cases panicking with
    | true => cases task <;> exact hrest
    | false =>
      intro later hlater
      have htasks := Task.within_tasks (h task List.mem_cons_self)
      rcases List.mem_append.mp (by simpa [Thread.next] using hlater) with hlater | hlater
      · exact htasks _ later hlater
      · exact hrest later hlater

theorem Thread.Within.move {t : Thread} (h : t.Within mine) {a : Action}
    (hmove : t.move? = some (.act a)) : a.within mine := by
  obtain ⟨tasks, panicking, replies⟩ := t
  cases tasks with
  | nil => cases hmove
  | cons task rest =>
    have htask := h task List.mem_cons_self
    have hmove : task.move? = some (.act a) := by
      cases panicking with
      | false => simpa [Thread.move?] using hmove
      | true => cases task <;> simp_all [Thread.move?]
    cases task with
    | rounds n body => cases hmove
    | note => cases hmove
    | leave e catches =>
      cases hmove
      simpa [Action.within, Action.names, Action.shows, Task.within] using htask
    | steps later =>
      cases later with
      | nil => cases hmove
      | cons s later =>
        rw [Task.within, Step.withinAll, Bool.and_eq_true] at htask
        cases s with
        | act a =>
          cases hmove
          exact htask.1
        | block e catches body =>
          cases hmove
          rw [Step.within, Bool.and_eq_true] at htask
          simpa [Action.within, Action.names, Action.shows] using htask.1.1
        | rounds n body => cases hmove
        | panic message => cases hmove

end

/-! ## 2. One turn on both sides -/

section

variable {mine keep : String → Bool} {ρ : Correspondence} {σ τ : Session}

theorem Heap.Evolves.refl (ρ : Correspondence) (heap other : Heap) :
    Heap.Evolves ρ ρ heap other heap other :=
  ⟨fun _ _ => id, fun _ _ => .inl, rfl, Nat.le_refl _, fun _ _ _ => rfl⟩

/-- What others do is not noticed: cells outside of the correspondence, names
that are not mine. -/
theorem Session.Agrees.frame {τ' : Session} (h : σ.Agrees mine keep ρ τ)
    (hsize : τ.heap.size ≤ τ'.heap.size)
    (hscope : ∀ i j, ρ i j → τ'.heap.scope j = τ.heap.scope j)
    (htables : ∀ x, mine x → τ'.handles[x]? = τ.handles[x]? ∧ τ'.owned[x]? = τ.owned[x]? ∧
      τ'.environments[x]? = τ.environments[x]?) : σ.Agrees mine keep ρ τ' where
  heap := h.heap.frame hsize hscope
  handles x hx := by
    rw [(htables x hx).1]
    exact h.handles x hx
  owned x hx := by
    rw [(htables x hx).2.1]
    exact h.owned x hx
  environments x hx := by
    rw [(htables x hx).2.2]
    exact h.environments x hx

/-- What a turn does on both sides of a correspondence, the second in company:
the thread goes on in the same way, the sessions agree again, and what is
not mine stays as it was. -/
structure Thread.TurnsAlike (mine : String → Bool) (ρ ρ' : Correspondence) (t : Thread)
    (σ τ : Session) : Prop where
  thread_eq : (t.turn σ).1 = (t.turn τ).1
  agrees : (t.turn σ).2.Agrees mine (fun _ => true) ρ' (t.turn τ).2
  evolves : Heap.Evolves ρ ρ' σ.heap τ.heap (t.turn σ).2.heap (t.turn τ).2.heap
  others : ∀ x, ¬ mine x → (t.turn τ).2.handles[x]? = τ.handles[x]? ∧
    (t.turn τ).2.owned[x]? = τ.owned[x]? ∧ (t.turn τ).2.environments[x]? = τ.environments[x]?

theorem Thread.Within.turnsAlike {t : Thread} (ht : t.Within mine)
    (h : σ.Agrees mine (fun _ => true) ρ τ) (hac : σ.heap.Acyclic) :
    ∃ ρ', TurnsAlike mine ρ ρ' t σ τ := by
  cases hmove : t.move? with
  | none =>
    have hturn : ∀ σ, t.turn σ = (t.next none, σ) := fun σ => by rw [turn, hmove]
    refine ⟨ρ, ?_, ?_, ?_, fun x _ => ?_⟩ <;> simp only [hturn]
    · exact h
    · exact .refl ρ _ _
    · exact ⟨trivial, trivial, trivial⟩
  | some m =>
    have hturn : ∀ σ, t.turn σ = (t.next (m.reply? σ), m.run σ) := fun σ => by rw [turn, hmove]
    cases m with
    | mark =>
      refine ⟨ρ, ?_, ?_, ?_, fun x _ => ?_⟩ <;> simp only [hturn]
      · rfl
      · exact ⟨h.heap, h.handles, h.owned, h.environments⟩
      · exact .refl ρ _ _
      · exact ⟨rfl, rfl, rfl⟩
    | act a =>
      have ha := ht.move hmove
      have hmine := Action.mine_of_within ha
      obtain ⟨ρ', hagrees, hevolves⟩ := h.run hac hmine fun _ _ => rfl
      refine ⟨ρ', ?_, ?_, ?_, fun x hx => ?_⟩ <;> simp only [hturn]
      · rw [Move.reply?, Move.reply?, h.answer_eq hac hmine (Action.shows_of_within ha)]
      · exact hagrees
      · exact hevolves
      · exact Action.run_other fun hmem => hx (hmine x hmem)

theorem Thread.Within.turn {t : Thread} (ht : t.Within mine) (σ : Session) :
    (t.turn σ).1.Within mine := by
  unfold Thread.turn
  cases t.move? with
  | none => exact ht.next none
  | some m => exact ht.next (m.reply? σ)

theorem Thread.turn_formed (hσ : σ.Formed) (t : Thread) : (t.turn σ).2.Formed := by
  unfold turn
  match t.move? with
  | none => exact hσ
  | some .mark => exact hσ.marked
  | some (.act a) => exact hσ.run a

end

/-! ## 3. Parties -/

/-- The cells that the names of a party lead to. -/
def Session.Region (mine : String → Bool) (σ : Session) (k : Handle) : Prop :=
  ∃ i, σ.Holds mine i ∧ k ∈ σ.heap.chain i

/-- No name and no root belongs to two parties. -/
structure Session.Apart {Party : Type} (owns : Party → String → Bool) (σ : Session) : Prop where
  names : ∀ p q x, owns p x → owns q x → p = q
  roots : ∀ p q i j, σ.Holds (owns p) i → σ.Holds (owns q) j → σ.heap.root i = σ.heap.root j →
    p = q

namespace Session

variable {mine : String → Bool} {σ : Session} {i k : Handle}

theorem Formed.holds_lt (h : σ.Formed) (hi : σ.Holds mine i) : i.index < σ.heap.size :=
  h.offers_lt hi.offers

theorem Formed.region_of_holds (h : σ.Formed) (hi : σ.Holds mine i) : σ.Region mine i := by
  refine ⟨i, hi, ?_⟩
  rw [h.acyclic.chain_eq (h.holds_lt hi)]
  exact List.mem_cons_self

theorem Formed.region_lt (h : σ.Formed) (hk : σ.Region mine k) : k.index < σ.heap.size := by
  obtain ⟨i, hi, hk⟩ := hk
  exact (h.acyclic.isPath_chain (h.holds_lt hi)).lt_size k hk

theorem Formed.region_parent (h : σ.Formed) (hk : σ.Region mine k) {p : Handle}
    (hp : (σ.heap.scope k).parent = some p) : σ.Region mine p := by
  obtain ⟨i, hi, hk⟩ := hk
  exact ⟨i, hi, h.acyclic.parent_mem_chain (h.holds_lt hi) hk hp⟩

/-- Chains that end in different roots have nothing in common. -/
theorem Apart.region_unique {Party : Type} {owns : Party → String → Bool} (h : σ.Apart owns)
    (hσ : σ.Formed) {p q : Party} (hp : σ.Region (owns p) k) (hq : σ.Region (owns q) k) :
    p = q := by
  obtain ⟨i, hi, hki⟩ := hp
  obtain ⟨j, hj, hkj⟩ := hq
  refine h.roots p q i j hi hj ?_
  rw [← hσ.acyclic.root_of_mem_chain (hσ.holds_lt hi) hki,
    hσ.acyclic.root_of_mem_chain (hσ.holds_lt hj) hkj]

/-- A session agrees with itself on the region of a party. -/
theorem Formed.agrees_region (h : σ.Formed) (mine : String → Bool) :
    σ.Agrees mine (fun _ => true) (fun i j => i = j ∧ σ.Region mine i) σ :=
  Session.agrees_self (fun _ => h.region_lt) (fun _ hi _ hp => h.region_parent hi hp)
    (fun _ _ hx hi => h.region_of_holds (.bound hx hi))
    (fun _ _ hx hs _ hp => h.region_of_holds (.parent hx hs hp))
    fun _ _ hx he _ hk => h.region_of_holds (.held hx he hk)

end Session

/-! ## 4. Races -/

/-- A session that several parties work on, each with a thread of its own. -/
structure Race (Party : Type) where
  session : Session
  threads : Party → Thread

namespace Race

variable {Party : Type} [DecidableEq Party]

/-- Each party with a script that has not begun. -/
def ofScripts (σ : Session) (script : Party → List Step) : Race Party :=
  ⟨σ, fun p => .ofScript (script p)⟩

/-- One turn of a party. -/
def turn (r : Race Party) (p : Party) : Race Party :=
  let (t, σ) := (r.threads p).turn r.session
  ⟨σ, Function.update r.threads p t⟩

/-- Turns of the parties in the given order. -/
def run (r : Race Party) (schedule : List Party) : Race Party := schedule.foldl turn r

/-- The race beside the solo runs of the parties, with a correspondence for
each. Those of different parties have no cell of the race in common, and the
first `size` cells stand for themselves. -/
structure Separate (owns : Party → String → Bool) (size : Nat) (solo : Party → Thread × Session)
    (ρ : Party → Correspondence) (r : Race Party) : Prop where
  names : ∀ p q x, owns p x → owns q x → p = q
  thread_eq : ∀ p, r.threads p = (solo p).1
  within : ∀ p, (solo p).1.Within (owns p)
  formed : ∀ p, (solo p).2.Formed
  agrees : ∀ p, (solo p).2.Agrees (owns p) (fun _ => true) (ρ p) r.session
  apart : ∀ p q i j k, ρ p i k → ρ q j k → p = q
  kept : ∀ p i j, ρ p i j → i = j ∨ size ≤ i.index ∧ size ≤ j.index
  size_le : size ≤ r.session.heap.size
  solo_size_le : ∀ p, size ≤ (solo p).2.heap.size

/-- **The step lemma**: a turn of one party is a turn of its solo run, and the
others do not notice. -/
theorem Separate.turn {owns : Party → String → Bool} {size : Nat}
    {solo : Party → Thread × Session} {ρ : Party → Correspondence} {r : Race Party}
    (h : r.Separate owns size solo ρ) (p : Party) :
    ∃ ρ', (r.turn p).Separate owns size
      (Function.update solo p ((solo p).1.turn (solo p).2)) ρ' := by
  obtain ⟨ρp, hturn⟩ := (h.within p).turnsAlike (h.agrees p) (h.formed p).acyclic
  have hnew : ∀ i j, ρp i j → ρ p i j ∨
      i = ⟨(solo p).2.heap.size⟩ ∧ j = ⟨r.session.heap.size⟩ := hturn.evolves.new
  have hsolo := hturn.evolves.size_le
  have hrace : r.session.heap.size ≤ ((solo p).1.turn r.session).2.heap.size := by
    have := hturn.evolves.size_eq
    omega
  have hsize := h.size_le
  have hsolosize := h.solo_size_le p
  have hrun : r.turn p = ⟨((solo p).1.turn r.session).2,
      Function.update r.threads p ((solo p).1.turn r.session).1⟩ := by
    rw [Race.turn, h.thread_eq p]
  -- a cell that the turn made is in nobody else's correspondence
  have hapart : ∀ q i j k, q ≠ p → ρp i k → ρ q j k → False := by
    intro q i j k hq hi hj
    rcases hnew i k hi with hi | ⟨-, rfl⟩
    · exact hq (h.apart p q i j k hi hj).symm
    · exact absurd ((h.agrees q).heap.lt_size j _ hj).2 (by simp)
  refine ⟨Function.update ρ p ρp, ?_⟩
  rw [hrun]
  refine ⟨h.names, fun q => ?_, ?_, ?_, fun q => ?_, fun q q' i j k hi hj => ?_, ?_,
    Nat.le_trans hsize hrace, ?_⟩
  · by_cases hq : q = p
    · subst hq
      simpa using hturn.thread_eq.symm
    · simpa [Function.update_of_ne hq] using h.thread_eq q
  · refine (Function.forall_update_iff solo fun q x => x.1.Within (owns q)).mpr ⟨?_, ?_⟩
    · exact (h.within p).turn (solo p).2
    · exact fun q _ => h.within q
  · refine (Function.forall_update_iff solo fun q x => x.2.Formed).mpr ⟨?_, ?_⟩
    · exact Thread.turn_formed (h.formed p) (solo p).1
    · exact fun q _ => h.formed q
  · by_cases hq : q = p
    · subst hq
      simpa using hturn.agrees
    · rw [Function.update_of_ne hq, Function.update_of_ne hq]
      refine (h.agrees q).frame hrace (fun i j hij => ?_) fun x hx => ?_
      · refine hturn.evolves.kept j ((h.agrees q).heap.lt_size i j hij).2 fun k hk => ?_
        exact hq (h.apart q p i k j hij hk)
      · exact hturn.others x fun hp => hq (h.names q p x hx hp)
  · by_cases hq : q = p <;> by_cases hq' : q' = p
    · rw [hq, hq']
    · subst hq
      rw [Function.update_self] at hi
      rw [Function.update_of_ne hq'] at hj
      exact (hapart q' i j k hq' hi hj).elim
    · subst hq'
      rw [Function.update_of_ne hq] at hi
      rw [Function.update_self] at hj
      exact (hapart q j i k hq hj hi).elim
    · rw [Function.update_of_ne hq] at hi
      rw [Function.update_of_ne hq'] at hj
      exact h.apart q q' i j k hi hj
  · refine (Function.forall_update_iff ρ fun _ (ρq : Correspondence) =>
      ∀ i j, ρq i j → i = j ∨ size ≤ i.index ∧ size ≤ j.index).mpr ⟨fun i j hij => ?_, ?_⟩
    · rcases hnew i j hij with hij | ⟨rfl, rfl⟩
      · exact h.kept p i j hij
      · exact .inr ⟨hsolosize, hsize⟩
    · exact fun q _ => h.kept q
  · refine (Function.forall_update_iff solo fun _ x => size ≤ x.2.heap.size).mpr ⟨?_, ?_⟩
    · exact Nat.le_trans hsolosize hsolo
    · exact fun q _ => h.solo_size_le q

/-- **The run lemma**: after any turns in any order each party is where it is
after as many turns alone. -/
theorem Separate.run {owns : Party → String → Bool} {size : Nat}
    {solo : Party → Thread × Session} {ρ : Party → Correspondence} {r : Race Party}
    (h : r.Separate owns size solo ρ) (schedule : List Party) :
    ∃ ρ', (r.run schedule).Separate owns size
      (fun p => Thread.alone (schedule.count p) (solo p)) ρ' := by
  induction schedule generalizing r solo ρ with
  | nil => exact ⟨ρ, h⟩
  | cons p rest ih =>
    obtain ⟨ρ', h'⟩ := h.turn p
    obtain ⟨ρ'', h''⟩ := ih h'
    refine ⟨ρ'', ?_⟩
    have hsolo : (fun q => Thread.alone ((p :: rest).count q) (solo q)) = fun q =>
        Thread.alone (rest.count q)
          (Function.update solo p ((solo p).1.turn (solo p).2) q) := by
      funext q
      by_cases hq : q = p
      · subst hq
        rw [List.count_cons_self, Function.update_self]
        rfl
      · rw [List.count_cons_of_ne (Ne.symm hq), Function.update_of_ne hq]
    rw [hsolo]
    exact h''

omit [DecidableEq Party] in
/-- At the start each party's region stands for itself. -/
theorem separate_ofScripts {owns : Party → String → Bool} {σ : Session} (hσ : σ.Formed)
    (hapart : σ.Apart owns) {script : Party → List Step}
    (hwithin : ∀ p, Step.withinAll (owns p) (script p)) :
    (ofScripts σ script).Separate owns σ.heap.size (fun p => (.ofScript (script p), σ))
      fun p i j => i = j ∧ σ.Region (owns p) i where
  names := hapart.names
  thread_eq _ := rfl
  within p := by
    intro task htask
    obtain rfl : task = .steps (script p) := List.mem_singleton.mp htask
    exact hwithin p
  formed _ := hσ
  agrees p := hσ.agrees_region (owns p)
  apart := by
    rintro p q i j k ⟨rfl, hp⟩ ⟨rfl, hq⟩
    exact hapart.region_unique hσ hp hq
  kept _ _ _ hij := .inl hij.1
  size_le := Nat.le_refl _
  solo_size_le _ := Nat.le_refl _

end Race

/-- What the names of a party lead to is the same in both sessions, but for
the positions of cells from `size` on: names stand for corresponding handles,
owned scopes and environments, stacks included, and corresponding cells have
the same bindings, corresponding parents, and the same depth. -/
structure Session.Twins (mine : String → Bool) (size : Nat) (ρ : Correspondence)
    (σ τ : Session) : Prop where
  agrees : σ.Agrees mine (fun _ => true) ρ τ
  kept : ∀ i j, ρ i j → i = j ∨ size ≤ i.index ∧ size ≤ j.index
  bindings_eq : ∀ i j, ρ i j → (σ.heap.scope i).bindings = (τ.heap.scope j).bindings
  depth_eq : ∀ i j, ρ i j → σ.heap.depth i = τ.heap.depth j

theorem Race.Separate.twins {Party : Type} {owns : Party → String → Bool} {size : Nat}
    {solo : Party → Thread × Session} {ρ : Party → Correspondence} {r : Race Party}
    (h : r.Separate owns size solo ρ) (p : Party) :
    (solo p).2.Twins (owns p) size (ρ p) r.session where
  agrees := h.agrees p
  kept := h.kept p
  bindings_eq i j hij :=
    Std.ExtTreeMap.ext_getElem? fun n => ((h.agrees p).heap.scope i j hij).find?_eq n rfl
  depth_eq _ _ hij := (h.agrees p).heap.depth_eq (h.formed p).acyclic hij

/-- **Parties do not interfere.** In any session, let parties have names of
their own that lead to scopes under roots of their own, and let each run a
script on its own names. Whatever the order of their turns,

* each party is where it is after as many turns alone: the same actions with
  the same answers, the same left to do, and the same scopes, handles and
  environments but for the positions of new cells;
* with turns enough it has done what its script does when it runs from that
  session, and in the end has what its script has then. -/
theorem parties_do_not_interfere {Party : Type} [DecidableEq Party] (detail : Detail)
    (ms : List Move) (owns : Party → String → Bool) (script : Party → List Step)
    (hapart : (Session.empty.after ms).Apart owns)
    (hwithin : ∀ p, Step.withinAll (owns p) (script p)) :
    let σ := Session.empty.after ms
    let race := Race.ofScripts σ script
    ∀ p,
      (∀ schedule : List Party,
        let solo := Thread.alone (schedule.count p) (.ofScript (script p), σ)
        (race.run schedule).threads p = solo.1 ∧
        ∃ ρ, solo.2.Twins (owns p) σ.heap.size ρ (race.run schedule).session) ∧
      ∃ n, ∀ schedule : List Party, n ≤ schedule.count p →
        let done := Step.runAll detail (script p) σ
        (race.run schedule).threads p =
          ⟨[], done.panic.isSome, σ.answers (Step.movesAll detail (script p) σ)⟩ ∧
        ∃ ρ, done.session.Twins (owns p) σ.heap.size ρ (race.run schedule).session := by
  intro σ race p
  have hσ : σ.Formed := Session.formed_empty.after ms
  have hstart := Race.separate_ofScripts hσ hapart hwithin
  have hrun : ∀ schedule : List Party,
      let solo := Thread.alone (schedule.count p) (.ofScript (script p), σ)
      (race.run schedule).threads p = solo.1 ∧
      ∃ ρ, solo.2.Twins (owns p) σ.heap.size ρ (race.run schedule).session := by
    intro schedule
    obtain ⟨ρ, hseparate⟩ := hstart.run schedule
    exact ⟨hseparate.thread_eq p, ρ p, hseparate.twins p⟩
  refine ⟨hrun, ?_⟩
  obtain ⟨n, hn⟩ := Thread.alone_script detail (script p) σ
  refine ⟨n, fun schedule hschedule => ?_⟩
  have h := hrun schedule
  rw [hn _ hschedule] at h
  exact h

/-- Two environments, each on a root scope of its own. -/
def twoEnvironments : Session := Session.empty.after
  [.act (.newEnvironment Policy.standard "e"), .act (.newEnvironment Policy.standard "f")]

/-- Of two parties, each has the environment of this name and nothing else. -/
def ownsOne (p : Bool) (x : String) : Bool := x == bif p then "e" else "f"

theorem twoEnvironments_holds {p : Bool} {i : Handle} (h : twoEnvironments.Holds (ownsOne p) i) :
    i = bif p then ⟨0⟩ else ⟨1⟩ := by
  cases h with
  | bound hx h =>
    obtain rfl := eq_of_beq hx
    cases p <;> cases h
  | parent hx h _ =>
    obtain rfl := eq_of_beq hx
    cases p <;> cases h
  | @held x e i hx h hi =>
    obtain rfl := eq_of_beq hx
    have he : twoEnvironments.environments[bif p then "e" else "f"]? =
        some ⟨bif p then ⟨0⟩ else ⟨1⟩, [], bif p then ⟨0⟩ else ⟨1⟩, 1, Policy.standard⟩ := by
      cases p <;> decide
    rw [he] at h
    cases h
    simpa [Environment.held, Environment.frames] using hi

theorem twoEnvironments_apart : twoEnvironments.Apart ownsOne where
  names p q x hp hq := by
    have heq : (bif p then "e" else "f") = bif q then "e" else "f" :=
      (eq_of_beq hp).symm.trans (eq_of_beq hq)
    cases p <;> cases q <;> simp_all
  roots p q i j hi hj h := by
    rw [twoEnvironments_holds hi, twoEnvironments_holds hj] at h
    revert h
    cases p <;> cases q <;> decide

/-- Both parties write the same variable, one in a block of its own, the other
globally in a block that panics. -/
theorem parties_do_not_interfere_twoEnvironments :
    let script : Bool → List Step := fun p => bif p then
        [.block "e" false [.act (.write (.environment "e") .declare "x" (.boolean true)),
          .act (.read (.environment "e") .value "x")]]
      else [.block "f" true
        [.act (.write (.environment "f") .global "x" (.boolean false)), .panic "p"]]
    twoEnvironments.Apart ownsOne ∧ (∀ p, Step.withinAll (ownsOne p) (script p)) ∧
    ∃ n, ∀ schedule : List Bool, n ≤ schedule.count true →
      (((Race.ofScripts twoEnvironments script).run schedule).threads true).replies =
        [(.openBlock "e", .opened),
          (.write (.environment "e") .declare "x" (.boolean true), .done),
          (.read (.environment "e") .value "x", .value (.boolean true)),
          (.closeBlock "e" none, .flag true)] := by
  intro script
  have hwithin : ∀ p, Step.withinAll (ownsOne p) (script p) := by decide
  obtain ⟨-, n, hn⟩ :=
    parties_do_not_interfere ⟨false, false⟩ _ ownsOne script twoEnvironments_apart hwithin true
  refine ⟨twoEnvironments_apart, hwithin, n, fun schedule hschedule => ?_⟩
  have hthread := (hn schedule hschedule).1
  rw [twoEnvironments, hthread]
  rfl

end ScopeChain

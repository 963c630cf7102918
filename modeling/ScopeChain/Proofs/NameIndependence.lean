/-
ScopeChain.Proofs.NameIndependence — what happens to one name does not
depend on the others.

Take a script and a name, and delete every write to any other name,
wherever it stands: in the script itself, in the body of a block, in
rounds. What remains is done all the same, in the same order, and answers
the same: every question about the name, everything that opens or closes a
scope, and everything that asks where a scope is. Scopes get the same
cells, so handles and environments are not merely alike but equal.

The two runs are compared by `Session.Like`: sessions that agree
(`Session.Agrees`) on all tables and on the one name, each cell standing
for itself. A step that remains is done on both sides
(`Session.Like.both`); one that was deleted is done on the left only and
changes nothing that is compared (`Session.Like.left`). No step looks at a
name to decide what is done next, so the scripts stay in step, through
refusals and panics too (`Step.runAll_without`).
-/
import ScopeChain.Proofs.Agreement

namespace ScopeChain

/-! ## 1. Deleting writes -/

/-- The action writes a variable other than `name`. -/
def Action.writesOther (name : String) (a : Action) : Bool := a.variable?.any (· != name)

/-- The step writes a variable other than `name`. -/
def Step.writesOther (name : String) : Step → Bool
  | .act a => a.writesOther name
  | _ => false

mutual

/-- The step without the writes to other variables in its body. -/
def Step.without (name : String) : Step → Step
  | .block e catches body => .block e catches (Step.withoutAll name body)
  | .rounds n body => .rounds n (Step.withoutAll name body)
  | .act a => .act a
  | .panic message => .panic message

/-- The steps without those that write variables other than `name`. -/
def Step.withoutAll (name : String) : List Step → List Step
  | [] => []
  | s :: rest =>
    if s.writesOther name then Step.withoutAll name rest
    else s.without name :: Step.withoutAll name rest

end

/-! ## 2. Replies that are the same -/

/-- Replies to the same action that bind the same handles and environments,
and answer the same unless the action asks about other variables. -/
structure Reply.Same (name : String) (r s : Reply) : Prop where
  action_eq : r.action = s.action
  answer_eq : r.action.shows (· == name) → r.answer = s.answer
  handles_eq : r.handles = s.handles
  environments_eq : r.environments = s.environments

/-- The reply is to an action that no deletion removes. -/
def Reply.remains (name : String) (r : Reply) : Bool := !r.action.writesOther name

/-! ## 3. Writes to a variable that is not kept -/

section

variable {keep : String → Bool} {ρ : Correspondence} {name : String}

theorem Scope.Agrees.bind_left {s t : Scope} (h : s.Agrees keep ρ t) (hn : ¬ keep name)
    (v : Value) : (s.bind name v).Agrees keep ρ t := by
  refine ⟨h.parent, fun n hkeep => ?_⟩
  have hne : n ≠ name := by
    rintro rfl
    exact hn hkeep
  rw [Scope.find?_bind, if_neg hne]
  exact h.find?_eq n hkeep

theorem Heap.Agrees.bindAt_left {heap other : Heap} (h : heap.Agrees keep ρ other)
    (hn : ¬ keep name) (k : Handle) (v : Value) : (heap.bindAt k name v).Agrees keep ρ other where
  oneToOne := h.oneToOne
  lt_size i j hij := by simpa using h.lt_size i j hij
  scope i j hij := by
    rw [scope_bindAt]
    split
    · exact (h.scope i j hij).bind_left hn v
    · exact h.scope i j hij

/-- An owned scope that is written is the same or binds the name. -/
theorem Scope.write_fst_cases (s : Scope) (heap : Heap) (mode : WriteMode) (name : String)
    (v : Value) :
    (s.write heap mode name v).1 = s ∨ (s.write heap mode name v).1 = s.bind name v := by
  unfold Scope.write
  cases s.target? heap mode name with
  | none => exact .inr rfl
  | some i => exact .inl rfl

/-- **A write to another name**, done on one side only, is not noticed. -/
theorem Session.Agrees.write_left {mine : String → Bool} {σ τ : Session}
    (h : σ.Agrees mine keep ρ τ) (hn : ¬ keep name) (t : Target) (mode : WriteMode) (v : Value) :
    (σ.write t mode name v).1.Agrees mine keep ρ τ := by
  rw [Session.write_eq]
  refine ⟨?_, h.handles, fun x hx => ?_, h.environments⟩
  · show (σ.heap.perform (σ.writeDeed? t mode name v)).Agrees keep ρ τ.heap
    cases hd : σ.writeDeed? t mode name v with
    | none => exact h.heap
    | some d =>
      obtain ⟨i, rfl⟩ := Session.writeDeed?_eq_write hd
      exact h.heap.bindAt_left hn _ v
  · have howned := h.owned x hx
    show Option.Rel _ (σ.owned.rebind (σ.writeOwned? t mode name v))[x]? _
    match t with
    | .place (.shared y) => exact howned
    | .environment y => exact howned
    | .place (.owned y) =>
      by_cases hyx : y = x
      · subst hyx
        obtain ⟨hs, ht⟩ | ⟨s, t, hs, ht, hst⟩ := rel_cases howned
        · rw [Session.writeOwned?, hs]
          exact howned
        · rw [Session.writeOwned?, hs, Option.map_some, Table.getElem?_rebind_self, ht]
          refine .some ?_
          rcases s.write_fst_cases σ.heap mode name v with hw | hw
          · rw [hw]
            exact hst
          · rw [hw]
            exact hst.bind_left hn v
      · have hother : ∀ s?, σ.writeOwned? (.place (.owned y)) mode name v ≠ some (x, s?) :=
          fun s? hs => hyx (Session.writeOwned?_name hs).symm
        rw [Table.getElem?_rebind_other hother]
        exact howned

end

/-! ## 4. Sessions that are alike for one name -/

/-- The sessions agree on all tables and on the one name, each cell standing
for itself. -/
structure Session.Like (name : String) (σ τ : Session) : Prop where
  formed : σ.Formed
  size_eq : σ.heap.size = τ.heap.size
  agrees : ∃ ρ : Correspondence, σ.Agrees (fun _ => true) (· == name) ρ τ ∧
    ∀ i j, ρ i j → i = j

namespace Session.Like

variable {name : String} {σ τ : Session}

theorem refl (name : String) (h : σ.Formed) : σ.Like name σ where
  formed := h
  size_eq := rfl
  agrees := by
    refine ⟨_, Session.agrees_self (P := (·.index < σ.heap.size)) (fun _ => id)
      (fun i hi p hp => h.acyclic.parent_lt hi hp) (fun x i _ hi => h.handle_lt hi)
      (fun x s _ hs p hp => h.parent_lt hs p hp) fun x e _ he k hk => h.held_lt he k hk, ?_⟩
    exact fun i j hij => hij.1

theorem marked_left (h : σ.Like name τ) : σ.marked.Like name τ := by
  obtain ⟨ρ, hρ, hle⟩ := h.agrees
  exact ⟨h.formed.marked, h.size_eq, ρ, ⟨hρ.heap, hρ.handles, hρ.owned, hρ.environments⟩, hle⟩

theorem marked_right (h : σ.Like name τ) : σ.Like name τ.marked := by
  obtain ⟨ρ, hρ, hle⟩ := h.agrees
  exact ⟨h.formed, h.size_eq, ρ, ⟨hρ.heap, hρ.handles, hρ.owned, hρ.environments⟩, hle⟩

theorem handles_eq (h : σ.Like name τ) : σ.handles = τ.handles := by
  obtain ⟨ρ, hρ, hle⟩ := h.agrees
  refine Std.ExtTreeMap.ext_getElem? fun x => ?_
  obtain ⟨hi, hj⟩ | ⟨i, j, hi, hj, hij⟩ := rel_cases (hρ.handles x rfl)
  · rw [hi, hj]
  · rw [hi, hj, hle i j hij]

theorem environments_eq (h : σ.Like name τ) : σ.environments = τ.environments := by
  obtain ⟨ρ, hρ, hle⟩ := h.agrees
  refine Std.ExtTreeMap.ext_getElem? fun x => ?_
  obtain ⟨he, hf⟩ | ⟨e, f, he, hf, hef⟩ := rel_cases (hρ.environments x rfl)
  · rw [he, hf]
  · have hblocks : e.blocks = f.blocks := by
      simpa [List.forall₂_eq_eq_eq] using hef.blocks.imp hle
    have heq : e = f := by
      obtain ⟨base, blocks, global, baseDepth, policy⟩ := e
      obtain ⟨base', blocks', global', baseDepth', policy'⟩ := f
      simp only [Environment.mk.injEq]
      exact ⟨hle _ _ hef.base, hblocks, hle _ _ hef.global, hef.baseDepth_eq, hef.policy_eq⟩
    rw [he, hf, heq]

theorem answer_eq (h : σ.Like name τ) {a : Action} (hshows : a.shows (· == name)) :
    (a.run σ).2 = (a.run τ).2 := by
  obtain ⟨ρ, hρ, -⟩ := h.agrees
  exact hρ.answer_eq h.formed.acyclic (fun _ _ => rfl) hshows

/-- An action that remains keeps the sessions alike. -/
theorem both (h : σ.Like name τ) {a : Action} (ha : ¬ a.writesOther name) :
    (a.run σ).1.Like name (a.run τ).1 := by
  obtain ⟨ρ, hρ, hle⟩ := h.agrees
  have hkeep : ∀ n ∈ a.variable?, (n == name) = true := by
    intro n hn
    rw [Option.mem_def] at hn
    simpa [Action.writesOther, hn] using ha
  obtain ⟨ρ', hρ', hev⟩ := hρ.run h.formed.acyclic (fun _ _ => rfl) hkeep
  have hsize := h.size_eq
  refine ⟨h.formed.run a, ?_, ρ', hρ', fun i j hij => ?_⟩
  · have := hev.size_eq
    omega
  · rcases hev.new i j hij with hij | ⟨rfl, rfl⟩
    · exact hle i j hij
    · rw [hsize]

/-- A write that was deleted is done on the left only. -/
theorem left (h : σ.Like name τ) {a : Action} (ha : a.writesOther name) :
    (a.run σ).1.Like name τ := by
  obtain ⟨ρ, hρ, hle⟩ := h.agrees
  have hwrite : ∀ (t : Target) (mode : WriteMode) (n : String) (v : Value), (n != name) = true →
      (σ.write t mode n v).1.Formed → (σ.write t mode n v).1.Like name τ := by
    intro t mode n v hn hformed
    have hagrees := hρ.write_left (by simpa using hn) t mode v
    refine ⟨hformed, ?_, ρ, hagrees, hle⟩
    rw [Session.write_eq]
    show (σ.heap.perform (σ.writeDeed? t mode n v)).size = τ.heap.size
    cases hd : σ.writeDeed? t mode n v with
    | none => exact h.size_eq
    | some d =>
      obtain ⟨i, rfl⟩ := Session.writeDeed?_eq_write hd
      simpa [Heap.perform, Heap.write] using h.size_eq
  have hformed := h.formed.run a
  cases a with
  | write t mode n v => exact hwrite t mode n v ha hformed
  | writeMember t n v => exact hwrite t .assign n (Value.ofHost v) ha hformed
  | _ => cases ha

end Session.Like

/-! ## 5. Runs side by side -/

/-- The moves `ns` from `τ` do what remains of the moves `ms` from `σ`. -/
structure Session.Parallel (name : String) (σ τ : Session) (ms ns : List Move) : Prop where
  replies : List.Forall₂ (Reply.Same name) ((σ.replies ms).filter (Reply.remains name))
    (τ.replies ns)
  like : (σ.after ms).Like name (τ.after ns)

namespace Session.Parallel

variable {name : String} {σ τ : Session} {ms ns ms' ns' : List Move}

theorem nil (h : σ.Like name τ) : Parallel name σ τ [] [] := ⟨.nil, h⟩

theorem append (h : Parallel name σ τ ms ns)
    (h' : Parallel name (σ.after ms) (τ.after ns) ms' ns') :
    Parallel name σ τ (ms ++ ms') (ns ++ ns') := by
  constructor
  · rw [replies_append, replies_append, List.filter_append]
    exact List.rel_append h.replies h'.replies
  · rw [after_append, after_append]
    exact h'.like

theorem both (h : σ.Like name τ) {a : Action} (ha : ¬ a.writesOther name) :
    Parallel name σ τ [.act a] [.act a] := by
  have hrun := h.both ha
  have hremains : (σ.reply a).remains name = true := by simpa [reply, Reply.remains] using ha
  refine ⟨?_, hrun⟩
  rw [show σ.replies [.act a] = [σ.reply a] from rfl, List.filter_cons_of_pos hremains]
  exact .cons ⟨rfl, h.answer_eq, hrun.handles_eq, hrun.environments_eq⟩ .nil

theorem left (h : σ.Like name τ) {a : Action} (ha : a.writesOther name) :
    Parallel name σ τ [.act a] [] := by
  have hremains : ¬ (σ.reply a).remains name = true := by simpa [reply, Reply.remains] using ha
  refine ⟨?_, h.left ha⟩
  rw [show σ.replies [.act a] = [σ.reply a] from rfl, List.filter_cons_of_neg hremains]
  exact .nil

theorem mark_left (h : Parallel name σ.marked τ ms ns) : Parallel name σ τ (.mark :: ms) ns :=
  ⟨h.replies, h.like⟩

theorem mark_both (h : Parallel name σ.marked τ.marked ms ns) :
    Parallel name σ τ (.mark :: ms) (.mark :: ns) :=
  ⟨h.replies, h.like⟩

end Session.Parallel

/-- A block is opened on both sides or on neither. -/
theorem Session.Like.openBlock {name : String} {σ τ : Session} (h : σ.Like name τ) (e : String) :
    (∃ σ' τ' r r', σ.openBlock e = (σ', .error r) ∧ τ.openBlock e = (τ', .error r')) ∨
    ∃ σ' τ', σ.openBlock e = (σ', .ok ()) ∧ τ.openBlock e = (τ', .ok ()) := by
  have hanswer : ((Action.openBlock e).run σ).2 = ((Action.openBlock e).run τ).2 :=
    h.answer_eq rfl
  rw [Action.run, Action.run] at hanswer
  generalize σ.openBlock e = opened at hanswer ⊢
  generalize τ.openBlock e = opened' at hanswer ⊢
  obtain ⟨σ', r | ⟨⟩⟩ := opened <;> obtain ⟨τ', r' | ⟨⟩⟩ := opened'
  · exact .inl ⟨σ', τ', r, r', rfl, rfl⟩
  · cases hanswer
  · cases hanswer
  · exact .inr ⟨σ', τ', rfl, rfl⟩

/-- Rounds of bodies that run side by side run side by side. -/
theorem Session.repeat_parallel {name : String} {body body' : Session → Stretch}
    {moves moves' : Session → List Move}
    (hsession : ∀ σ, (body σ).session = σ.after (moves σ))
    (hsession' : ∀ τ, (body' τ).session = τ.after (moves' τ))
    (hbody : ∀ σ τ, σ.Like name τ →
      Parallel name σ τ (moves σ) (moves' τ) ∧ (body σ).panic = (body' τ).panic)
    (n : Nat) {σ τ : Session} (h : σ.Like name τ) (last last' : List Entry) :
    Parallel name σ τ (repeatMoves body moves n σ) (repeatMoves body' moves' n τ) ∧
    (repeatBody body n σ last).panic = (repeatBody body' n τ last').panic := by
  induction n generalizing σ τ last last' with
  | zero => exact ⟨.nil h, rfl⟩
  | succ n ih =>
    obtain ⟨hmoves, hpanic⟩ := hbody σ τ h
    have hlike := hmoves.like
    have hσ := hsession σ
    have hτ := hsession' τ
    rw [repeatMoves, repeatMoves, repeatBody, repeatBody]
    generalize body σ = done at hpanic hσ ⊢
    generalize body' τ = done' at hpanic hτ ⊢
    obtain ⟨σ', log, _ | message⟩ := done <;> obtain ⟨τ', log', _ | message'⟩ := done'
    · obtain rfl : σ' = σ.after (moves σ) := hσ
      obtain rfl : τ' = τ.after (moves' τ) := hτ
      obtain ⟨hrest, hend⟩ := ih hlike log log'
      exact ⟨hmoves.append hrest, hend⟩
    · cases hpanic
    · cases hpanic
    · exact ⟨hmoves.append (.nil hlike), hpanic⟩

mutual

theorem Step.run_without (detail : Detail) (name : String) : ∀ (s : Step) (σ τ : Session),
    ¬ s.writesOther name → σ.Like name τ →
    Session.Parallel name σ τ (Step.moves detail s σ) (Step.moves detail (s.without name) τ) ∧
    (Step.run detail s σ).2.panic? = (Step.run detail (s.without name) τ).2.panic?
  | .act a, σ, τ, ha, h => ⟨.both h ha, rfl⟩
  | .block e catches body, σ, τ, _, h => by
    have hopen := Session.Parallel.both (a := .openBlock e) h Bool.false_ne_true
    rw [Step.without, Step.moves, Step.moves, Step.run, Step.run]
    rcases h.openBlock e with ⟨σ', τ', r, r', hσ', hτ'⟩ | ⟨σ', τ', hσ', hτ'⟩
    · simp only [hσ', hτ']
      exact ⟨hopen, rfl⟩
    · obtain rfl := (Session.run_openBlock σ e).trans (congrArg Prod.fst hσ')
      obtain rfl := (Session.run_openBlock τ e).trans (congrArg Prod.fst hτ')
      obtain ⟨hbody, hpanic⟩ := Step.runAll_without detail name body _ _ hopen.like
      have hclose := Session.Parallel.both (a := .closeBlock e none) hbody.like Bool.false_ne_true
      simp only [hσ', hτ', Session.panic?_leaveBlock]
      exact ⟨hopen.append (hbody.append hclose),
        congrArg (fun panic => if catches then none else panic) hpanic⟩
  | .rounds n body, σ, τ, _, h => by
    obtain ⟨hmoves, hpanic⟩ := Session.repeat_parallel
      (Step.runAll_session detail body) (Step.runAll_session detail (Step.withoutAll name body))
      (fun σ τ h => Step.runAll_without detail name body σ τ h) n h [] []
    refine ⟨hmoves, ?_⟩
    rw [Step.without, Step.run, Step.run, Stretch.panic?_ofRounds, Stretch.panic?_ofRounds]
    exact hpanic
  | .panic message, σ, τ, _, h => ⟨.nil h, rfl⟩

/-- **Scripts stay in step** when the writes to other names are deleted from
one of them. -/
theorem Step.runAll_without (detail : Detail) (name : String) : ∀ (script : List Step)
    (σ τ : Session), σ.Like name τ →
    Session.Parallel name σ τ (Step.movesAll detail script σ)
      (Step.movesAll detail (Step.withoutAll name script) τ) ∧
    (Step.runAll detail script σ).panic =
      (Step.runAll detail (Step.withoutAll name script) τ).panic
  | [], σ, τ, h => ⟨.nil h, rfl⟩
  | s :: rest, σ, τ, h => by
    have hσ := Step.run_session detail s σ
    by_cases hs : s.writesOther name
    · -- the step is done on the left only
      rw [Step.withoutAll, if_pos hs, Step.movesAll, Step.runAll]
      cases s with
      | act a =>
        have ha := Session.Parallel.left h hs
        obtain ⟨hrest, hpanic⟩ :=
          Step.runAll_without detail name rest _ _ ha.like.marked_left
        exact ⟨ha.append hrest.mark_left, hpanic⟩
      | _ => cases hs
    · obtain ⟨hstep, hpanic⟩ := Step.run_without detail name s σ τ hs h
      have hτ := Step.run_session detail (s.without name) τ
      rw [Step.withoutAll, if_neg hs, Step.movesAll, Step.movesAll, Step.runAll, Step.runAll]
      generalize Step.run detail s σ = done at hpanic hσ ⊢
      generalize Step.run detail (s.without name) τ = done' at hpanic hτ ⊢
      obtain ⟨σ', a | message⟩ := done <;> obtain ⟨τ', a' | message'⟩ := done'
      · obtain rfl : σ' = σ.after (Step.moves detail s σ) := hσ
        obtain rfl : τ' = τ.after (Step.moves detail (s.without name) τ) := hτ
        obtain ⟨hrest, hend⟩ :=
          Step.runAll_without detail name rest _ _ hstep.like.marked_left.marked_right
        exact ⟨hstep.append hrest.mark_both, hend⟩
      · cases hpanic
      · cases hpanic
      · exact ⟨hstep.append (.nil hstep.like), hpanic⟩

end

/-- **Names are independent.** Let a script run from any session, and delete
from it every write to a variable other than `name`. Then the same actions are
done as before, without the deleted ones and in the same order, and each

* binds the same handles and the same environments, and so opens, closes and
  enters the same scopes;
* gives the same answer, unless it asks about other variables or for a
  description.

The script also ends in the same panic, or in none. -/
theorem names_independent (detail : Detail) (ms : List Move) (script : List Step)
    (name : String) :
    let σ := Session.empty.after ms
    let deleted := Step.withoutAll name script
    let before := σ.replies (Step.movesAll detail script σ)
    let after := σ.replies (Step.movesAll detail deleted σ)
    List.Forall₂ (Reply.Same name) (before.filter (Reply.remains name)) after ∧
    (Step.runAll detail script σ).panic = (Step.runAll detail deleted σ).panic := by
  intro σ deleted before after
  have hσ : σ.Formed := Session.formed_empty.after ms
  obtain ⟨hmoves, hpanic⟩ := Step.runAll_without detail name script _ _ (.refl name hσ)
  exact ⟨hmoves.replies, hpanic⟩

end ScopeChain

/-
ScopeChain.Proofs.Members — what the host writes, and what it sees of it.

The host writes members by assignment and sees nothing where the language
has nil. To the language, a name that is bound to nil is bound: it is found
before anything further out, and an assignment to it ends there. So a host
that writes nil hides what is further out and does not uncover it, and
reads of the member miss (`lookupAt_assign_self`).

Who else notices? An assignment goes to the nearest scope that binds the
name. A scope that found the name somewhere else is not led there
(`not_leads_goal`), and under other names nothing has changed for anyone.

Members are written and read through scopes, handles and environments. All
three come down to the scope itself: a handle reads and writes the scope in
its cell, an environment that in the cell of its current handle.
-/
import ScopeChain.Proofs.Seats

namespace ScopeChain

/-- What a step answers that names a target which is not there. -/
def Target.unknown : Target → Misuse
  | .place (.shared _) => .unknownHandle
  | .place (.owned _) => .unknownOwned
  | .environment _ => .unknownEnvironment

/-- What the host sees of a value: all of it, except nil. -/
theorem Value.toHost?_eq (v : Value) : v.toHost? = if v = .nil then none else some v := by
  cases v <;> rfl

namespace Session

variable {σ τ : Session} {g j k : Seat} {t : Target} {n m : String} {v w : Value}

/-! ## 1. Reads after a write -/

section

variable (hac : σ.heap.Acyclic) (hk : σ.Has k)
include hac hk

/-- What was assigned is read, whatever other scopes bind the name to. -/
theorem lookupAt_assign_self (n : String) (v : Value) :
    (σ.writeAt .assign k n v).lookupAt k n = some v := by
  rw [lookupAt_writeAt hac hk hk]
  exact if_pos ⟨rfl, σ.leads_goal (by decide) k n⟩

theorem lookupAt_write_ne (hg : σ.Has g) (hne : m ≠ n) (mode : WriteMode) (v : Value) :
    (σ.writeAt mode k n v).lookupAt g m = σ.lookupAt g m := by
  rw [lookupAt_writeAt hac hk hg]
  exact if_neg fun h => hne h.1

/-- Whoever finds the name elsewhere is not led to where an assignment goes. -/
theorem not_leads_goal (hg : σ.Has g) (hfound : σ.binderFrom? g n = some j)
    (helse : σ.binderFrom? k n ≠ some j) : ¬ σ.Leads g n (σ.goal .assign k n) := by
  intro hleads
  rw [goal] at hleads
  cases hbinder : σ.binderFrom? k n with
  | some t =>
    rw [hbinder] at hleads helse
    have hbinds := (binderFrom?_eq_some_iff.mp hbinder).2
    rw [binderFrom?_eq_some_iff.mpr ⟨hleads, hbinds⟩] at hfound
    exact helse hfound
  | none =>
    -- an assignment to an unbound name goes to a root, and a search that
    -- leads as far as a root has found nothing
    rw [hbinder] at hleads
    have hnot := binderFrom?_eq_none_iff.mp hbinder _ (σ.rootFrom_mem k)
    rw [hleads.binderFrom?_eq_none hac hg (parent_rootFrom hac hk) hnot] at hfound
    cases hfound

theorem lookupAt_assign_elsewhere (hg : σ.Has g) (hfound : σ.binderFrom? g n = some j)
    (helse : σ.binderFrom? k n ≠ some j) (v : Value) (m : String) :
    (σ.writeAt .assign k n v).lookupAt g m = σ.lookupAt g m := by
  rw [lookupAt_writeAt hac hk hg]
  exact if_neg fun h => not_leads_goal hac hk hg hfound helse h.2

theorem seat?_writeAt (mode : WriteMode) (n : String) (v : Value) (t : Target) :
    (σ.writeAt mode k n v).seat? t = σ.seat? t := by
  rw [writeAt_eq hac hk, seat?_bindIn (hk.goal hac mode n)]

/-- Wherever a scope is kept, it is read as the scope that it is. -/
theorem lookupAt_eq_lookup (n : String) :
    σ.lookupAt k n = (σ.scopeIn k).lookup σ.heap n := by
  cases k with
  | cell i =>
    have hscope := ((σ.heap.scope i).unfolds σ.heap).lookup_eq n
    exact ((hac.unfolds hk).lookup_eq n).trans hscope.symm
  | apart x => rfl

end

/-! ## 2. What the steps answer -/

theorem run_read_of_none (ht : σ.seat? t = none) (query : Query) (n : String) :
    (Action.read t query n).run σ = σ.misuse t.unknown := by
  rcases t with (x | x) | e
  · simp only [Action.run, withLookup, withHandle, Option.map_eq_none_iff.mp ht, Target.unknown]
  · simp only [Action.run, withLookup, withOwned, Option.map_eq_none_iff.mp ht, Target.unknown]
  · simp only [Action.run, withLookup, withEnvironment, Option.map_eq_none_iff.mp ht,
      Target.unknown]

/-- A question is answered alike where the target is in the same seat and the
name is found to be the same there. -/
theorem read_congr (hseat : τ.seat? t = σ.seat? t)
    (hsame : ∀ k, σ.seat? t = some k → τ.lookupAt k n = σ.lookupAt k n) (query : Query) :
    ((Action.read t query n).run τ).2 = ((Action.read t query n).run σ).2 := by
  cases ht : σ.seat? t with
  | none =>
    rw [ht] at hseat
    rw [run_read_of_none ht, run_read_of_none hseat]
    rfl
  | some k =>
    rw [ht] at hseat
    rw [run_read ht, run_read hseat, hsame k ht]

/-- The host sees a value exactly if the name is bound to it and it is not nil. -/
theorem member_answer_iff (σ : Session) (t : Target) (n : String) (w : Value) :
    ((Action.read t .member n).run σ).2 = .binding (some w) ↔
      ((Action.read t .binding n).run σ).2 = .binding (some w) ∧ w ≠ .nil := by
  cases ht : σ.seat? t with
  | none => simp [run_read_of_none ht, misuse]
  | some k =>
    rw [run_read ht, run_read ht]
    cases hfound : σ.lookupAt k n with
    | none => simp [Query.answer, Value.toHost?_eq]
    | some v =>
      simp only [Query.answer, Value.toHost?_eq, Option.getD_some, Answer.binding.injEq]
      split
      · next hnil =>
        constructor
        · intro h
          cases h
        · intro ⟨h, hw⟩
          exact absurd ((Option.some.inj h).symm.trans hnil) hw
      · next hnil =>
        constructor
        · intro h
          exact ⟨h, Option.some.inj h ▸ hnil⟩
        · intro h
          exact h.1

/-- A member is written where the target's scope is kept. -/
theorem run_writeMember (hk : σ.seat? t = some k) (n : String) (x : HostValue) :
    (Action.writeMember t n x).run σ = (σ.writeAt .assign k n (Value.ofHost x), .done) :=
  run_write hk (by decide) n (Value.ofHost x)

end Session

/-! ## 3. The round trip -/

/-- **Members, written and read back.** After any moves:

* what is written through a target is what the target's name is bound to, and
  the host reads it back through the target unless it is nil, in which case
  it reads nothing; a scope that found the name elsewhere reads everything as
  before, and other names are read as before through every target;
* writing through an environment and writing through a handle to its current
  scope come to the same as taking that scope out, writing through it, and
  putting it back;
* reading through an environment, through a handle to its current scope, and
  through a scope like that give the same answers;
* the host sees a value exactly if the name is bound to it and it is not nil. -/
theorem member_round_trip (ms : List Move) :
    let σ := Session.empty.after ms
    (∀ t k, σ.seat? t = some k → ∀ n x,
      let later := ((Action.writeMember t n x).run σ).1
      ((Action.writeMember t n x).run σ).2 = .done ∧
      ((Action.read t .binding n).run later).2 = .binding (some (Value.ofHost x)) ∧
      ((Action.read t .member n).run later).2 =
        .binding (if Value.ofHost x = .nil then none else some (Value.ofHost x)) ∧
      (∀ g j, σ.Has g → σ.binderFrom? g n = some j → σ.binderFrom? k n ≠ some j →
        ∀ m, later.lookupAt g m = σ.lookupAt g m) ∧
      ∀ u query m, m ≠ n →
        ((Action.read u query m).run later).2 = ((Action.read u query m).run σ).2) ∧
    (∀ e env, σ.environments[e]? = some env → ∀ n x,
      let put := (σ.heap.scope env.current).write σ.heap .assign n (Value.ofHost x)
      let later := σ.withHeap (Store.write put.2 env.current put.1)
      ((Action.writeMember (.environment e) n x).run σ).1 = later ∧
      ∀ y, σ.handles[y]? = some env.current →
        ((Action.writeMember (.place (.shared y)) n x).run σ).1 = later) ∧
    (∀ e env, σ.environments[e]? = some env → ∀ n query,
      let answer := query.answer ((σ.heap.scope env.current).lookup σ.heap n)
      ((Action.read (.environment e) query n).run σ).2 = answer ∧
      (∀ y, σ.handles[y]? = some env.current →
        ((Action.read (.place (.shared y)) query n).run σ).2 = answer) ∧
      ∀ z, σ.owned[z]? = some (σ.heap.scope env.current) →
        ((Action.read (.place (.owned z)) query n).run σ).2 = answer) ∧
    ∀ t n w, ((Action.read t .member n).run σ).2 = .binding (some w) ↔
      ((Action.read t .binding n).run σ).2 = .binding (some w) ∧ w ≠ .nil := by
  intro σ
  have hσ : σ.Formed := Session.formed_empty.after ms
  have hac := hσ.acyclic
  refine ⟨fun t k ht n x => ?_, fun e env he n x => ?_, fun e env he n query => ?_,
    σ.member_answer_iff⟩
  · have hk := hσ.has_seat ht
    have hseat := fun u => Session.seat?_writeAt hac hk .assign n (Value.ofHost x) u
    have hself := Session.lookupAt_assign_self hac hk n (Value.ofHost x)
    simp only [Session.run_writeMember ht]
    refine ⟨trivial, ?_, ?_, fun g j hg hfound helse m => ?_, fun u query m hne => ?_⟩
    · rw [Session.run_read ((hseat t).trans ht), hself]
      rfl
    · rw [Session.run_read ((hseat t).trans ht), hself, ← Value.toHost?_eq]
      rfl
    · exact Session.lookupAt_assign_elsewhere hac hk hg hfound helse _ m
    · refine Session.read_congr (hseat u) (fun g hg => ?_) query
      exact Session.lookupAt_write_ne hac hk (hσ.has_seat hg) hne .assign _
  · have hcurrent : σ.seat? (.environment e) = some (.cell env.current) := by
      rw [Session.seat?, he]
      rfl
    have hput := congrArg σ.withHeap
      (hac.write_eq_replace (hσ.has_seat hcurrent) .assign n (Value.ofHost x))
    refine ⟨?_, fun y hy => ?_⟩
    · rw [Session.run_writeMember hcurrent]
      exact hput
    · have hhandle : σ.seat? (.place (.shared y)) = some (.cell env.current) := by
        rw [Session.seat?, hy]
        rfl
      rw [Session.run_writeMember hhandle]
      exact hput
  · -- all three read a seat that keeps the same scope
    have halike : ∀ t k, σ.seat? t = some k → σ.scopeIn k = σ.heap.scope env.current →
        ((Action.read t query n).run σ).2 =
          query.answer ((σ.heap.scope env.current).lookup σ.heap n) := by
      intro t k ht hscope
      rw [Session.run_read ht, Session.lookupAt_eq_lookup hac (hσ.has_seat ht), hscope]
    refine ⟨halike _ (.cell env.current) ?_ rfl, fun y hy => halike _ (.cell env.current) ?_ rfl,
      fun z hz => halike _ (.apart z) ?_ ?_⟩
    · rw [Session.seat?, he]
      rfl
    · rw [Session.seat?, hy]
      rfl
    · rw [Session.seat?, hz]
      rfl
    · rw [Session.scopeIn, hz]
      rfl

/-- An environment in a block that declares a name of the root anew, and a handle
to the block. -/
def outerHidden : List Move := [.act (.newScope "r"),
  .act (.write (.place (.shared "r")) .declare "x" (.boolean true)),
  .act (.newEnvironmentOver "r" Policy.standard "e"), .act (.openBlock "e"),
  .act (.takeCurrent "e" "h"), .act (.write (.environment "e") .declare "x" (.boolean false))]

/-- The host writes nil through the handle. It then sees nothing there, although
the root still binds the name to something else. -/
theorem member_round_trip_outerHidden :
    let σ := Session.empty.after outerHidden
    let later := ((Action.writeMember (.place (.shared "h")) "x" .absent).run σ).1
    ((Action.read (.environment "e") .member "x").run σ).2 = .binding (some (.boolean false)) ∧
    ((Action.read (.place (.shared "h")) .binding "x").run later).2 = .binding (some .nil) ∧
    ((Action.read (.place (.shared "h")) .member "x").run later).2 = .binding none ∧
    later.lookupAt (.cell ⟨0⟩) "x" = some (.boolean true) ∧
    ((Action.writeMember (.environment "e") "x" .absent).run σ).1 = later := by
  intro σ later
  obtain ⟨hwritten, hways, -, hsees⟩ := member_round_trip outerHidden
  have hbinding : ((Action.read (.environment "e") .binding "x").run σ).2 =
      .binding (some (.boolean false)) := rfl
  have hroot : σ.Has (.cell ⟨0⟩) := by
    show 0 < σ.heap.size
    decide
  obtain ⟨-, hread, hmember, helsewhere, -⟩ :=
    hwritten (.place (.shared "h")) (.cell ⟨1⟩) rfl "x" .absent
  have hunseen := helsewhere (.cell ⟨0⟩) (.cell ⟨0⟩) hroot (by decide) (by decide) "x"
  obtain ⟨henvironment, hhandle⟩ :=
    hways "e" ⟨⟨0⟩, [⟨1⟩], ⟨0⟩, 1, Policy.standard⟩ rfl "x" .absent
  refine ⟨(hsees _ _ _).mpr ⟨hbinding, by decide⟩, hread, hmember, hunseen.trans rfl, ?_⟩
  exact henvironment.trans (hhandle "h" rfl).symm

end ScopeChain

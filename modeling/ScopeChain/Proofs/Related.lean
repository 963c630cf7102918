/-
ScopeChain.Proofs.Related — sessions whose tables hold related things.

An action looks up the names that it mentions and goes on with what they
stand for. In two sessions they may stand for different things that are
related: handles by one relation, owned scopes by another, environments by
a third (`Session.Related`). Then a name that is missing on one side is
missing on the other, and both refuse it alike; and where it is not
missing, both answer alike if they do so from any two things that are
related.

Which relations these are is left open. A comparison of sessions chooses
them, and has to say for each action no more than what it asks about the
things it has looked up.
-/
import ScopeChain.Proofs.Effect

namespace ScopeChain

/-! ## 1. Optional things -/

/-- Two optional things are both missing, or both there and related. -/
theorem rel_cases {α β : Type} {R : α → β → Prop} {a? : Option α} {b? : Option β}
    (h : Option.Rel R a? b?) :
    a? = none ∧ b? = none ∨ ∃ a b, a? = some a ∧ b? = some b ∧ R a b := by
  cases h with
  | none => exact .inl ⟨rfl, rfl⟩
  | some hab => exact .inr ⟨_, _, rfl, rfl, hab⟩

theorem rel_self {α : Type} {R : α → α → Prop} {a? : Option α} (h : ∀ a, a? = some a → R a a) :
    Option.Rel R a? a? := by
  cases a? with
  | none => exact .none
  | some a => exact .some (h a rfl)

theorem rel_mono {α β : Type} {R S : α → β → Prop} (hRS : ∀ a b, R a b → S a b) {a? : Option α}
    {b? : Option β} (h : Option.Rel R a? b?) : Option.Rel S a? b? := by
  cases h with
  | none => exact .none
  | some hab => exact .some (hRS _ _ hab)

theorem rel_isSome {α β : Type} {R : α → β → Prop} {a? : Option α} {b? : Option β}
    (h : Option.Rel R a? b?) : a?.isSome = b?.isSome := by
  cases h <;> rfl

theorem rel_map {α β γ δ : Type} {R : α → β → Prop} {S : γ → δ → Prop} {f : α → γ} {g : β → δ}
    {a? : Option α} {b? : Option β} (h : Option.Rel R a? b?)
    (hfg : ∀ a b, R a b → S (f a) (g b)) : Option.Rel S (a?.map f) (b?.map g) := by
  cases h with
  | none => exact .none
  | some hab => exact .some (hfg _ _ hab)

theorem rel_bind {α β γ δ : Type} {R : α → β → Prop} {S : γ → δ → Prop} {f : α → Option γ}
    {g : β → Option δ} {a? : Option α} {b? : Option β} (h : Option.Rel R a? b?)
    (hfg : ∀ a b, R a b → Option.Rel S (f a) (g b)) : Option.Rel S (a?.bind f) (b?.bind g) := by
  cases h with
  | none => exact .none
  | some hab => exact hfg _ _ hab

/-! ## 2. Tables -/

/-- Rebindings of the same name to related things. -/
abbrev Rebinding.Agrees {α : Type} (R : α → α → Prop) (c d : Rebinding α) : Prop :=
  Option.Rel (fun p q => p.1 = q.1 ∧ Option.Rel R p.2 q.2) c d

theorem Table.rebind_rel {α : Type} {R : α → α → Prop} {t u : Table α} {c d : Rebinding α}
    {x : String} (h : Option.Rel R t[x]? u[x]?) (hcd : Rebinding.Agrees R c d) :
    Option.Rel R (t.rebind c)[x]? (u.rebind d)[x]? := by
  cases hcd with
  | none => exact h
  | @some p q hpq =>
    obtain ⟨y, a?⟩ := p
    obtain ⟨z, b?⟩ := q
    obtain ⟨rfl, hab⟩ : y = z ∧ Option.Rel R a? b? := hpq
    by_cases hyx : y = x
    · subst hyx
      rw [getElem?_rebind_self, getElem?_rebind_self]
      exact hab
    · rw [getElem?_rebind_ne t hyx, getElem?_rebind_ne u hyx]
      exact h

/-- The names that are mine stand for related things on both sides: handles
for handles related by `H`, owned scopes by `O`, environments by `E`. -/
structure Session.Related (mine : String → Bool) (H : Handle → Handle → Prop)
    (O : Scope → Scope → Prop) (E : Environment → Environment → Prop) (σ τ : Session) : Prop where
  handles : ∀ x, mine x → Option.Rel H σ.handles[x]? τ.handles[x]?
  owned : ∀ x, mine x → Option.Rel O σ.owned[x]? τ.owned[x]?
  environments : ∀ x, mine x → Option.Rel E σ.environments[x]? τ.environments[x]?

/-! ## 3. Answers -/

namespace Session.Related

variable {mine : String → Bool} {H : Handle → Handle → Prop} {O : Scope → Scope → Prop}
  {E : Environment → Environment → Prop} {σ τ : Session} {x y : String}

theorem withHandle_snd (h : σ.Related mine H O E τ) (hx : mine x)
    {next next' : Handle → Session × Answer} (hnext : ∀ i j, H i j → (next i).2 = (next' j).2) :
    (σ.withHandle x next).2 = (τ.withHandle x next').2 := by
  unfold withHandle
  obtain ⟨hi, hj⟩ | ⟨i, j, hi, hj, hij⟩ := rel_cases (h.handles x hx)
  · simp [hi, hj, misuse]
  · simpa [hi, hj] using hnext i j hij

theorem withOwned_snd (h : σ.Related mine H O E τ) (hx : mine x)
    {next next' : Scope → Session × Answer} (hnext : ∀ s t, O s t → (next s).2 = (next' t).2) :
    (σ.withOwned x next).2 = (τ.withOwned x next').2 := by
  unfold withOwned
  obtain ⟨hs, ht⟩ | ⟨s, t, hs, ht, hst⟩ := rel_cases (h.owned x hx)
  · simp [hs, ht, misuse]
  · simpa [hs, ht] using hnext s t hst

theorem withEnvironment_snd (h : σ.Related mine H O E τ) (hx : mine x)
    {next next' : Environment → Session × Answer}
    (hnext : ∀ e f, E e f → (next e).2 = (next' f).2) :
    (σ.withEnvironment x next).2 = (τ.withEnvironment x next').2 := by
  unfold withEnvironment
  obtain ⟨he, hf⟩ | ⟨e, f, he, hf, hef⟩ := rel_cases (h.environments x hx)
  · simp [he, hf, misuse]
  · simpa [he, hf] using hnext e f hef

theorem withScope_snd (h : σ.Related mine H O E τ) {p : Place} (hp : mine p.tableName)
    (hscope : ∀ i j, H i j → O (σ.heap.scope i) (τ.heap.scope j))
    {next next' : Scope → Session × Answer} (hnext : ∀ s t, O s t → (next s).2 = (next' t).2) :
    (σ.withScope p next).2 = (τ.withScope p next').2 := by
  cases p with
  | shared x => exact h.withHandle_snd hp fun i j hij => hnext _ _ (hscope i j hij)
  | owned x => exact h.withOwned_snd hp hnext

/-- What is looked up is the same on both sides if it is from any two things
that are related. -/
theorem withLookup_snd (h : σ.Related mine H O E τ) {t : Target} (ht : mine t.tableName)
    {name : String} (hhandle : ∀ i j, H i j → σ.heap.lookup i name = τ.heap.lookup j name)
    (howned : ∀ s t, O s t → s.lookup σ.heap name = t.lookup τ.heap name)
    (hcurrent : ∀ e f, E e f → H e.current f.current)
    {next next' : Option Value → Session × Answer} (hnext : ∀ v?, (next v?).2 = (next' v?).2) :
    (σ.withLookup t name next).2 = (τ.withLookup t name next').2 := by
  match t with
  | .place (.shared x) =>
    refine h.withHandle_snd ht fun i j hij => ?_
    rw [hhandle i j hij]
    exact hnext _
  | .place (.owned x) =>
    refine h.withOwned_snd ht fun s t hst => ?_
    rw [howned s t hst]
    exact hnext _
  | .environment x =>
    refine h.withEnvironment_snd ht fun e f hef => ?_
    rw [Environment.lookup, Environment.lookup, hhandle _ _ (hcurrent e f hef)]
    exact hnext _

/-- A write tells only whether there is something to write through. -/
theorem write_snd (h : σ.Related mine H O E τ) {t : Target} (ht : mine t.tableName)
    (mode : WriteMode) (name : String) (v : Value) :
    (σ.write t mode name v).2 = (τ.write t mode name v).2 := by
  match t with
  | .place (.shared x) => exact h.withHandle_snd ht fun _ _ _ => rfl
  | .place (.owned x) => exact h.withOwned_snd ht fun _ _ _ => rfl
  | .environment x => exact h.withEnvironment_snd ht fun _ _ _ => rfl

/-- A closure is entered or refused alike if the policies are the same and the
scopes that were captured are equally deep. -/
theorem enterClosure_snd (h : σ.Related mine H O E τ) (hx : mine x) (hy : mine y) (name : String)
    (hpolicy : ∀ e f, E e f → e.policy = f.policy)
    (hdepth : ∀ i j, H i j → σ.heap.depth i = τ.heap.depth j) :
    (σ.enterClosure x y name).2 = (τ.enterClosure x y name).2 := by
  obtain ⟨he, hf⟩ | ⟨e, f, he, hf, hef⟩ := rel_cases (h.environments x hx)
  · simp [enterClosure, withEnvironment, he, hf, misuse]
  obtain ⟨hi, hj⟩ | ⟨i, j, hi, hj, hij⟩ := rel_cases (h.handles y hy)
  · simp [enterClosure, withEnvironment, withHandle, he, hf, hi, hj, misuse]
  · rw [σ.enterClosure_eq x y name he hi, τ.enterClosure_eq x y name hf hj, hpolicy e f hef,
      hdepth i j hij]
    rcases f.policy.objection? (τ.heap.depth j + 1) with _ | ⟨depth, limit⟩ <;> rfl

/-- A block is opened or refused alike if the policies are the same and the
environments count the same depth. -/
theorem openBlock_snd (h : σ.Related mine H O E τ) (hx : mine x)
    (hpolicy : ∀ e f, E e f → e.policy = f.policy) (hdepth : ∀ e f, E e f → e.depth = f.depth) :
    ((Action.openBlock x).run σ).2 = ((Action.openBlock x).run τ).2 := by
  rw [Action.run, Action.run]
  obtain ⟨he, hf⟩ | ⟨e, f, he, hf, hef⟩ := rel_cases (h.environments x hx)
  · rw [σ.openBlock_unknown x he, τ.openBlock_unknown x hf]
  · rw [σ.openBlock_eq x he, τ.openBlock_eq x hf, hpolicy e f hef, hdepth e f hef]
    rcases f.policy.objection? (f.depth + 1) with _ | ⟨depth, limit⟩ <;> rfl

end Session.Related

end ScopeChain

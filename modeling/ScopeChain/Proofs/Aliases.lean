/-
ScopeChain.Proofs.Aliases — the names of a script on cells alias as its
history says.

A script never shows a handle. What it shows of them is which names stand
for one cell, and what is read through each name. Both can be told from the
steps alone, without any table: a name is traced back from share to share to
the step that made its cell (`CellHistory.origin?`), and the content of a
cell is what was last put into it through a name that was then traced to
the same step (`CellHistory.content?`).

Names are rebound on the way, so the classes of names that stand for one
cell merge, split and die out. `CellTable.Follows` is what stays true: names
have the same handle exactly if they have the same origin, and read the
content that the history gives. It holds after every step
(`CellTable.Follows.step`), and so after every script.
-/
import ScopeChain.Cell.Script

namespace ScopeChain

/-! ## 1. What the steps say

The steps are listed latest first, so that each is told by those after it. A
step is known by its place in the script, the number of steps before it. -/

/-- The steps that were done, the latest first. -/
abbrev CellHistory := List CellStep

namespace CellHistory

/-- The step that made the cell of a name: the last that made a cell under the
name, or what the name was traced to from which it was shared last. Sharing a
name that stands for nothing leaves everything as it was. -/
def origin? : CellHistory → String → Option Nat
  | [], _ => none
  | .new _ y :: past, x => if x = y then some past.length else origin? past x
  | .share c y :: past, x =>
    if x = y then (origin? past c).or (origin? past x) else origin? past x
  | .put _ _ :: past, x | .get _ :: past, x | .same _ _ :: past, x | .describe _ :: past, x =>
    origin? past x

/-- What is in the cell that the step `k` made: what was last put there through
any name of the cell, or what the cell was made with. -/
def content? : CellHistory → Nat → Option Int
  | [], _ => none
  | .new i _ :: past, k => if k = past.length then some i else content? past k
  | .put c i :: past, k => if origin? past c = some k then some i else content? past k
  | .share _ _ :: past, k | .get _ :: past, k | .same _ _ :: past, k | .describe _ :: past, k =>
    content? past k

/-- What is read through a name. -/
def read? (past : CellHistory) (x : String) : Option Int := (origin? past x).bind (content? past)

theorem origin?_lt {past : CellHistory} {x : String} {k : Nat} (h : origin? past x = some k) :
    k < past.length := by
  induction past generalizing x k with
  | nil => simp [origin?] at h
  | cons s past ih =>
    rw [List.length_cons]
    cases s with
    | new i y =>
      rw [origin?] at h
      split at h
      · have hk : past.length = k := by simpa using h
        omega
      · have hk := ih h
        omega
    | share c y =>
      rw [origin?] at h
      split at h
      · rcases Option.or_eq_some_iff.mp h with h | ⟨-, h⟩
        · have hk := ih h
          omega
        · have hk := ih h
          omega
      · have hk := ih h
        omega
    | _ =>
      have hk := ih h
      omega

/-- Every cell that a name is traced to has a content. -/
theorem isSome_content? {past : CellHistory} {x : String} {k : Nat}
    (h : origin? past x = some k) : (content? past k).isSome := by
  induction past generalizing x k with
  | nil => simp [origin?] at h
  | cons s past ih =>
    cases s with
    | new i y =>
      simp only [origin?, content?] at h ⊢
      split
      · rfl
      · next hk =>
        split at h
        · exact absurd (Option.some.inj h).symm hk
        · exact ih h
    | put c i =>
      simp only [content?]
      split
      · rfl
      · exact ih h
    | share c y =>
      simp only [origin?, content?] at h ⊢
      split at h
      · rcases Option.or_eq_some_iff.mp h with h | ⟨-, h⟩
        · exact ih h
        · exact ih h
      · exact ih h
    | _ => exact ih h

theorem read?_new (past : CellHistory) (i : Int) (y x : String) :
    read? (.new i y :: past) x = if x = y then some i else read? past x := by
  simp only [read?, origin?]
  by_cases hx : x = y
  · simp [hx, content?]
  · rw [if_neg hx, if_neg hx]
    cases ho : origin? past x with
    | none => rfl
    | some k =>
      have hk : k ≠ past.length := Nat.ne_of_lt (origin?_lt ho)
      simp [content?, hk]

end CellHistory

/-! ## 2. The table follows the history -/

namespace CellTable

open CellHistory

/-- Names have one handle if they have one origin, and read what the history
says. -/
structure Follows (t : CellTable) (past : CellHistory) : Prop where
  live_iff : ∀ x : String, t.names[x]? = none ↔ origin? past x = none
  handle_lt : ∀ {x : String} {h : Handle}, t.names[x]? = some h → h.index < t.store.size
  alias_iff : ∀ x y : String, t.names[x]? = t.names[y]? ↔ origin? past x = origin? past y
  read?_eq : ∀ x : String, t.read? x = CellHistory.read? past x

theorem follows_empty : CellTable.empty.Follows [] where
  live_iff x := by simp [CellTable.empty, origin?]
  handle_lt h := by simp [CellTable.empty] at h
  alias_iff x y := by simp [CellTable.empty, origin?]
  read?_eq x := by simp [CellTable.empty, CellTable.read?, CellHistory.read?, origin?]

variable {t : CellTable} {past : CellHistory}

theorem names_new (t : CellTable) (i : Int) (y x : String) :
    (t.step (.new i y)).names[x]? = if x = y then some ⟨t.store.size⟩ else t.names[x]? := by
  simp [CellTable.step, Std.ExtTreeMap.getElem?_insert, eq_comm (a := x)]

theorem store_new (t : CellTable) (i : Int) (y : String) :
    (t.step (.new i y)).store = (t.store.alloc i).1 := rfl

/-- Nobody has the handle of the next cell. -/
theorem Follows.ne_next (h : t.Follows past) (x : String) :
    t.names[x]? ≠ some ⟨t.store.size⟩ := by
  intro hx
  exact absurd (h.handle_lt hx) (Nat.lt_irrefl _)

/-- A new cell is read through the name that it was made under, and through no
other. -/
theorem read?_new (h : t.Follows past) (i : Int) (y x : String) :
    (t.step (.new i y)).read? x = if x = y then some i else t.read? x := by
  rw [CellTable.read?, names_new, store_new, CellTable.read?]
  by_cases hx : x = y
  · simp [hx, Store.read?_alloc]
  · rw [if_neg hx, if_neg hx]
    cases hn : t.names[x]? with
    | none => rfl
    | some j =>
      have hj : j ≠ ⟨t.store.size⟩ := by
        rintro rfl
        exact h.ne_next x hn
      simp [Store.read?_alloc, hj]

/-- A new cell is nobody's alias: its handle and its origin are both new. -/
theorem Follows.new (h : t.Follows past) (i : Int) (y : String) :
    (t.step (.new i y)).Follows (.new i y :: past) := by
  have hlatest : ∀ x : String, origin? past x ≠ some past.length := by
    intro x hx
    exact absurd (origin?_lt hx) (Nat.lt_irrefl _)
  refine ⟨fun x => ?_, fun {x k} hx => ?_, fun x z => ?_, fun x => ?_⟩
  · rw [names_new, origin?]
    by_cases hx : x = y
    · simp [hx]
    · simpa [hx] using h.live_iff x
  · rw [names_new] at hx
    rw [store_new, Store.size_alloc]
    split at hx
    · cases hx
      exact Nat.lt_succ_self _
    · exact Nat.lt_succ_of_lt (h.handle_lt hx)
  · rw [names_new, names_new, origin?, origin?]
    by_cases hx : x = y
    · by_cases hz : z = y
      · simp [hx, hz]
      · simp [hx, hz, (h.ne_next z).symm, (hlatest z).symm]
    · by_cases hz : z = y
      · simp [hx, hz, h.ne_next x, hlatest x]
      · simpa [hx, hz] using h.alias_iff x z
  · rw [t.read?_new h, CellHistory.read?_new, h.read?_eq]

/-- Sharing makes one name stand for what another stands for. -/
theorem Follows.share (h : t.Follows past) (c y : String) :
    (t.step (.share c y)).Follows (.share c y :: past) := by
  cases hc : t.names[c]? with
  | none =>
    have hstep : t.step (.share c y) = t := by simp [CellTable.step, hc]
    have horigin : ∀ x, origin? (.share c y :: past) x = origin? past x := by
      intro x
      simp [origin?, (h.live_iff c).mp hc]
    rw [hstep]
    refine ⟨fun x => ?_, h.handle_lt, fun x z => ?_, fun x => ?_⟩
    · rw [horigin]; exact h.live_iff x
    · rw [horigin, horigin]; exact h.alias_iff x z
    · rw [h.read?_eq, CellHistory.read?, CellHistory.read?, horigin]; rfl
  | some i =>
    -- from now on a name stands for what its source stood for
    let source : String → String := fun x => if x = y then c else x
    have hlive : origin? past c ≠ none := by
      intro ho
      rw [(h.live_iff c).mpr ho] at hc
      cases hc
    have hnames : ∀ x : String, (t.step (.share c y)).names[x]? = t.names[source x]? := by
      intro x
      simp only [CellTable.step, hc, Std.ExtTreeMap.getElem?_insert, source]
      by_cases hx : x = y
      · simp [hx, hc]
      · simp [hx, Ne.symm hx]
    have hstore : (t.step (.share c y)).store = t.store := by simp [CellTable.step, hc]
    have horigin : ∀ x, origin? (.share c y :: past) x = origin? past (source x) := by
      intro x
      obtain ⟨k, hk⟩ := Option.ne_none_iff_exists'.mp hlive
      simp only [origin?, source]
      split
      · rw [hk]; rfl
      · rfl
    refine ⟨fun x => ?_, fun {x j} hx => ?_, fun x z => ?_, fun x => ?_⟩
    · rw [hnames, horigin]; exact h.live_iff _
    · rw [hnames] at hx
      rw [hstore]
      exact h.handle_lt hx
    · rw [hnames, hnames, horigin, horigin]; exact h.alias_iff _ _
    · have hread := h.read?_eq (source x)
      simp only [CellTable.read?, CellHistory.read?] at hread ⊢
      rw [hnames, hstore, horigin, hread]
      rfl

/-- What is put into a cell is read through its names, and through no others. -/
theorem read?_put (h : t.Follows past) {c : String} (hc : t.names[c]? ≠ none) (i : Int)
    (x : String) :
    (t.step (.put c i)).read? x = if t.names[x]? = t.names[c]? then some i else t.read? x := by
  obtain ⟨j, hj⟩ := Option.ne_none_iff_exists'.mp hc
  have hlt := h.handle_lt hj
  simp only [CellTable.read?, CellTable.step, hj]
  cases hx : t.names[x]? with
  | none => simp
  | some k =>
    by_cases hk : k = j
    · simp [hk, Store.read?_write, hlt]
    · simp [hk, Store.read?_write]

theorem Follows.put (h : t.Follows past) (c : String) (i : Int) :
    (t.step (.put c i)).Follows (.put c i :: past) := by
  have hnames : (t.step (.put c i)).names = t.names := by
    simp only [CellTable.step]
    cases t.names[c]? <;> rfl
  have hsize : (t.step (.put c i)).store.size = t.store.size := by
    simp only [CellTable.step]
    cases t.names[c]? <;> simp
  have horigin : ∀ x, origin? (.put c i :: past) x = origin? past x := fun _ => rfl
  refine ⟨fun x => ?_, fun {x j} hx => ?_, fun x z => ?_, fun x => ?_⟩
  · rw [hnames, horigin]; exact h.live_iff x
  · rw [hnames] at hx
    rw [hsize]
    exact h.handle_lt hx
  · rw [hnames, horigin, horigin]; exact h.alias_iff x z
  · have hread := h.read?_eq x
    rw [CellHistory.read?, horigin]
    by_cases hc : t.names[c]? = none
    · have hstep : t.step (.put c i) = t := by simp [CellTable.step, hc]
      rw [hstep, hread, CellHistory.read?]
      simp [content?, (h.live_iff c).mp hc]
    · rw [t.read?_put h hc, hread, CellHistory.read?]
      cases ho : origin? past x with
      | none =>
        have hne : t.names[x]? ≠ t.names[c]? := by
          intro heq
          rw [(h.live_iff x).mpr ho] at heq
          exact hc heq.symm
        simp [hne]
      | some k => simp [content?, h.alias_iff x c, ho, eq_comm]

/-- **The step lemma.** -/
theorem Follows.step (h : t.Follows past) (s : CellStep) : (t.step s).Follows (s :: past) := by
  cases s with
  | new i y => exact h.new i y
  | share c y => exact h.share c y
  | put c i => exact h.put c i
  | get _ | same _ _ | describe _ => exact ⟨h.live_iff, h.handle_lt, h.alias_iff, h.read?_eq⟩

/-- The table after the steps of a script. -/
def after (t : CellTable) (script : List CellStep) : CellTable := script.foldl step t

/-- **The run lemma.** -/
theorem Follows.after (h : t.Follows past) (script : List CellStep) :
    (t.after script).Follows (script.reverse ++ past) := by
  induction script generalizing t past with
  | nil => exact h
  | cons s script ih =>
    rw [List.reverse_cons, List.append_assoc]
    exact ih (h.step s)

/-- The answer to a step is in the log at the place that the step has in the
script. -/
theorem getElem?_run (t : CellTable) (script : List CellStep) (s : CellStep)
    (rest : List CellStep) :
    (t.run (script ++ s :: rest))[script.length]? =
      some (((t.after script).step s).answer s) := by
  induction script generalizing t with
  | nil => rfl
  | cons s' script ih => exact ih (t.step s')

/-! ## 3. What is answered, told from the history -/

theorem Follows.contains_iff (h : t.Follows past) (x : String) :
    t.names.contains x ↔ origin? past x ≠ none := by
  rw [ne_eq, ← h.live_iff]
  simp

theorem Follows.answer_same (h : t.Follows past) {x y : String} (hx : t.names.contains x)
    (hy : t.names.contains y) :
    t.answer (.same x y) = .flag (decide (origin? past x = origin? past y)) := by
  have halias := h.alias_iff x y
  rw [h.contains_iff, ne_eq, ← h.live_iff] at hx hy
  obtain ⟨i, hi⟩ := Option.ne_none_iff_exists'.mp hx
  obtain ⟨j, hj⟩ := Option.ne_none_iff_exists'.mp hy
  rw [hi, hj] at halias
  simp only [answer, same?, hi, hj, Option.bind_some, Option.map_some, ← halias,
    Option.some.injEq]
  rfl

theorem Follows.answer_get (h : t.Follows past) {x : String} (hx : t.names.contains x) :
    ∃ k i, origin? past x = some k ∧ content? past k = some i ∧
      t.answer (.get x) = .content i := by
  obtain ⟨k, hk⟩ := Option.ne_none_iff_exists'.mp ((h.contains_iff x).mp hx)
  obtain ⟨i, hi⟩ := Option.isSome_iff_exists.mp (isSome_content? hk)
  refine ⟨k, i, hk, hi, ?_⟩
  simp [answer, h.read?_eq, CellHistory.read?, hk, hi]

/-- One write, and what is read through every name after it. -/
theorem Follows.answer_get_put (h : t.Follows past) {c : String} (hc : t.names.contains c) (i : Int)
    {x : String} (hx : t.names.contains x) :
    (t.step (.put c i)).answer (.get x) =
      if t.answer (.same x c) = .flag true then .content i else t.answer (.get x) := by
  have hlive : t.names[c]? ≠ none := by simpa using hc
  have hsame : t.answer (.same x c) = .flag true ↔ t.names[x]? = t.names[c]? := by
    rw [h.answer_same hx hc, h.alias_iff]
    simp
  have hread := t.read?_put h hlive i x
  by_cases hxc : t.names[x]? = t.names[c]?
  · rw [if_pos hxc] at hread
    rw [if_pos (hsame.mpr hxc), answer, hread]
  · rw [if_neg hxc] at hread
    rw [if_neg fun heq => hxc (hsame.mp heq), answer, hread]
    rfl

theorem Follows.equivalence (h : t.Follows past) :
    Equivalence fun x y : { x : String // t.names.contains x } =>
      t.answer (.same x y) = .flag true := by
  have hiff : ∀ x y : { x : String // t.names.contains x },
      t.answer (.same x y) = .flag true ↔ origin? past x = origin? past y := by
    intro x y
    rw [h.answer_same x.2 y.2]
    simp
  refine ⟨fun x => ?_, fun {x y} hxy => ?_, fun {x y z} hxy hyz => ?_⟩
  · rw [hiff]
  · rw [hiff] at hxy ⊢
    exact hxy.symm
  · rw [hiff] at hxy hyz ⊢
    exact hxy.trans hyz

end CellTable

/-- **Names alias as the script says.** At any point of a script on cells, after
the steps `script` and whatever comes next,

* the answer to the next step is that of the table after these steps;
* a name stands for a cell if it can be traced to the step that made one, and
  two such names are the same cell exactly if they are traced to one step;
* what is read through a name is what was last put into the cell, through
  whichever name, since the step that made it, or what it was made with;
* a write is read through the names that are the same cell as the one written
  through, and through all others is read what was read before;
* being the same cell is an equivalence relation on the names. -/
theorem names_alias_cells (script : List CellStep) :
    let t := CellTable.empty.after script
    let past : CellHistory := script.reverse
    (∀ (s : CellStep) (rest : List CellStep),
      (CellTable.empty.run (script ++ s :: rest))[script.length]? =
        some ((t.step s).answer s)) ∧
    (∀ x : String, t.names.contains x ↔ past.origin? x ≠ none) ∧
    (∀ x y : String, t.names.contains x → t.names.contains y →
      t.answer (.same x y) = .flag (decide (past.origin? x = past.origin? y))) ∧
    (∀ x : String, t.names.contains x → ∃ k i, past.origin? x = some k ∧
      past.content? k = some i ∧ t.answer (.get x) = .content i) ∧
    (∀ (c : String) (i : Int), t.names.contains c → ∀ x : String, t.names.contains x →
      (t.step (.put c i)).answer (.get x) =
        if t.answer (.same x c) = .flag true then .content i else t.answer (.get x)) ∧
    Equivalence fun x y : { x : String // t.names.contains x } =>
      t.answer (.same x y) = .flag true := by
  intro t past
  have h : t.Follows past := by
    have hafter := CellTable.follows_empty.after script
    rwa [List.append_nil] at hafter
  refine ⟨CellTable.empty.getElem?_run script, h.contains_iff, fun x y => h.answer_same,
    fun x => h.answer_get, fun c i hc x hx => h.answer_get_put hc i hx, h.equivalence⟩

/-- Three names for one cell, of which the first is then used for another. -/
def reusedName : List CellStep :=
  [.new 1 "a", .share "a" "b", .share "b" "c", .new 2 "a", .put "b" 5]

/-- The name that is used again leaves its cell to the other two. They are still
one cell, and what is put there through one is not read through the name
that left. -/
theorem names_alias_cells_reusedName :
    let t := CellTable.empty.after reusedName
    t.names.contains "a" ∧ t.names.contains "b" ∧ t.names.contains "c" ∧
    t.answer (.same "b" "c") = .flag true ∧ t.answer (.same "a" "b") = .flag false ∧
    (t.step (.put "c" 7)).answer (.get "b") = .content 7 ∧
    (t.step (.put "c" 7)).answer (.get "a") = .content 2 := by
  intro t
  obtain ⟨-, -, hsame, -, hput, -⟩ := names_alias_cells reusedName
  have ha : t.names.contains "a" := by decide
  have hb : t.names.contains "b" := by decide
  have hc : t.names.contains "c" := by decide
  refine ⟨ha, hb, hc, ?_, ?_, ?_, ?_⟩
  · exact (hsame "b" "c" hb hc).trans (by decide)
  · exact (hsame "a" "b" ha hb).trans (by decide)
  · exact (hput "c" 7 hc "b" hb).trans (by decide)
  · exact (hput "c" 7 hc "a" ha).trans (by decide)

end ScopeChain

/-
ScopeChain.Proofs.DebugText — a value's debug text tells what the value
is.

Each part of the debug text is shown with a reader: `Number.ofChars` for
numbers, `Quoted.unescape` for one character of a quoted text. A reader
that gives back what was written is the shortest way to say that nothing
else is written the same. The readers ask for no more than they need, so
the text is also known to end where it ends, whatever comes after it
(`debugChars_append_inj`).

The one thing that the text does not tell is which NaN a NaN is. Equality
does not tell it either, and knows no NaN; and it takes the two zeros for
one, which the text does not. Apart from these two exceptions the texts
are equal exactly if the values are.
-/
import ScopeChain.Proofs.Decimals
import ScopeChain.Value.Text

namespace ScopeChain

/-! ## 1. Numbers -/

namespace Number

/-- The number that a text without a sign denotes, under a given sign. All NaNs
are read as one. -/
def ofUnsigned (negative : Bool) (cs : List Char) : Number :=
  if cs = ['N', 'a', 'N'] then ofParts negative (infinity + 1)
  else if cs = ['i', 'n', 'f'] then ofParts negative infinity
  else ofParts negative (Decimal.ofChars cs).magnitude

/-- The number that a text denotes. -/
def ofChars (cs : List Char) : Number :=
  if cs.head? = some '-' then ofUnsigned true cs.tail else ofUnsigned false cs

theorem chars_of_isNaN {x : Number} (h : x.isNaN = true) : x.chars = ['N', 'a', 'N'] := by
  unfold chars
  exact if_pos h

theorem isNaN_of_zero {x : Number} (h : x.magnitude = 0) : x.isNaN = false := by
  rw [isNaN, h]
  decide

theorem isNaN_ofChars : (ofChars ['N', 'a', 'N']).isNaN = true := by decide

/-- A sign is read as one. -/
theorem ofChars_signed {x : Number} {c : Char} (cs : List Char) (hc : c ≠ '-') :
    ofChars (x.signChars ++ c :: cs) = ofUnsigned x.negative (c :: cs) := by
  unfold ofChars signChars
  cases x.negative with
  | true => simp only [if_true, List.cons_append, List.nil_append, List.head?_cons, List.tail_cons]
  | false =>
    have hhead : ¬ (c :: cs).head? = some '-' := fun h => hc (Option.some.inj h)
    simp only [Bool.false_eq_true, if_false, List.nil_append, hhead]

/-- **The text of a number that is no NaN reads back**, to the bit. -/
theorem ofChars_chars {x : Number} (h : x.isNaN = false) : ofChars x.chars = x := by
  unfold chars
  simp only [h, Bool.false_eq_true, if_false]
  cases hinf : x.isInfinite with
  | true =>
    rw [if_pos rfl, ofChars_signed _ (by decide)]
    unfold ofUnsigned
    rw [if_neg (by decide), if_pos rfl, ← magnitude_of_isInfinite hinf]
    exact ofParts_parts x
  | false =>
    obtain ⟨c, cs, hchars, hdigit⟩ := (Decimal.shortest x.magnitude).chars_eq_cons
    have hne : ∀ d : Char, d.isDigit = false → c ≠ d := by
      rintro d hd rfl
      rw [hd] at hdigit
      cases hdigit
    have hmag := Decimal.magnitude_ofChars_chars (Decimal.shortest x.magnitude)
    rw [hchars, Decimal.magnitude_shortest (lt_infinity h hinf)] at hmag
    simp only [Bool.false_eq_true, if_false]
    rw [hchars, ofChars_signed _ (hne '-' rfl)]
    unfold ofUnsigned
    rw [if_neg fun hnan => hne 'N' rfl (List.cons.inj hnan).1,
      if_neg fun hi => hne 'i' rfl (List.cons.inj hi).1, hmag]
    exact ofParts_parts x

/-- Numbers are written alike if they are the same or both NaNs. -/
theorem chars_eq_iff {x y : Number} :
    x.chars = y.chars ↔ x = y ∨ x.isNaN = true ∧ y.isNaN = true := by
  have hread : ∀ {x y : Number}, x.isNaN = true → y.isNaN = false → x.chars ≠ y.chars := by
    intro x y hx hy heq
    have hback := ofChars_chars hy
    rw [← heq, chars_of_isNaN hx] at hback
    rw [← hback, isNaN_ofChars] at hy
    cases hy
  constructor
  · intro h
    cases hx : x.isNaN <;> cases hy : y.isNaN
    · exact .inl (by rw [← ofChars_chars hx, h, ofChars_chars hy])
    · exact absurd h.symm (hread hy hx)
    · exact absurd h (hread hx hy)
    · exact .inr ⟨rfl, rfl⟩
  · rintro (rfl | ⟨hx, hy⟩)
    · rfl
    · rw [chars_of_isNaN hx, chars_of_isNaN hy]

/-- A finite number is written in digits, with a sign before them and a point
among them at most. -/
theorem mem_chars_of_lt {x : Number} (h : x.magnitude < infinity) {c : Char} (hc : c ∈ x.chars) :
    c.isDigit ∨ c = '.' ∨ c = '-' := by
  have hnan : x.isNaN = false := decide_eq_false (by omega)
  have hinf : x.isInfinite = false := by
    rw [isInfinite, beq_eq_false_iff_ne]
    omega
  unfold chars at hc
  simp only [hnan, hinf, Bool.false_eq_true, if_false] at hc
  rcases List.mem_append.mp hc with hc | hc
  · unfold signChars at hc
    split at hc
    · exact .inr (.inr (List.mem_singleton.mp hc))
    · cases hc
  · exact (Decimal.mem_chars hc).imp_right .inl

theorem paren_not_mem_chars (x : Number) : ')' ∉ x.chars := by
  intro hc
  cases hnan : x.isNaN with
  | true =>
    rw [chars_of_isNaN hnan] at hc
    revert hc
    decide
  | false =>
    cases hinf : x.isInfinite with
    | true =>
      unfold chars signChars at hc
      simp only [hnan, hinf, Bool.false_eq_true, if_false, if_true] at hc
      cases x.negative <;> simp at hc
    | false =>
      have hmem := mem_chars_of_lt (lt_infinity hnan hinf) hc
      revert hmem
      decide

end Number

/-! ## 2. Quoted text -/

namespace Quoted

/-- The value of a hexadecimal digit. -/
def hexValue (c : Char) : Nat := if c.isDigit then c.toNat - 48 else c.toNat - 87

/-- The number that hexadecimal digits denote. -/
def ofHexChars (cs : List Char) : Nat := cs.foldl (fun n c => 16 * n + hexValue c) 0

/-- The character that is spelled by what follows a backslash, and the rest. -/
def unescapeAfter : List Char → Option (Char × List Char)
  | [] => none
  | c :: rest =>
    if c = 't' then some ('\t', rest)
    else if c = 'r' then some ('\r', rest)
    else if c = 'n' then some ('\n', rest)
    else if c = '0' then some ('\x00', rest)
    else if c = 'u' then
      some (Char.ofNat (ofHexChars (rest.tail.takeWhile (· ≠ '\x7d'))),
        (rest.dropWhile (· ≠ '\x7d')).tail)
    else some (c, rest)

/-- The character that a quoted text begins with, and the rest; nothing at the
closing quote. -/
def unescape : List Char → Option (Char × List Char)
  | [] => none
  | c :: rest =>
    if c = '"' then none
    else if c = '\\' then unescapeAfter rest
    else some (c, rest)

theorem hexValue_digitChar {k : Nat} (hk : k < 16) : hexValue (Nat.digitChar k) = k := by
  have hall : ∀ k < 16, hexValue (Nat.digitChar k) = k := by decide
  exact hall k hk

theorem ofHexChars_concat (cs : List Char) (c : Char) :
    ofHexChars (cs ++ [c]) = 16 * ofHexChars cs + hexValue c := by
  rw [ofHexChars, List.foldl_append]
  rfl

/-- Hexadecimal digits read back. -/
theorem ofHexChars_toDigits (n : Nat) : ofHexChars (Nat.toDigits 16 n) = n := by
  induction n using Nat.strong_induction_on with
  | _ n ih =>
    rw [Nat.toDigits_eq_if (by decide)]
    split
    · next hlt =>
      rw [← List.nil_append [Nat.digitChar n], ofHexChars_concat, hexValue_digitChar hlt]
      exact Nat.zero_add n
    · next hge =>
      rw [ofHexChars_concat, ih _ (by omega), hexValue_digitChar (Nat.mod_lt _ (by decide))]
      exact Nat.div_add_mod n 16

/-- No hexadecimal digit is a brace. -/
theorem ne_brace_of_mem_toDigits (n : Nat) : ∀ c ∈ Nat.toDigits 16 n, c ≠ '\x7d' := by
  induction n using Nat.strong_induction_on with
  | _ n ih =>
    rw [Nat.toDigits_eq_if (by decide)]
    intro c hc
    split at hc
    · rw [List.mem_singleton.mp hc]
      exact Nat.digitChar_ne _ (by decide)
    · rcases List.mem_append.mp hc with hc | hc
      · exact ih _ (by omega) c hc
      · rw [List.mem_singleton.mp hc]
        exact Nat.digitChar_ne _ (by decide)

/-- A code point in braces is read up to the brace that closes it. -/
theorem unescapeAfter_codePoint (c : Char) (rest : List Char) :
    unescapeAfter ('u' :: '\x7b' :: (Nat.toDigits 16 c.toNat ++ '\x7d' :: rest)) =
      some (c, rest) := by
  have hdigits : ∀ d ∈ Nat.toDigits 16 c.toNat, decide (d ≠ '\x7d') = true := fun d hd =>
    decide_eq_true (ne_brace_of_mem_toDigits _ d hd)
  have htake : (Nat.toDigits 16 c.toNat ++ '\x7d' :: rest).takeWhile (· ≠ '\x7d') =
      Nat.toDigits 16 c.toNat := by
    rw [List.takeWhile_append_of_pos hdigits]
    simp
  have hdrop : (Nat.toDigits 16 c.toNat ++ '\x7d' :: rest).dropWhile (· ≠ '\x7d') =
      '\x7d' :: rest := by
    rw [List.dropWhile_append_of_pos hdigits]
    simp
  have hbrace : ('\x7b' :: (Nat.toDigits 16 c.toNat ++ '\x7d' :: rest)).dropWhile (· ≠ '\x7d') =
      '\x7d' :: rest := by
    rw [List.dropWhile_cons_of_pos (by decide), hdrop]
  unfold unescapeAfter
  simp only [Char.reduceEq, if_false, if_true, List.tail_cons, htake, hbrace,
    ofHexChars_toDigits, Char.ofNat_toNat]

/-- **Each character reads back**, whatever comes after it. -/
theorem unescape_escape (c : Char) (rest : List Char) :
    unescape (escape c ++ rest) = some (c, rest) := by
  by_cases hquote : c = '"'
  · subst hquote; rfl
  by_cases hslash : c = '\\'
  · subst hslash; rfl
  by_cases htab : c = '\t'
  · subst htab; rfl
  by_cases hreturn : c = '\r'
  · subst hreturn; rfl
  by_cases hline : c = '\n'
  · subst hline; rfl
  by_cases hnul : c = '\x00'
  · subst hnul; rfl
  unfold escape
  simp only [hquote, hslash, htab, hreturn, hline, hnul, or_self, if_false]
  split
  · simp only [unescape, hquote, hslash, if_false, List.cons_append, List.nil_append]
  · rw [List.cons_append, List.cons_append, List.cons_append, List.append_assoc]
    exact unescapeAfter_codePoint c rest

/-- The closing quote is none of the characters. -/
theorem unescape_quote (rest : List Char) : unescape ('"' :: rest) = none := rfl

/-- **A quoted text ends where it ends**: different texts are written
differently, whatever comes after them. -/
theorem escape_append_inj {s t rest rest' : List Char}
    (h : s.flatMap escape ++ '"' :: rest = t.flatMap escape ++ '"' :: rest') :
    s = t ∧ rest = rest' := by
  induction s generalizing t with
  | nil =>
    cases t with
    | nil => exact ⟨rfl, (List.cons.inj h).2⟩
    | cons d t =>
      rw [List.flatMap_nil, List.nil_append, List.flatMap_cons, List.append_assoc] at h
      have hread := congrArg unescape h
      rw [unescape_quote, unescape_escape] at hread
      cases hread
  | cons c s ih =>
    rw [List.flatMap_cons, List.append_assoc] at h
    have hread := congrArg unescape h
    rw [unescape_escape] at hread
    cases t with
    | nil =>
      rw [List.flatMap_nil, List.nil_append, unescape_quote] at hread
      cases hread
    | cons d t =>
      rw [List.flatMap_cons, List.append_assoc, unescape_escape] at hread
      obtain ⟨rfl, hrest⟩ := Prod.mk.inj (Option.some.inj hread)
      obtain ⟨rfl, rfl⟩ := ih hrest
      exact ⟨rfl, rfl⟩

theorem chars_append_inj {s t rest rest' : List Char}
    (h : chars s ++ rest = chars t ++ rest') : s = t ∧ rest = rest' := by
  unfold chars at h
  rw [List.cons_append, List.cons_append, List.append_assoc, List.append_assoc] at h
  exact escape_append_inj (List.cons.inj h).2

end Quoted

/-! ## 3. Values -/

namespace Value

/-- The value is a NaN. -/
def isNaN : Value → Bool
  | number x => x.isNaN
  | _ => false

/-- The value is a zero of either sign. -/
def isZero : Value → Bool
  | number x => x.magnitude == 0
  | _ => false

/-- A character that is in neither of two texts ends both at the same place.
`List.append_cons_inj_of_notMem` would ask that it does not occur later. -/
theorem append_cons_inj {c : Char} {l l' rest rest' : List Char} (hl : c ∉ l) (hl' : c ∉ l')
    (h : l ++ c :: rest = l' ++ c :: rest') : l = l' ∧ rest = rest' := by
  induction l generalizing l' with
  | nil =>
    cases l' with
    | nil => exact ⟨rfl, (List.cons.inj h).2⟩
    | cons d l' =>
      obtain ⟨rfl, -⟩ := List.cons.inj h
      exact absurd List.mem_cons_self hl'
  | cons d l ih =>
    cases l' with
    | nil =>
      obtain ⟨rfl, -⟩ := List.cons.inj h
      exact absurd List.mem_cons_self hl
    | cons d' l' =>
      obtain ⟨rfl, hrest⟩ := List.cons.inj h
      rw [List.mem_cons, not_or] at hl hl'
      obtain ⟨rfl, rfl⟩ := ih hl.2 hl'.2 hrest
      exact ⟨rfl, rfl⟩

/-- **A debug text ends where it ends**: whatever comes after them, texts are
written alike only by equal values or by NaNs. -/
theorem debugChars_append_inj {a b : Value} {rest rest' : List Char}
    (h : a.debugChars ++ rest = b.debugChars ++ rest') :
    (a = b ∨ a.isNaN ∧ b.isNaN) ∧ rest = rest' := by
  unfold debugChars at h
  cases a with
  | nil =>
    cases b with
    | nil => exact ⟨.inl rfl, by simpa using h⟩
    | boolean b => cases b <;> simp at h
    | number y => simp at h
    | text t => simp at h
  | boolean a =>
    cases b with
    | boolean b => cases a <;> cases b <;> simp_all
    | nil => cases a <;> simp at h
    | number y => cases a <;> simp at h
    | text t => cases a <;> simp at h
  | number x =>
    cases b with
    | number y =>
      simp only [List.append_assoc, List.append_cancel_left_eq, List.cons_append,
        List.nil_append] at h
      obtain ⟨hchars, hrest⟩ :=
        append_cons_inj x.paren_not_mem_chars y.paren_not_mem_chars h
      exact ⟨(Number.chars_eq_iff.mp hchars).imp_left (congrArg number), hrest⟩
    | nil => simp at h
    | boolean b => cases b <;> simp at h
    | text t => simp at h
  | text s =>
    cases b with
    | text t =>
      simp only [List.append_assoc, List.append_cancel_left_eq] at h
      obtain ⟨hst, hrest⟩ := Quoted.chars_append_inj h
      exact ⟨.inl (congrArg text (String.toList_inj.mp hst)), by simpa using hrest⟩
    | nil => simp at h
    | boolean b => cases b <;> simp at h
    | number y => simp at h

theorem exists_number_of_isNaN {a : Value} (h : a.isNaN) : ∃ x, a = number x ∧ x.isNaN = true := by
  cases a with
  | number x => exact ⟨x, rfl, h⟩
  | _ => cases h

/-- Debug texts are the same for the same value and for any two NaNs. -/
theorem debug_eq_iff (a b : Value) : a.debug = b.debug ↔ a = b ∨ a.isNaN ∧ b.isNaN := by
  unfold debug
  rw [String.ofList_inj]
  constructor
  · intro h
    have hends : a.debugChars ++ [] = b.debugChars ++ [] := by rw [h]
    exact (debugChars_append_inj hends).1
  · rintro (rfl | ⟨ha, hb⟩)
    · rfl
    · obtain ⟨x, rfl, hx⟩ := exists_number_of_isNaN ha
      obtain ⟨y, rfl, hy⟩ := exists_number_of_isNaN hb
      unfold debugChars
      dsimp only
      rw [Number.chars_of_isNaN hx, Number.chars_of_isNaN hy]

/-- Values are equal if they are the same and no NaN, or if both are zeros. -/
theorem equals_iff (a b : Value) :
    a.equals b ↔ a = b ∧ ¬ a.isNaN ∨ a.isZero ∧ b.isZero := by
  cases a with
  | number x =>
    cases b with
    | number y =>
      simp only [equals, isNaN, isZero, Number.equals_iff, number.injEq, beq_iff_eq,
        Bool.not_eq_true]
      constructor
      · rintro ⟨hx, -, h | h⟩
        · exact .inl ⟨h, hx⟩
        · exact .inr h
      · rintro (⟨rfl, hx⟩ | ⟨hx, hy⟩)
        · exact ⟨hx, hx, .inl rfl⟩
        · exact ⟨Number.isNaN_of_zero hx, Number.isNaN_of_zero hy, .inr ⟨hx, hy⟩⟩
    | _ => simp [equals, isZero]
  | _ => cases b <;> simp [equals, isNaN, isZero]

theorem not_isNaN_of_isZero {a : Value} (h : a.isZero) : ¬ a.isNaN := by
  cases a with
  | number x =>
    have hzero : x.magnitude = 0 := by simpa [isZero] using h
    show ¬ x.isNaN = true
    rw [Number.isNaN_of_zero hzero]
    exact Bool.false_ne_true
  | _ => cases h

theorem equals_symm {a b : Value} (h : a.equals b) : b.equals a := by
  rw [equals_iff] at h ⊢
  rcases h with ⟨rfl, h⟩ | h
  · exact .inl ⟨rfl, h⟩
  · exact .inr h.symm

theorem equals_trans {a b c : Value} (hab : a.equals b) (hbc : b.equals c) : a.equals c := by
  rw [equals_iff] at hab hbc ⊢
  rcases hab with ⟨rfl, -⟩ | ⟨ha, hb⟩
  · exact hbc
  · rcases hbc with ⟨rfl, -⟩ | ⟨-, hc⟩
    · exact .inr ⟨ha, hb⟩
    · exact .inr ⟨ha, hc⟩

theorem equals_self_iff (a : Value) : a.equals a ↔ ¬ a.isNaN := by
  rw [equals_iff]
  constructor
  · rintro (⟨-, h⟩ | ⟨h, -⟩)
    · exact h
    · exact not_isNaN_of_isZero h
  · exact fun h => .inl ⟨rfl, h⟩

end Value

/-- **Equality and the debug text determine each other.** Two values are equal
exactly if they have the same debug text and are no NaN, or if both are
zeros. More is known of either side:

* only the same value has the same debug text, but for NaNs, which are all
  written alike; so no content of a text can pass for another;
* equality is symmetric and transitive, and reflexive but for NaNs; on
  numbers it is the equality of extended reals;
* a number that is no NaN reads back from its text, to the bit; a finite
  one is written in digits, with a point and a sign but no exponent, and in
  no more significant digits than any decimal that reads back as it. -/
theorem equality_is_debug :
    (∀ a b : Value, a.equals b ↔ a.debug = b.debug ∧ ¬ a.isNaN ∨ a.isZero ∧ b.isZero) ∧
    (∀ a b : Value, a.debug = b.debug ↔ a = b ∨ a.isNaN ∧ b.isNaN) ∧
    (∀ (s : String) (b : Value), (Value.text s).debug = b.debug ↔ b = .text s) ∧
    (∀ a b : Value, a.equals b → b.equals a) ∧
    (∀ a b c : Value, a.equals b → b.equals c → a.equals c) ∧
    (∀ a : Value, a.equals a ↔ ¬ a.isNaN) ∧
    (∀ x y : Number, x.equals y ↔ ∃ v, x.value? = some v ∧ y.value? = some v) ∧
    (∀ x : Number, x.isNaN = true → x.chars = ['N', 'a', 'N']) ∧
    (∀ x : Number, x.isNaN = false → Number.ofChars x.chars = x) ∧
    (∀ x : Number, x.magnitude < Number.infinity →
      (∀ c ∈ x.chars, c.isDigit ∨ c = '.' ∨ c = '-') ∧
      ∀ (d : Decimal) (n : Nat), d.magnitude = x.magnitude → d.Within n →
        (Decimal.shortest x.magnitude).Within n) := by
  refine ⟨fun a b => ?_, Value.debug_eq_iff, fun s b => ?_, fun _ _ => Value.equals_symm,
    fun _ _ _ => Value.equals_trans, Value.equals_self_iff, Number.equals_iff_value?,
    fun _ => Number.chars_of_isNaN, fun _ => Number.ofChars_chars, fun x hx =>
    ⟨fun _ => Number.mem_chars_of_lt hx, fun _ _ => Decimal.shortest_within hx⟩⟩
  · rw [Value.equals_iff, Value.debug_eq_iff]
    constructor
    · rintro (⟨rfl, ha⟩ | h)
      · exact .inl ⟨.inl rfl, ha⟩
      · exact .inr h
    · rintro (⟨rfl | ⟨hnan, -⟩, ha⟩ | h)
      · exact .inl ⟨rfl, ha⟩
      · exact absurd hnan ha
      · exact .inr h
  · rw [Value.debug_eq_iff]
    constructor
    · rintro (rfl | ⟨h, -⟩)
      · rfl
      · cases h
    · rintro rfl
      exact .inl rfl

/-- The two zeros are equal and written differently; NaNs are written alike and
not equal; a quote cannot close a text. -/
theorem equality_is_debug_zero_nan_quote :
    let zero : Value := .number ⟨0⟩
    let minusZero : Value := .number (Number.ofParts true 0)
    let nan : Value := .number (Number.ofParts false (Number.infinity + 1))
    let otherNaN : Value := .number (Number.ofParts true (Number.infinity + 2))
    zero.equals minusZero ∧ zero.debug ≠ minusZero.debug ∧
    nan.debug = otherNaN.debug ∧ ¬ nan.equals nan ∧
    (Value.text "\")").debug ≠ (Value.text "\\\")").debug := by
  intro zero minusZero nan otherNaN
  obtain ⟨hequals, hdebug, htext, -, -, hself, -⟩ := equality_is_debug
  refine ⟨(hequals _ _).mpr (.inr ⟨by decide, by decide⟩), fun h => ?_,
    (hdebug _ _).mpr (.inr ⟨by decide, by decide⟩), fun h => (hself nan).mp h (by decide),
    fun h => ?_⟩
  · rcases (hdebug _ _).mp h with h | ⟨h, -⟩
    · exact absurd h (by decide)
    · exact absurd h (by decide)
  · exact absurd ((htext _ _).mp h) (by decide)

end ScopeChain

/-
ScopeChain.Proofs.NumberText — what the text of a finite number looks
like, and that nothing is lost in it.

`Numeral` is the grammar: a sign, digits without superfluous zeros in
front, and perhaps a point and digits without superfluous zeros behind.
There is no exponent in it. Every decimal is written as a numeral of its
value (`Decimal.numeral`), so the text of a number denotes its shortest
decimal, and the theorem about that decimal becomes one about the text.

What takes an argument is where the point stands. That an integer is
written without one is not a matter of rounding but of the search: the
exact value lies on the grid of the integers, so the search finds a point
on that grid or on a coarser one (`dvd_shortest`). For a number that is no
integer the point is needed because no integer rounds to it
(`integral_nearest`).
-/
import Mathlib.Data.List.Basic
import ScopeChain.Proofs.Decimals
import ScopeChain.Proofs.TiesToEven
import ScopeChain.Value.Text

namespace ScopeChain

namespace Decimal

open Number

/-! ## 1. The value of a decimal -/

/-- The rational that a decimal is. -/
def value (d : Decimal) : ℚ := d.digits / 10 ^ d.places

theorem value_nonneg (d : Decimal) : 0 ≤ d.value :=
  div_nonneg (Nat.cast_nonneg _) (pow_nonneg (by norm_num) _)

theorem value_eq_iff {c d : Decimal} :
    c.value = d.value ↔ c.digits * 10 ^ d.places = d.digits * 10 ^ c.places := by
  have hpow : ∀ k, (10 : ℚ) ^ k ≠ 0 := fun k => pow_ne_zero k (by norm_num)
  rw [value, value, div_eq_div_iff (hpow _) (hpow _)]
  exact_mod_cast Iff.rfl

/-- Reading a decimal is rounding its value. -/
theorem magnitude_eq_iff_closest {d : Decimal} {m : Nat} :
    d.magnitude = m ↔ Closest d.value m := by
  have hcast : (d.digits / (10 ^ d.places : Nat) : ℚ) = d.value := by
    rw [value, Nat.cast_pow, Nat.cast_ofNat]
  rw [magnitude_eq, nearest_eq_iff_closest _ (pow_ten_pos _), hcast]

/-- The exact decimal has the value of the magnitude. The number of binary places is
a variable so that nobody tries to compute the power. -/
theorem value_exact (m : Nat) : (exact m).value = absolute m := by
  obtain ⟨places, hplaces⟩ : ∃ places, places = 1074 := ⟨_, rfl⟩
  have hscale := scale_exact (significand m) (exponent m) places
  unfold value exact absolute units
  dsimp only
  rw [← hplaces, div_eq_div_iff (pow_ne_zero _ (by norm_num)) (pow_ne_zero _ two_ne_zero)]
  exact_mod_cast hscale

/-- A decimal is an integer if it has nothing but zeros behind the point. -/
theorem value_eq_natCast_iff {d : Decimal} {n : Nat} :
    d.value = n ↔ d.digits = n * 10 ^ d.places := by
  rw [value, div_eq_iff (pow_ne_zero _ (by norm_num))]
  exact_mod_cast Iff.rfl

end Decimal

/-! ## 2. Numerals -/

/-- A number in plain notation, without superfluous zeros. -/
@[ext]
structure Numeral where
  negative : Bool
  whole : List Char
  after : List Char
  whole_ne_nil : whole ≠ []
  isDigit : ∀ c ∈ whole ++ after, c.isDigit
  no_leading_zero : whole.head? = some '0' → whole = ['0']
  no_trailing_zero : after.getLast? ≠ some '0'

namespace Numeral

/-- How the sign is written. -/
def sign (t : Numeral) : List Char := if t.negative then ['-'] else []

/-- How the digits behind the point are written: the point is there only if there are
any. -/
def fraction (t : Numeral) : List Char := if t.after = [] then [] else '.' :: t.after

/-- How a numeral is written. -/
def text (t : Numeral) : String := String.ofList (t.sign ++ (t.whole ++ t.fraction))

/-- The rational that a numeral denotes. -/
def value (t : Numeral) : ℚ :=
  Number.signed t.negative (Nat.ofDigitChars 10 (t.whole ++ t.after) 0 / 10 ^ t.after.length)

/-- A list of digits ends where the point stands, or where the text ends. -/
theorem append_inj_of_isDigit {ds es xs ys : List Char} (hd : ∀ c ∈ ds, c.isDigit)
    (he : ∀ c ∈ es, c.isDigit) (hx : ∀ c ∈ xs.head?, c.isDigit = false)
    (hy : ∀ c ∈ ys.head?, c.isDigit = false) (h : ds ++ xs = es ++ ys) : ds = es ∧ xs = ys := by
  have htake : ∀ {ds xs : List Char}, (∀ c ∈ ds, c.isDigit) →
      (∀ c ∈ xs.head?, c.isDigit = false) → (ds ++ xs).takeWhile Char.isDigit = ds := by
    intro ds xs hd hx
    rw [List.takeWhile_append_of_pos hd]
    cases xs with
    | nil => exact List.append_nil ds
    | cons c cs =>
      rw [List.takeWhile_cons_of_neg (by simp [hx c rfl]), List.append_nil]
  have hds : ds = es := by rw [← htake hd hx, h, htake he hy]
  subst hds
  exact ⟨rfl, List.append_cancel_left h⟩

theorem head?_fraction (t : Numeral) : ∀ c ∈ t.fraction.head?, c.isDigit = false := by
  intro c hc
  unfold fraction at hc
  split at hc
  · cases hc
  · cases hc
    rfl

theorem fraction_inj {t u : Numeral} (h : t.fraction = u.fraction) : t.after = u.after := by
  unfold fraction at h
  split at h <;> split at h
  · next ht hu => rw [ht, hu]
  · cases h
  · cases h
  · exact (List.cons.inj h).2

theorem minus_ne_head (t : Numeral) (cs : List Char) : t.whole ++ t.fraction ≠ '-' :: cs := by
  obtain ⟨c, ds, hwhole⟩ := List.exists_cons_of_ne_nil t.whole_ne_nil
  have hdigit : c.isDigit := t.isDigit c (by simp [hwhole])
  rw [hwhole]
  intro h
  rw [(List.cons.inj h).1] at hdigit
  cases hdigit

/-- **A text is the text of one numeral at most.** -/
theorem text_injective {t u : Numeral} (h : t.text = u.text) : t = u := by
  have hlist : t.sign ++ (t.whole ++ t.fraction) = u.sign ++ (u.whole ++ u.fraction) := by
    have hchars := congrArg String.toList h
    rwa [text, text, String.toList_ofList, String.toList_ofList] at hchars
  have hsign : t.negative = u.negative := by
    rw [sign, sign] at hlist
    cases ht : t.negative <;> cases hu : u.negative <;> rw [ht, hu] at hlist
    · exact (minus_ne_head t _ hlist).elim
    · exact (minus_ne_head u _ hlist.symm).elim
  rw [sign, sign, hsign, List.append_cancel_left_eq] at hlist
  obtain ⟨hwhole, hfraction⟩ := append_inj_of_isDigit
    (fun c hc => t.isDigit c (List.mem_append_left _ hc))
    (fun c hc => u.isDigit c (List.mem_append_left _ hc)) t.head?_fraction u.head?_fraction hlist
  exact Numeral.ext hsign hwhole (fraction_inj hfraction)

end Numeral

namespace Decimal

open Number

theorem head?_toDigits {n : Nat} (h : (Nat.toDigits 10 n).head? = some '0') : n = 0 := by
  induction n using Nat.strongRecOn with
  | _ n ih =>
    rcases Nat.lt_or_ge n 10 with hlt | hge
    · rw [Nat.toDigits_of_lt_base hlt, List.head?_cons, Option.some.injEq,
        Nat.digitChar_eq_zero] at h
      exact h
    · rw [Nat.toDigits_of_base_le (by decide) hge, List.head?_append_of_ne_nil _
        Nat.toDigits_ne_nil] at h
      have hquot := ih (n / 10) (by omega) h
      omega

theorem fraction_eq_nil_iff {places rest : Nat} (h : rest < 10 ^ places) :
    fraction places rest = [] ↔ rest = 0 := by
  cases places with
  | zero =>
    rw [Nat.pow_zero, Nat.lt_one_iff] at h
    exact iff_of_true rfl h
  | succ p =>
    rw [fraction]
    split
    · next hzero => exact iff_of_true rfl hzero
    · next hne => exact iff_of_false (List.cons_ne_nil _ _) hne

theorem getLast?_fraction {places rest : Nat} (h : rest < 10 ^ places) :
    (fraction places rest).getLast? ≠ some '0' := by
  induction places generalizing rest with
  | zero => simp [fraction]
  | succ p ih =>
    rw [fraction]
    split
    · simp
    · next hne =>
      have hrem : rest % Nat.pow 10 p < 10 ^ p := Nat.mod_lt _ (pow_ten_pos p)
      by_cases htail : fraction p (rest % Nat.pow 10 p) = []
      · have hzero := (fraction_eq_nil_iff hrem).mp htail
        rw [htail, List.getLast?_singleton, ne_eq, Option.some.injEq, Nat.digitChar_eq_zero]
        intro hlead
        have hsplit := Nat.div_add_mod rest (Nat.pow 10 p)
        rw [hlead, hzero] at hsplit
        exact hne hsplit.symm
      · rw [List.getLast?_cons_of_ne_nil htail]
        exact ih hrem

/-- The numeral of a decimal under a sign. -/
def numeral (negative : Bool) (d : Decimal) : Numeral where
  negative := negative
  whole := d.whole
  after := d.after
  whole_ne_nil := Nat.toDigits_ne_nil
  isDigit c hc := (List.mem_append.mp hc).elim (d.isDigit_of_mem_whole c) (d.isDigit_of_mem_after c)
  no_leading_zero h := by
    rw [whole, head?_toDigits h, Nat.toDigits_zero]
  no_trailing_zero := getLast?_fraction (Nat.mod_lt _ (pow_ten_pos _))

theorem value_numeral (negative : Bool) (d : Decimal) :
    (d.numeral negative).value = signed negative d.value := by
  have hread : (ofChars d.chars).value = d.value := value_eq_iff.mpr d.ofChars_chars
  rw [ofChars_chars_eq] at hread
  exact congrArg (signed negative) hread

theorem text_numeral (negative : Bool) (d : Decimal) :
    (d.numeral negative).text =
      String.ofList ((if negative then ['-'] else []) ++ d.chars) := by
  have hchars : d.whole ++ (d.numeral negative).fraction = d.chars := by
    rw [chars_eq]
    show d.whole ++ (if d.after = [] then [] else '.' :: d.after) = _
    split
    · exact List.append_nil _
    · rfl
  rw [← hchars]
  rfl

/-! ## 3. Where the point stands -/

theorem places_shortest (m : Nat) : (shortest m).places = (exact m).places := by
  rcases shortest_cases m with ⟨hexact, -⟩ | ⟨k, -, -, hpoint | hpoint, -⟩
  · rw [hexact]
  · rw [hpoint]
    rfl
  · rw [hpoint]
    rfl

/-- The points of a grid are points of any finer one. -/
theorem dvd_onGrid {d c : Decimal} {p g : Nat} (hp : p ≤ g) (hc : c = d.below g ∨ c = d.above g) :
    10 ^ p ∣ c.digits := by
  have hstep : 10 ^ p ∣ 10 ^ g := Nat.pow_dvd_pow 10 hp
  rcases hc with rfl | rfl
  · exact Nat.dvd_mul_left_of_dvd hstep _
  · exact Nat.dvd_add (Nat.dvd_mul_left_of_dvd hstep _) hstep

/-- **The search does not leave a grid that the exact value is on.** -/
theorem dvd_shortest {m p : Nat} (hm : m < infinity) (h : 10 ^ p ∣ (exact m).digits) :
    10 ^ p ∣ (shortest m).digits := by
  rcases Nat.eq_zero_or_pos (exact m).digits with hzero | hpos
  · rw [shortest_of_digits_zero hzero]
    exact h
  · have hbelow : (exact m).below p = exact m := by
      rw [below, Nat.div_mul_cancel h]
    have hlength : p < exactLength m :=
      (Nat.pow_lt_pow_iff_right (by decide)).mp
        (Nat.lt_of_le_of_lt (Nat.le_of_dvd hpos h) (lt_pow_length _))
    have hfinds : onGrid? m (exact m) p ≠ none := by
      rcases onGrid?_cases m (exact m) p with ⟨c, hfound, -⟩ | ⟨-, hmiss, -⟩
      · rw [hfound]
        exact Option.some_ne_none c
      · rw [hbelow] at hmiss
        exact absurd (magnitude_exact hm) hmiss
    rcases shortest_cases m with ⟨hexact, -⟩ | ⟨k, -, -, hpoint, hnone⟩
    · rw [hexact]
      exact h
    · have hcoarse : p ≤ k := Nat.le_of_not_lt fun hlt => hfinds (hnone p hlt hlength)
      exact dvd_onGrid hcoarse hpoint

theorem nearest_eq_of_value_shortest {m n : Nat} (hm : m < infinity)
    (hn : (shortest m).value = n) : nearest n 1 = m := by
  have hone : (⟨n, 0⟩ : Decimal).magnitude = (shortest m).magnitude := by
    refine magnitude_congr ?_
    rw [value_eq_natCast_iff.mp hn, Nat.pow_zero, Nat.mul_one]
  rw [← magnitude_shortest hm]
  exact hone

/-- The shortest decimal is an integer if and only if the value is. -/
theorem exists_value_shortest_iff {m : Nat} (hm : m < infinity) :
    (∃ n : Nat, (shortest m).value = n) ↔ Integral m := by
  constructor
  · rintro ⟨n, hn⟩
    rw [← nearest_eq_of_value_shortest hm hn]
    exact integral_nearest n
  · rintro ⟨n, hn⟩
    rw [← value_exact, value_eq_natCast_iff] at hn
    obtain ⟨c, hc⟩ := dvd_shortest hm (Dvd.intro_left n hn.symm)
    refine ⟨c, value_eq_natCast_iff.mpr ?_⟩
    rw [places_shortest, hc, Nat.mul_comm]

theorem after_eq_nil_iff (d : Decimal) : d.after = [] ↔ ∃ n : Nat, d.value = n := by
  rw [after, fraction_eq_nil_iff (Nat.mod_lt _ (pow_ten_pos _)), ← Nat.dvd_iff_mod_eq_zero]
  refine exists_congr fun n => ?_
  rw [value_eq_natCast_iff, Nat.mul_comm]

/-- **An integer of at most 53 binary digits, but for the largest, is written as
itself.** What is written is an integer that rounds to the same magnitude, and no
other one does. -/
theorem chars_shortest_nearest {n : Nat} (hn : n + 1 < 2 ^ 53) :
    (shortest (nearest n 1)).chars = Nat.toDigits 10 n := by
  obtain ⟨hfinite, hvalue⟩ := nearest_natCast (Nat.lt_of_succ_lt hn)
  obtain ⟨c, hc⟩ := (exists_value_shortest_iff hfinite).mpr ⟨n, hvalue⟩
  have hsame : n = c := nearest_natCast_inj hn (nearest_eq_of_value_shortest hfinite hc).symm
  have hwhole : (shortest (nearest n 1)).whole = Nat.toDigits 10 n := by
    rw [whole, value_eq_natCast_iff.mp hc, Nat.mul_div_cancel _ (pow_ten_pos _), hsame]
  rw [chars_eq, if_pos ((after_eq_nil_iff _).mpr ⟨c, hc⟩), hwhole]

end Decimal

/-! ## 4. Significant digits -/

/-- The rational is a decimal of at most `n` significant digits. -/
def OfDigits (n : Nat) (r : ℚ) : Prop := ∃ (k : Nat) (e : ℤ), k < 10 ^ n ∧ |r| = k * 10 ^ e

namespace Decimal

open Number

theorem Within.ofDigits {d : Decimal} {n : Nat} (h : d.Within n) (negative : Bool) :
    OfDigits n (signed negative d.value) := by
  obtain ⟨k, e, hk, hdigits⟩ := h
  refine ⟨k, e - d.places, hk, ?_⟩
  have hten : (10 : ℚ) ≠ 0 := by norm_num
  rw [abs_signed _ d.value_nonneg, value, hdigits, zpow_sub₀ hten, zpow_natCast, zpow_natCast,
    Nat.cast_mul, Nat.cast_pow, Nat.cast_ofNat, mul_div_assoc]

theorem exists_within_of_ofDigits {n : Nat} {r : ℚ} (h : OfDigits n r) :
    ∃ c : Decimal, c.Within n ∧ c.value = |r| := by
  obtain ⟨k, e, hk, hr⟩ := h
  rcases Int.eq_nat_or_neg e with ⟨j, rfl | rfl⟩
  · refine ⟨⟨k * 10 ^ j, 0⟩, ⟨k, j, hk, rfl⟩, ?_⟩
    rw [hr, value, zpow_natCast, pow_zero, div_one, Nat.cast_mul, Nat.cast_pow, Nat.cast_ofNat]
  · refine ⟨⟨k, j⟩, within_of_lt hk, ?_⟩
    rw [hr, value, zpow_neg, zpow_natCast, div_eq_mul_inv]

end Decimal

/-! ## 5. The text of a number -/

namespace Number

/-- The numeral that a number is written as. -/
def numeral (x : Number) : Numeral := (Decimal.shortest x.magnitude).numeral x.negative

theorem text_eq {x : Number} (hx : x.magnitude < infinity) : x.text = x.numeral.text := by
  have hnan : x.isNaN = false := not_isNaN_iff.mpr hx.le
  have hinf : x.isInfinite = false := beq_eq_false_iff_ne.mpr hx.ne
  rw [numeral, Decimal.text_numeral, text, chars, hnan, hinf]
  rfl

theorem value_numeral (x : Number) :
    x.numeral.value = signed x.negative (Decimal.shortest x.magnitude).value :=
  Decimal.value_numeral _ _

/-- Under its own sign, a numeral rounds to its number and to nothing else. -/
theorem roundsTo_value_numeral_iff {x : Number} (hx : x.magnitude < infinity) (y : Number) :
    RoundsTo x.numeral.value y ∧ y.negative = x.negative ↔ y = x := by
  have hclosest : Closest (Decimal.shortest x.magnitude).value x.magnitude :=
    Decimal.magnitude_eq_iff_closest.mp (Decimal.magnitude_shortest hx)
  rw [value_numeral]
  constructor
  · rintro ⟨hround, hsign⟩
    rw [← hsign, roundsTo_signed_iff (Decimal.value_nonneg _)] at hround
    exact ext_parts hsign (hround.unique hclosest)
  · rintro rfl
    exact ⟨(roundsTo_signed_iff (Decimal.value_nonneg _) y).mpr hclosest, rfl⟩

/-- **The text of a finite number.** It is a numeral with the sign of the number, and
with a point if and only if the number is no integer. The rational that it denotes
rounds to the number, and to no other of the sign; and no decimal of fewer
significant digits rounds to the number. -/
theorem display_shortest_numeral (x : Number) (hx : x.magnitude < infinity) :
    ∃ t : Numeral, (∀ u : Numeral, (Value.number x).display = u.text ↔ u = t) ∧
      t.negative = x.negative ∧
      (t.after = [] ↔ ∃ z : ℤ, x.toRat = z) ∧
      (∀ y : Number, RoundsTo t.value y ∧ y.negative = t.negative ↔ y = x) ∧
      (x.magnitude ≠ 0 → ∀ n r, OfDigits n r → RoundsTo r x → OfDigits n t.value) := by
  have htext : (Value.number x).display = x.numeral.text := text_eq hx
  refine ⟨x.numeral, fun u => ?_, rfl, ?_, roundsTo_value_numeral_iff hx, ?_⟩
  · rw [htext]
    constructor
    · exact fun h => (Numeral.text_injective h).symm
    · rintro rfl
      rfl
  · have hpoint := Decimal.after_eq_nil_iff (Decimal.shortest x.magnitude)
    rw [exists_toRat_eq_intCast_iff, ← Decimal.exists_value_shortest_iff hx]
    exact hpoint
  · intro hne n r hdigits hround
    obtain ⟨c, hwithin, hvalue⟩ := Decimal.exists_within_of_ofDigits hdigits
    have hclosest : Closest c.value x.magnitude := by
      rw [hvalue, ← roundsTo_signed_iff (abs_nonneg r), ← hround.eq_signed hne]
      exact hround
    rw [value_numeral]
    exact (Decimal.shortest_within hx
      (Decimal.magnitude_eq_iff_closest.mpr hclosest) hwithin).ofDigits _

/-- The number nearest to one tenth is written as one tenth. -/
theorem display_shortest_numeral_tenth :
    let tenth : Number := ⟨0x3FB999999999999A⟩
    tenth.magnitude < infinity ∧ (Value.number tenth).display = "0.1" ∧
    RoundsTo (1 / 10) tenth ∧ ¬ ∃ z : ℤ, tenth.toRat = z := by
  intro tenth
  have hfinite : tenth.magnitude < infinity := by decide +kernel
  have hdisplay : (Value.number tenth).display = "0.1" := by decide +kernel
  let u : Numeral := Decimal.numeral false ⟨1, 1⟩
  have hvalue : u.value = 1 / 10 := by
    simp [u, Decimal.value_numeral, Decimal.value, signed]
  obtain ⟨t, htext, -, hpoint, hround, -⟩ := display_shortest_numeral tenth hfinite
  have hut : u = t := (htext u).mp (hdisplay.trans (by decide +kernel))
  rw [← hut, hvalue] at hround
  refine ⟨hfinite, hdisplay, ((hround tenth).mpr rfl).1, fun hint => ?_⟩
  rw [← hut] at hpoint
  exact List.cons_ne_nil _ _ (hpoint.mpr hint)

end Number

end ScopeChain

/-
ScopeChain.Proofs.TiesToEven — `nearest` rounds to the nearest magnitude,
ties to even.

`Closest` says what that means without an algorithm: no magnitude is
closer to the rational, and if another is as close then the chosen one is
even. The two parts leave no choice (`Closest.unique`), so they
characterise `nearest` (`nearest_eq_iff_closest`). `RoundsTo` says the same
of numbers, and a sign in front changes nothing (`roundsTo_signed_iff`).

Infinity takes part in the comparison with the value that the next binade
would begin with. That is how overflow is decided: a rational rounds to
infinity from halfway between that value and the largest finite one.

Magnitudes are numbered along the line, so all of this is about steps of a
ladder. A fraction lies between `floor` and its successor, of all
magnitudes only these two can be closest to it (`dist_le`), and which of
the two it is depends on the half it lies in, which is what the remainder
of the division tells (`nearest_cases`).

The last section is about integers. The short ones have a magnitude of
their own, and the long ones round to magnitudes that have no binary
places, so integers never round to anything else (`integral_nearest`).
-/
import Mathlib.Algebra.Order.Field.Rat
import Mathlib.Algebra.Order.Ring.Abs
import Mathlib.Tactic.Linarith
import Mathlib.Tactic.Ring
import ScopeChain.Proofs.Rounding

namespace ScopeChain

namespace Number

/-! ## 1. The ladder of magnitudes -/

/-- What a significand and an exponent add up to has the value of their product.
The significand may be one too large for the binade: then the sum is the first
magnitude of the next. -/
theorem units_add {e s : Nat} (hs : s ≤ 2 ^ 53) (hfull : 0 < e → 2 ^ 52 ≤ s) :
    units (e * 2 ^ 52 + s) = s * 2 ^ e := by
  rcases Nat.lt_or_ge s (2 ^ 52) with hlow | hhigh
  · obtain rfl : e = 0 := by omega
    rw [Nat.zero_mul, Nat.zero_add, units_of_lt hlow, Nat.pow_zero, Nat.mul_one]
  · rw [units_of_le (by omega)]
    rcases Nat.lt_or_eq_of_le hs with hlt | rfl
    · have hdiv : (e * 2 ^ 52 + s) / 2 ^ 52 - 1 = e := by omega
      have hmod : 2 ^ 52 + (e * 2 ^ 52 + s) % 2 ^ 52 = s := by omega
      rw [hdiv, hmod]
    · have hdiv : (e * 2 ^ 52 + 2 ^ 53) / 2 ^ 52 - 1 = e + 1 := by omega
      have hmod : 2 ^ 52 + (e * 2 ^ 52 + 2 ^ 53) % 2 ^ 52 = 2 ^ 52 := by omega
      rw [hdiv, hmod, Nat.pow_succ 2 e]
      omega

theorem exponent_add {e s : Nat} (hs : s < 2 ^ 53) (hfull : 0 < e → 2 ^ 52 ≤ s) :
    exponent (e * 2 ^ 52 + s) = e := by
  rw [exponent, Nat.pow_eq]
  omega

theorem significand_lt (m : Nat) : significand m < 2 ^ 53 := by
  rw [significand, Nat.pow_eq]
  split <;> omega

theorem le_significand {m : Nat} (h : 0 < exponent m) : 2 ^ 52 ≤ significand m := by
  rw [exponent, Nat.pow_eq] at h
  rw [significand, Nat.pow_eq, if_neg (by omega)]
  omega

/-- The step from one magnitude to the next is one in the last place. -/
theorem units_succ (m : Nat) : units (m + 1) = units m + 2 ^ exponent m := by
  have hsucc : m + 1 = exponent m * 2 ^ 52 + (significand m + 1) := by
    have hsum := exponent_add_significand m
    omega
  have hfull : 0 < exponent m → 2 ^ 52 ≤ significand m + 1 := fun h =>
    Nat.le_succ_of_le (le_significand h)
  rw [hsucc, units_add (significand_lt m) hfull, Nat.succ_mul]
  rfl

theorem units_strictMono : StrictMono units :=
  strictMono_nat_of_lt_succ fun m => by
    rw [units_succ]
    exact Nat.lt_add_of_pos_right (Nat.two_pow_pos _)

/-- The value of a magnitude. -/
def absolute (m : Nat) : ℚ := units m / 2 ^ 1074

theorem absolute_strictMono : StrictMono absolute := fun _ _ h =>
  div_lt_div_of_pos_right (Nat.cast_lt.mpr (units_strictMono h)) (pow_pos two_pos _)

/-! ## 2. Rounding to nearest, ties to even -/

/-- `m` is the magnitude nearest to the rational, and the even one if there is
another as near. Infinity counts with the value that it would have if it were
finite. -/
structure Closest (q : ℚ) (m : Nat) : Prop where
  le_infinity : m ≤ infinity
  nearest : ∀ n ≤ infinity, |q - absolute m| ≤ |q - absolute n|
  even_of_tie : ∀ n ≤ infinity, n ≠ m → |q - absolute m| = |q - absolute n| → Even m

/-- Two magnitudes that are both nearest are neighbours, for what is between them
is nearer. So one of them is odd. -/
theorem Closest.not_lt {q : ℚ} {m n : Nat} (hm : Closest q m) (hn : Closest q n) :
    ¬ m < n := by
  intro hlt
  have hsame : |q - absolute m| = |q - absolute n| :=
    le_antisymm (hm.nearest n hn.le_infinity) (hn.nearest m hm.le_infinity)
  have hmeven := hm.even_of_tie n hn.le_infinity hlt.ne' hsame
  have hneven := hn.even_of_tie m hm.le_infinity hlt.ne hsame.symm
  have hgap : m + 1 < n := by
    rcases hmeven with ⟨i, hi⟩
    rcases hneven with ⟨j, hj⟩
    omega
  have hle : m + 1 ≤ infinity := Nat.le_trans (Nat.le_of_lt hgap) hn.le_infinity
  have hcloser := hm.nearest (m + 1) hle
  have hlow : absolute m < absolute (m + 1) := absolute_strictMono (Nat.lt_succ_self m)
  have hhigh : absolute (m + 1) < absolute n := absolute_strictMono hgap
  have hmid : q - absolute m = -(q - absolute n) := by
    rcases abs_eq_abs.mp hsame with heq | heq
    · linarith
    · exact heq
  rw [abs_of_nonneg (by linarith : 0 ≤ q - absolute m)] at hcloser
  rcases le_abs.mp hcloser with h | h <;> linarith

/-- **There is at most one way to round.** -/
theorem Closest.unique {q : ℚ} {m n : Nat} (hm : Closest q m) (hn : Closest q n) : m = n :=
  Nat.le_antisymm (Nat.le_of_not_lt (hn.not_lt hm)) (Nat.le_of_not_lt (hm.not_lt hn))

theorem dist_of_le {q : ℚ} {a n : Nat} (hlow : absolute a ≤ q) (hn : n ≤ a) :
    |q - absolute n| = q - absolute n :=
  abs_of_nonneg (sub_nonneg.mpr ((absolute_strictMono.monotone hn).trans hlow))

theorem dist_of_ge {q : ℚ} {b n : Nat} (hhigh : q ≤ absolute b) (hn : b ≤ n) :
    |q - absolute n| = absolute n - q := by
  rw [abs_sub_comm]
  exact abs_of_nonneg (sub_nonneg.mpr (hhigh.trans (absolute_strictMono.monotone hn)))

/-- Of two neighbours around a rational, the nearer one is closest to it of all
magnitudes. If another one is as close then the neighbours are equally near. -/
theorem dist_le {q : ℚ} {a m : Nat} (hlow : absolute a ≤ q) (hhigh : q ≤ absolute (a + 1))
    (hnear : m = a ∧ q - absolute a ≤ absolute (a + 1) - q ∨
      m = a + 1 ∧ absolute (a + 1) - q ≤ q - absolute a) (n : Nat) :
    |q - absolute m| ≤ |q - absolute n| ∧
      (n ≠ m → |q - absolute m| = |q - absolute n| → q - absolute a = absolute (a + 1) - q) := by
  rcases hnear with ⟨rfl, hnear⟩ | ⟨rfl, hnear⟩
  · rw [dist_of_le hlow (Nat.le_refl m)]
    rcases Nat.lt_trichotomy n m with hn | rfl | hn
    · have hstep := absolute_strictMono hn
      rw [dist_of_le hlow (Nat.le_of_lt hn)]
      exact ⟨by linarith, fun _ h => by linarith⟩
    · rw [dist_of_le hlow (Nat.le_refl n)]
      exact ⟨le_rfl, fun hne => absurd rfl hne⟩
    · have hstep := absolute_strictMono.monotone (Nat.succ_le_of_lt hn)
      rw [dist_of_ge hhigh hn]
      exact ⟨by linarith, fun _ h => le_antisymm hnear (by linarith)⟩
  · rw [dist_of_ge hhigh (Nat.le_refl (a + 1))]
    rcases Nat.lt_trichotomy n (a + 1) with hn | rfl | hn
    · have hstep := absolute_strictMono.monotone (Nat.le_of_lt_succ hn)
      rw [dist_of_le hlow (Nat.le_of_lt_succ hn)]
      exact ⟨by linarith, fun _ h => le_antisymm (by linarith) hnear⟩
    · rw [dist_of_ge hhigh (Nat.le_refl (a + 1))]
      exact ⟨le_rfl, fun hne => absurd rfl hne⟩
    · have hstep := absolute_strictMono hn
      rw [dist_of_ge hhigh (Nat.le_of_lt hn)]
      exact ⟨by linarith, fun _ h => by linarith⟩

/-- Beyond all finite magnitudes infinity is nearest, and nothing is as near. -/
theorem closest_infinity {q : ℚ} (h : absolute infinity ≤ q) : Closest q infinity where
  le_infinity := Nat.le_refl _
  nearest n hn := by
    have hstep := absolute_strictMono.monotone hn
    rw [dist_of_le h (Nat.le_refl _), dist_of_le h hn]
    linarith
  even_of_tie n hn hne heq := by
    have hstep := absolute_strictMono (Nat.lt_of_le_of_ne hn hne)
    rw [dist_of_le h (Nat.le_refl _), dist_of_le h hn] at heq
    linarith

theorem closest_neighbour {q : ℚ} {a m : Nat} (ha : a < infinity) (hlow : absolute a ≤ q)
    (hhigh : q ≤ absolute (a + 1))
    (hnear : m = a ∧ q - absolute a ≤ absolute (a + 1) - q ∨
      m = a + 1 ∧ absolute (a + 1) - q ≤ q - absolute a)
    (heven : q - absolute a = absolute (a + 1) - q → Even m) : Closest q m where
  le_infinity := by omega
  nearest n _ := (dist_le hlow hhigh hnear n).1
  even_of_tie n _ hne heq := heven ((dist_le hlow hhigh hnear n).2 hne heq)

/-! ## 3. What `nearest` computes -/

/-- The denominator that is left when the excess digits are dropped. -/
def weight (num den : Nat) : Nat := den * Nat.pow 2 (excess num den)

/-- The significand that is left when the excess digits are dropped. -/
def cut (num den : Nat) : Nat := num * Nat.pow 2 1074 / weight num den

/-- What is dropped, over the weight. -/
def rest (num den : Nat) : Nat := num * Nat.pow 2 1074 % weight num den

/-- The last magnitude at or below a fraction. -/
def floor (num den : Nat) : Nat := excess num den * 2 ^ 52 + cut num den

theorem cut_lt (num den : Nat) : cut num den < 2 ^ 53 := quotient_excess_lt num den

theorem le_cut {num den : Nat} (h : 0 < excess num den) : 2 ^ 52 ≤ cut num den :=
  le_quotient_excess num den h

theorem rest_lt (num : Nat) {den : Nat} (hden : 0 < den) : rest num den < weight num den :=
  Nat.mod_lt _ (Nat.mul_pos hden (Nat.two_pow_pos _))

theorem exponent_floor (num den : Nat) : exponent (floor num den) = excess num den :=
  exponent_add (cut_lt num den) le_cut

/-- What a fraction is: the magnitude below it, and the rest. -/
theorem units_floor (num den : Nat) :
    units (floor num den) * den + rest num den = num * Nat.pow 2 1074 := by
  have hunits : units (floor num den) * den = weight num den * cut num den := by
    rw [floor, units_add (Nat.le_of_lt (cut_lt num den)) le_cut]
    show _ * 2 ^ excess num den * den = den * 2 ^ excess num den * _
    ac_rfl
  rw [hunits]
  exact Nat.div_add_mod _ _

theorem units_floor_succ (num den : Nat) :
    units (floor num den + 1) * den = units (floor num den) * den + weight num den := by
  rw [units_succ, exponent_floor, Nat.add_mul, Nat.mul_comm (2 ^ _) den]
  rfl

/-- The rest decides which of the two neighbours `nearest` takes. -/
theorem nearest_cases (num den : Nat) :
    ∃ m, nearest num den = min infinity m ∧
      (2 * rest num den < weight num den ∧ m = floor num den ∨
        weight num den < 2 * rest num den ∧ m = floor num den + 1 ∨
        2 * rest num den = weight num den ∧ m = floor num den + cut num den % 2) := by
  have hcases := roundQuotient_cases (num * Nat.pow 2 1074) (weight num den)
  unfold nearest floor cut rest
  dsimp only
  change ∃ m, min infinity (_ + roundQuotient _ (weight num den)) = min infinity m ∧ _
  generalize num * Nat.pow 2 1074 = scaled at hcases ⊢
  refine ⟨_, rfl, ?_⟩
  rw [Nat.pow_eq]
  rcases hcases with ⟨hrest, hround⟩ | ⟨hrest, hround⟩ | ⟨hrest, hround⟩
  · exact .inl ⟨hrest, by rw [hround]⟩
  · exact .inr (.inl ⟨hrest, by rw [hround, Nat.add_assoc]⟩)
  · exact .inr (.inr ⟨hrest, by rw [hround, Nat.add_assoc]⟩)

/-- A split of an integer, among the rationals. The number of binary places is a
variable so that nobody tries to compute the power. -/
theorem cast_split {a b c d places : Nat} (h : a * b + c = d * Nat.pow 2 places) :
    (a * b + c : ℚ) = d * 2 ^ places := by
  rw [Nat.pow_eq] at h
  exact_mod_cast h

/-- How far a fraction is above the one neighbour. -/
theorem sub_absolute_floor (num : Nat) {den : Nat} (hden : 0 < den) :
    (num / den : ℚ) - absolute (floor num den) = rest num den / (den * 2 ^ 1074) := by
  have hden' : (den : ℚ) ≠ 0 := Nat.cast_ne_zero.mpr hden.ne'
  have hpow : (2 : ℚ) ^ 1074 ≠ 0 := pow_ne_zero _ two_ne_zero
  rw [absolute, div_sub_div _ _ hden' hpow, ← cast_split (units_floor num den),
    mul_comm (den : ℚ) (units _ : ℚ), add_sub_cancel_left]

/-- And how far it is below the other. -/
theorem absolute_floor_succ_sub (num : Nat) {den : Nat} (hden : 0 < den) :
    absolute (floor num den + 1) - (num / den : ℚ) =
      (weight num den - rest num den) / (den * 2 ^ 1074) := by
  have hden' : (den : ℚ) ≠ 0 := Nat.cast_ne_zero.mpr hden.ne'
  have hstep : absolute (floor num den + 1) - absolute (floor num den) =
      weight num den / (den * 2 ^ 1074) := by
    have hsucc := congrArg (Nat.cast (R := ℚ)) (units_floor_succ num den)
    rw [Nat.cast_add, Nat.cast_mul, Nat.cast_mul] at hsucc
    rw [absolute, absolute, ← sub_div, ← mul_div_mul_left _ _ hden', mul_sub, mul_comm (den : ℚ),
      hsucc, mul_comm (den : ℚ) (units (floor num den)), add_sub_cancel_left]
  rw [sub_div, ← hstep, ← sub_absolute_floor num hden]
  ring

/-- **`nearest` rounds to the nearest magnitude, ties to even.** -/
theorem closest_nearest (num : Nat) {den : Nat} (hden : 0 < den) :
    Closest (num / den) (nearest num den) := by
  obtain ⟨m, hnearest, hcases⟩ := nearest_cases num den
  have hscale : (0 : ℚ) < den * 2 ^ 1074 :=
    mul_pos (Nat.cast_pos.mpr hden) (pow_pos two_pos _)
  have hlow := sub_absolute_floor num hden
  have hhigh := absolute_floor_succ_sub num hden
  have hbelow : absolute (floor num den) ≤ num / den := by
    rw [← sub_nonneg, hlow]
    exact div_nonneg (Nat.cast_nonneg _) hscale.le
  have habove : (num / den : ℚ) ≤ absolute (floor num den + 1) := by
    have hrest : (rest num den : ℚ) ≤ weight num den := Nat.cast_le.mpr (rest_lt num hden).le
    rw [← sub_nonneg, hhigh]
    exact div_nonneg (sub_nonneg.mpr hrest) hscale.le
  -- the two distances compare as the two parts of the weight do
  have hnearer : (num / den : ℚ) - absolute (floor num den) ≤
      absolute (floor num den + 1) - num / den ↔ 2 * rest num den ≤ weight num den := by
    rw [hlow, hhigh, div_le_div_iff_of_pos_right hscale, le_sub_iff_add_le, ← two_mul]
    exact_mod_cast Iff.rfl
  have hfarther : absolute (floor num den + 1) - (num / den : ℚ) ≤
      num / den - absolute (floor num den) ↔ weight num den ≤ 2 * rest num den := by
    rw [hlow, hhigh, div_le_div_iff_of_pos_right hscale, sub_le_iff_le_add, ← two_mul]
    exact_mod_cast Iff.rfl
  rw [hnearest]
  rcases Nat.lt_or_ge (floor num den) infinity with hfinite | hbeyond
  · rw [Nat.min_eq_right (by omega)]
    refine closest_neighbour hfinite hbelow habove ?_ fun heq => ?_
    · rw [hnearer, hfarther]
      omega
    · have htie : 2 * rest num den = weight num den :=
        Nat.le_antisymm (hnearer.mp heq.le) (hfarther.mp heq.ge)
      rw [Nat.even_iff]
      unfold floor at hcases
      omega
  · rw [Nat.min_eq_left (by omega)]
    exact closest_infinity ((absolute_strictMono.monotone hbeyond).trans hbelow)

theorem nearest_eq_iff_closest (num : Nat) {den : Nat} (hden : 0 < den) (m : Nat) :
    nearest num den = m ↔ Closest (num / den) m := by
  constructor
  · rintro rfl
    exact closest_nearest num hden
  · exact (closest_nearest num hden).unique

/-! ## 4. Signs -/

/-- A sign in front of an absolute value. -/
def signed (negative : Bool) (q : ℚ) : ℚ := if negative then -q else q

/-- The value of a number. An infinity counts with the value that it would have if
it were finite. -/
def toRat (x : Number) : ℚ := signed x.negative (absolute x.magnitude)

/-- The number `x` is nearest to the rational, and its significand is even if
there is another as near. -/
structure RoundsTo (r : ℚ) (x : Number) : Prop where
  not_nan : x.isNaN = false
  nearest : ∀ y : Number, y.isNaN = false → |r - x.toRat| ≤ |r - y.toRat|
  even_of_tie : ∀ y : Number, y.isNaN = false → y.toRat ≠ x.toRat →
    |r - x.toRat| = |r - y.toRat| → Even x.magnitude

theorem not_isNaN_iff {x : Number} : x.isNaN = false ↔ x.magnitude ≤ infinity := by
  rw [isNaN, decide_eq_false_iff_not, Nat.not_lt]

theorem toNat_bits_ofParts (s : Bool) {m : Nat} (hm : m ≤ infinity) :
    (ofParts s m).bits.toNat = (if s then Nat.pow 2 63 else 0) + m := by
  refine UInt64.toNat_ofNat_of_lt' ?_
  have hinf : infinity < Nat.pow 2 63 := by decide
  have hsize : Nat.pow 2 63 + Nat.pow 2 63 = UInt64.size := rfl
  split <;> omega

theorem magnitude_ofParts (s : Bool) {m : Nat} (hm : m ≤ infinity) :
    (ofParts s m).magnitude = m := by
  have hinf : infinity < Nat.pow 2 63 := by decide
  rw [magnitude, toNat_bits_ofParts s hm]
  cases s with
  | false => rw [if_neg Bool.false_ne_true, Nat.zero_add, Nat.mod_eq_of_lt (by omega)]
  | true => rw [if_pos rfl, Nat.add_mod_left, Nat.mod_eq_of_lt (by omega)]

theorem negative_ofParts (s : Bool) {m : Nat} (hm : m ≤ infinity) :
    (ofParts s m).negative = s := by
  have hinf : infinity < Nat.pow 2 63 := by decide
  rw [negative, toNat_bits_ofParts s hm]
  cases s with
  | false => exact decide_eq_false (by rw [if_neg Bool.false_ne_true]; omega)
  | true => exact decide_eq_true (by rw [if_pos rfl]; omega)

theorem toRat_ofParts (s : Bool) {m : Nat} (hm : m ≤ infinity) :
    (ofParts s m).toRat = signed s (absolute m) := by
  rw [toRat, negative_ofParts s hm, magnitude_ofParts s hm]

theorem not_isNaN_ofParts (s : Bool) {m : Nat} (hm : m ≤ infinity) :
    (ofParts s m).isNaN = false := by
  rw [not_isNaN_iff, magnitude_ofParts s hm]
  exact hm

theorem absolute_nonneg (m : Nat) : 0 ≤ absolute m :=
  div_nonneg (Nat.cast_nonneg _) (pow_pos two_pos _).le

theorem absolute_zero : absolute 0 = 0 := by
  rw [absolute, units_of_lt (Nat.two_pow_pos _), Nat.cast_zero, zero_div]

theorem signed_injective {s : Bool} {p q : ℚ} (h : signed s p = signed s q) : p = q := by
  cases s with
  | false => exact h
  | true => exact neg_injective h

theorem signed_zero (s : Bool) : signed s 0 = 0 := by
  cases s <;> simp [signed]

theorem dist_signed (s : Bool) (q p : ℚ) : |signed s q - signed s p| = |q - p| := by
  cases s with
  | false => rfl
  | true => rw [signed, signed, if_pos rfl, if_pos rfl, neg_sub_neg, abs_sub_comm]

/-- Between two numbers of different signs lies zero. -/
theorem dist_signed_of_ne {s t : Bool} (hst : s ≠ t) {q p : ℚ} (hq : 0 ≤ q) (hp : 0 ≤ p) :
    |signed s q - signed t p| = q + p := by
  have hsum : |q + p| = q + p := abs_of_nonneg (add_nonneg hq hp)
  cases s <;> cases t
  · exact absurd rfl hst
  · show |q - -p| = q + p
    rw [sub_neg_eq_add, hsum]
  · show |-q - p| = q + p
    rw [← neg_add', abs_neg, hsum]
  · exact absurd rfl hst

/-- The other sign brings nothing nearer. -/
theorem dist_le_dist_signed (s t : Bool) {q p : ℚ} (hq : 0 ≤ q) (hp : 0 ≤ p) :
    |q - p| ≤ |signed s q - signed t p| := by
  by_cases hst : s = t
  · rw [hst, dist_signed]
  · rw [dist_signed_of_ne hst hq hp, abs_le]
    constructor <;> linarith

/-- Of two opposite numbers both are nearest only if they are zeros: zero would be
nearer than the one of the other sign. -/
theorem Closest.toRat_eq {q : ℚ} (hq : 0 ≤ q) {x y : Number} (h : Closest q x.magnitude)
    (hmag : y.magnitude = x.magnitude)
    (heq : |q - absolute x.magnitude| = |signed x.negative q - y.toRat|) : y.toRat = x.toRat := by
  by_cases hsign : x.negative = y.negative
  · rw [toRat, toRat, hmag, hsign]
  · have hzero := h.nearest 0 (Nat.zero_le _)
    rw [heq, toRat, dist_signed_of_ne hsign hq (absolute_nonneg _), hmag, absolute_zero,
      sub_zero, abs_of_nonneg hq] at hzero
    have hnone : absolute x.magnitude = 0 :=
      le_antisymm (by linarith) (absolute_nonneg x.magnitude)
    rw [toRat, toRat, hmag, hnone, signed_zero, signed_zero]

/-- **Rounding leaves the sign to itself**: under a given sign, numbers round as
their magnitudes do. -/
theorem roundsTo_signed_iff {q : ℚ} (hq : 0 ≤ q) (x : Number) :
    RoundsTo (signed x.negative q) x ↔ Closest q x.magnitude := by
  have hself : |signed x.negative q - x.toRat| = |q - absolute x.magnitude| :=
    dist_signed _ _ _
  constructor
  · intro h
    have hdist : ∀ n, n ≤ infinity →
        |signed x.negative q - (ofParts x.negative n).toRat| = |q - absolute n| := by
      intro n hn
      rw [toRat_ofParts _ hn, dist_signed]
    refine ⟨not_isNaN_iff.mp h.not_nan, fun n hn => ?_, fun n hn hne heq => ?_⟩
    · rw [← hself, ← hdist n hn]
      exact h.nearest _ (not_isNaN_ofParts _ hn)
    · refine h.even_of_tie _ (not_isNaN_ofParts x.negative hn) (fun hsame => ?_) ?_
      · rw [toRat_ofParts _ hn] at hsame
        exact hne (absolute_strictMono.injective (signed_injective hsame))
      · rw [hself, hdist n hn, heq]
  · intro h
    have hfarther : ∀ y : Number,
        |q - absolute y.magnitude| ≤ |signed x.negative q - y.toRat| := fun y =>
      dist_le_dist_signed _ _ hq (absolute_nonneg _)
    refine ⟨not_isNaN_iff.mpr h.le_infinity, fun y hy => ?_, fun y hy hne heq => ?_⟩
    · rw [hself]
      exact (h.nearest _ (not_isNaN_iff.mp hy)).trans (hfarther y)
    · rw [hself] at heq
      have hy := not_isNaN_iff.mp hy
      exact h.even_of_tie _ hy (fun hmag => hne (h.toRat_eq hq hmag heq))
        (le_antisymm (h.nearest _ hy) ((hfarther y).trans heq.ge))

theorem exists_eq_signed (r : ℚ) : ∃ s, r = signed s |r| := by
  rcases le_total 0 r with h | h
  · exact ⟨false, (abs_of_nonneg h).symm⟩
  · refine ⟨true, ?_⟩
    rw [abs_of_nonpos h]
    exact (neg_neg r).symm

/-- What rounds to a number other than zero has its sign: else zero would be
nearer. -/
theorem RoundsTo.eq_signed {r : ℚ} {x : Number} (h : RoundsTo r x) (hx : x.magnitude ≠ 0) :
    r = signed x.negative |r| := by
  obtain ⟨s, hs⟩ := exists_eq_signed r
  by_cases hsign : s = x.negative
  · rw [← hsign]
    exact hs
  · have hpos : 0 < absolute x.magnitude := by
      rw [← absolute_zero]
      exact absolute_strictMono (Nat.pos_of_ne_zero hx)
    have hzero := h.nearest (ofParts false 0) (not_isNaN_ofParts _ (Nat.zero_le _))
    have hdist : |r - x.toRat| = |r| + absolute x.magnitude := by
      conv_lhs => rw [hs]
      exact dist_signed_of_ne hsign (abs_nonneg r) hpos.le
    rw [toRat_ofParts _ (Nat.zero_le _), absolute_zero, signed_zero, sub_zero, hdist] at hzero
    linarith

/-! ## 5. Integers -/

/-- An integer of at most 53 binary digits is the value of a magnitude. The number
of binary places is a variable so that nobody tries to compute the power. -/
theorem exists_units_eq {n places : Nat} (hplaces : places = 1074) (hn : n < 2 ^ 53) :
    ∃ m, m < infinity ∧ units m = n * 2 ^ places := by
  have hinf : infinity = 2047 * 2 ^ 52 := rfl
  by_cases hzero : n = 0
  · refine ⟨0, by omega, ?_⟩
    rw [hzero, Nat.zero_mul, units_of_lt (Nat.two_pow_pos _)]
  · have hlow := Nat.log2_self_le hzero
    have hlog : Nat.log2 n < 53 := (Nat.log2_lt hzero).mpr hn
    have hhigh : n < 2 ^ (Nat.log2 n + 1) := Nat.lt_log2_self
    generalize Nat.log2 n = k at hlow hlog hhigh
    have hsig : 2 ^ 52 ≤ n * 2 ^ (52 - k) := by
      calc 2 ^ 52 = 2 ^ k * 2 ^ (52 - k) := by rw [← Nat.pow_add]; congr 1; omega
        _ ≤ n * 2 ^ (52 - k) := Nat.mul_le_mul_right _ hlow
    have hfits : n * 2 ^ (52 - k) < 2 ^ 53 := by
      calc n * 2 ^ (52 - k) < 2 ^ (k + 1) * 2 ^ (52 - k) :=
            Nat.mul_lt_mul_of_pos_right hhigh (Nat.two_pow_pos _)
        _ = 2 ^ 53 := by rw [← Nat.pow_add]; congr 1; omega
    refine ⟨(places - (52 - k)) * 2 ^ 52 + n * 2 ^ (52 - k), by omega, ?_⟩
    rw [units_add (Nat.le_of_lt hfits) fun _ => hsig, Nat.mul_assoc, ← Nat.pow_add]
    congr 2
    omega

theorem absolute_eq_natCast_iff {m n places : Nat} (hplaces : places = 1074) :
    absolute m = n ↔ units m = n * 2 ^ places := by
  rw [absolute, ← hplaces, div_eq_iff (pow_ne_zero _ two_ne_zero)]
  exact_mod_cast Iff.rfl

theorem nearest_natCast {n : Nat} (hn : n < 2 ^ 53) :
    nearest n 1 < infinity ∧ absolute (nearest n 1) = n := by
  obtain ⟨places, hplaces⟩ : ∃ places, places = 1074 := ⟨_, rfl⟩
  obtain ⟨m, hm, hunits⟩ := exists_units_eq hplaces hn
  have hnearest : nearest n 1 = m :=
    nearest_units hplaces Nat.one_pos hm (by rw [hunits, Nat.mul_one, Nat.pow_eq])
  rw [hnearest]
  exact ⟨hm, (absolute_eq_natCast_iff hplaces).mpr hunits⟩

/-- Integers of at most 53 binary digits, but for the largest, round to magnitudes
that no other integer rounds to. -/
theorem nearest_natCast_inj {a b : Nat} (ha : a + 1 < 2 ^ 53) (h : nearest a 1 = nearest b 1) :
    a = b := by
  have hvalue := (nearest_natCast (Nat.lt_of_succ_lt ha)).2
  rcases Nat.lt_or_ge b (2 ^ 53) with hb | hb
  · rw [h, (nearest_natCast hb).2] at hvalue
    exact_mod_cast hvalue.symm
  · have hle : nearest (a + 1) 1 ≤ nearest a 1 := by
      rw [h]
      exact nearest_mono Nat.one_pos Nat.one_pos (by omega)
    have hmono := absolute_strictMono.monotone hle
    rw [hvalue, (nearest_natCast ha).2, Nat.cast_le] at hmono
    omega

/-- The value of a magnitude is an integer. -/
def Integral (m : Nat) : Prop := ∃ n : Nat, absolute m = n

theorem integral_of_le_exponent {m places : Nat} (hplaces : places = 1074)
    (h : places ≤ exponent m) : Integral m := by
  refine ⟨significand m * 2 ^ (exponent m - places), (absolute_eq_natCast_iff hplaces).mpr ?_⟩
  rw [units, Nat.pow_eq, Nat.mul_assoc, ← Nat.pow_add, Nat.sub_add_cancel h]

/-- **Integers round to integers**: the short ones to themselves, and the long ones
to magnitudes that have no binary places. -/
theorem integral_nearest (n : Nat) : Integral (nearest n 1) := by
  rcases Nat.lt_or_ge n (2 ^ 53) with hlt | hge
  · exact ⟨n, (nearest_natCast hlt).2⟩
  · obtain ⟨places, hplaces⟩ : ∃ places, places = 1074 := ⟨_, rfl⟩
    have hinf : infinity = 2047 * 2 ^ 52 := rfl
    have hpow : units (places * 2 ^ 52 + 2 ^ 52) = 2 ^ 52 * 2 ^ places :=
      units_add (by decide) fun _ => Nat.le_refl _
    have hnearest : nearest (2 ^ 52) 1 = places * 2 ^ 52 + 2 ^ 52 :=
      nearest_units hplaces Nat.one_pos (by omega) (by rw [hpow, Nat.mul_one, Nat.pow_eq])
    have hle : nearest (2 ^ 52) 1 ≤ nearest n 1 :=
      nearest_mono Nat.one_pos Nat.one_pos (by omega)
    refine integral_of_le_exponent hplaces ?_
    rw [exponent, Nat.pow_eq]
    omega

theorem abs_signed (s : Bool) {q : ℚ} (hq : 0 ≤ q) : |signed s q| = q := by
  cases s with
  | false => exact abs_of_nonneg hq
  | true => exact (abs_neg q).trans (abs_of_nonneg hq)

theorem exists_toRat_eq_intCast_iff {x : Number} :
    (∃ z : ℤ, x.toRat = z) ↔ Integral x.magnitude := by
  constructor
  · rintro ⟨z, hz⟩
    refine ⟨z.natAbs, ?_⟩
    rw [← abs_signed x.negative (absolute_nonneg _), Nat.cast_natAbs, Int.cast_abs, ← hz]
    rfl
  · rintro ⟨n, hn⟩
    refine ⟨if x.negative then -n else n, ?_⟩
    rw [toRat, hn]
    cases x.negative <;> simp [signed]

end Number

end ScopeChain

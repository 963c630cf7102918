/-
ScopeChain.Proofs.Rounding — what `nearest` does to fractions, and the
values that numbers stand for.

Three facts about rounding are all that the text of numbers rests on. It
is monotone (`nearest_mono`), hence depends on the value of the fraction
alone (`nearest_congr`), and a fraction that is the value of a finite
magnitude rounds to that magnitude (`nearest_units`).

The last one says in passing that different finite magnitudes have
different values. So the equality of numbers, which is defined on bits,
is the equality of the extended reals that they stand for
(`equals_iff_value?`).
-/
import Mathlib.Algebra.Group.Nat.Defs
import Mathlib.Data.Nat.Log
import ScopeChain.Number.Nearest

namespace ScopeChain

namespace Number

/-! ## 1. Rounding a quotient to an integer -/

/-- The remainder decides: below a half, beyond it, or at it. -/
theorem roundQuotient_cases (num den : Nat) :
    (2 * (num % den) < den ∧ roundQuotient num den = num / den) ∨
    (den < 2 * (num % den) ∧ roundQuotient num den = num / den + 1) ∨
    (2 * (num % den) = den ∧ roundQuotient num den = num / den + num / den % 2) := by
  unfold roundQuotient
  dsimp only
  split
  · exact .inl ⟨‹_›, rfl⟩
  · split
    · exact .inr (.inl ⟨‹_›, rfl⟩)
    · exact .inr (.inr ⟨by omega, rfl⟩)

theorem roundQuotient_bounds (num den : Nat) :
    num / den ≤ roundQuotient num den ∧ roundQuotient num den ≤ num / den + 1 := by
  have hcases := roundQuotient_cases num den
  omega

/-- An integer is its own rounding. -/
theorem roundQuotient_mul (n : Nat) {den : Nat} (hden : 0 < den) :
    roundQuotient (n * den) den = n := by
  unfold roundQuotient
  dsimp only
  rw [Nat.mul_mod_left, Nat.mul_div_cancel n hden, if_pos (by omega)]

theorem roundQuotient_mono_left {num num' : Nat} (den : Nat) (h : num ≤ num') :
    roundQuotient num den ≤ roundQuotient num' den := by
  have hquot : num / den ≤ num' / den := Nat.div_le_div_right h
  have hcases := roundQuotient_cases num den
  have hcases' := roundQuotient_cases num' den
  rcases Nat.lt_or_eq_of_le hquot with hlt | heq
  · omega
  · have hrem : num % den ≤ num' % den := by
      have hnum := Nat.div_add_mod num den
      have hnum' := Nat.div_add_mod num' den
      rw [heq] at hnum
      omega
    omega

theorem roundQuotient_scale (num den : Nat) {c : Nat} (hc : 0 < c) :
    roundQuotient (num * c) (den * c) = roundQuotient num den := by
  unfold roundQuotient
  dsimp only
  have hlow : 2 * (num % den * c) < den * c ↔ 2 * (num % den) < den := by
    rw [← Nat.mul_assoc, Nat.mul_lt_mul_right hc]
  have hhigh : den * c < 2 * (num % den * c) ↔ den < 2 * (num % den) := by
    rw [← Nat.mul_assoc, Nat.mul_lt_mul_right hc]
  rw [Nat.mul_div_mul_right _ _ hc, Nat.mul_mod_mul_right]
  simp only [hlow, hhigh]

/-- A smaller fraction does not round to a larger integer. -/
theorem roundQuotient_mono {num den num' den' : Nat} (hden : 0 < den) (hden' : 0 < den')
    (h : num * den' ≤ num' * den) : roundQuotient num den ≤ roundQuotient num' den' := by
  rw [← roundQuotient_scale num den hden', ← roundQuotient_scale num' den' hden,
    Nat.mul_comm den' den]
  exact roundQuotient_mono_left _ h

/-! ## 2. Rounding a fraction to a magnitude -/

theorem div_le_div_of_mul_le {num den num' den' : Nat} (hden : 0 < den) (hden' : 0 < den')
    (h : num * den' ≤ num' * den) : num / den ≤ num' / den' := by
  rw [← Nat.mul_div_mul_right num den hden', ← Nat.mul_div_mul_right num' den' hden,
    Nat.mul_comm den' den]
  exact Nat.div_le_div_right h

/-- What is left when the excess digits are dropped fits into 53 digits. -/
theorem quotient_excess_lt (num den : Nat) :
    num * Nat.pow 2 1074 / (den * Nat.pow 2 (excess num den)) < 2 ^ 53 := by
  rw [← Nat.div_div_eq_div_mul]
  have hlog : Nat.log2 (num * Nat.pow 2 1074 / den) < excess num den + 53 := by
    unfold excess
    omega
  generalize num * Nat.pow 2 1074 / den = whole at hlog ⊢
  rw [Nat.pow_eq]
  refine Nat.div_lt_of_lt_mul ?_
  rw [← Nat.pow_add]
  by_cases hzero : whole = 0
  · rw [hzero]
    exact Nat.two_pow_pos _
  · exact (Nat.log2_lt hzero).mp hlog

/-- And it needs all of the 53 if there is any excess. -/
theorem le_quotient_excess (num den : Nat) (hex : 0 < excess num den) :
    2 ^ 52 ≤ num * Nat.pow 2 1074 / (den * Nat.pow 2 (excess num den)) := by
  rw [← Nat.div_div_eq_div_mul]
  have hlog : Nat.log2 (num * Nat.pow 2 1074 / den) = 52 + excess num den := by
    unfold excess at hex ⊢
    omega
  generalize num * Nat.pow 2 1074 / den = whole at hlog ⊢
  have hne : whole ≠ 0 := by
    rintro rfl
    rw [Nat.log2_zero] at hlog
    omega
  rw [Nat.pow_eq, Nat.le_div_iff_mul_le (Nat.two_pow_pos _), ← Nat.pow_add, ← hlog]
  exact Nat.log2_self_le hne

theorem roundQuotient_excess_le (num den : Nat) :
    roundQuotient (num * Nat.pow 2 1074) (den * Nat.pow 2 (excess num den)) ≤ 2 ^ 53 :=
  Nat.le_trans (roundQuotient_bounds _ _).2 (quotient_excess_lt num den)

theorem le_roundQuotient_excess (num den : Nat) (hex : 0 < excess num den) :
    2 ^ 52 ≤ roundQuotient (num * Nat.pow 2 1074) (den * Nat.pow 2 (excess num den)) :=
  Nat.le_trans (le_quotient_excess num den hex) (roundQuotient_bounds _ _).1

/-- **Rounding is monotone.** A larger fraction in the same binade rounds to a
larger remainder; one in a higher binade has more digits to drop, and that
outweighs any remainder. -/
theorem nearest_mono {num den num' den' : Nat} (hden : 0 < den) (hden' : 0 < den')
    (h : num * den' ≤ num' * den) : nearest num den ≤ nearest num' den' := by
  have hscaled : num * Nat.pow 2 1074 * den' ≤ num' * Nat.pow 2 1074 * den := by
    rw [Nat.mul_right_comm, Nat.mul_right_comm num']
    exact Nat.mul_le_mul_right _ h
  have hdrop : excess num den ≤ excess num' den' := by
    unfold excess
    rw [Nat.log2_eq_log_two, Nat.log2_eq_log_two]
    exact Nat.sub_le_sub_right
      (Nat.log_mono_right (div_le_div_of_mul_le hden hden' hscaled)) _
  unfold nearest
  dsimp only
  refine Nat.le_min.mpr ⟨Nat.min_le_left _ _, Nat.le_trans (Nat.min_le_right _ _) ?_⟩
  rcases Nat.lt_or_eq_of_le hdrop with hlt | heq
  · have hhigh := roundQuotient_excess_le num den
    have hlow := le_roundQuotient_excess num' den' (by omega)
    have hstep : (excess num den + 1) * 2 ^ 52 ≤ excess num' den' * 2 ^ 52 :=
      Nat.mul_le_mul_right _ hlt
    show excess num den * 2 ^ 52 + _ ≤ excess num' den' * 2 ^ 52 + _
    omega
  · rw [heq]
    refine Nat.add_le_add_left (roundQuotient_mono ?_ ?_ ?_) _
    · exact Nat.mul_pos hden (Nat.two_pow_pos _)
    · exact Nat.mul_pos hden' (Nat.two_pow_pos _)
    · rw [← Nat.mul_assoc, ← Nat.mul_assoc]
      exact Nat.mul_le_mul_right _ hscaled

/-- Rounding depends on the value of the fraction alone. -/
theorem nearest_congr {num den num' den' : Nat} (hden : 0 < den) (hden' : 0 < den')
    (h : num * den' = num' * den) : nearest num den = nearest num' den' :=
  Nat.le_antisymm (nearest_mono hden hden' (Nat.le_of_eq h))
    (nearest_mono hden' hden (Nat.le_of_eq h.symm))

/-! ## 3. The value of a magnitude -/

theorem units_of_lt {m : Nat} (h : m < 2 ^ 52) : units m = m := by
  rw [units, significand, exponent, Nat.pow_eq, if_pos h, Nat.div_eq_of_lt h, Nat.zero_sub,
    Nat.pow_eq, Nat.pow_zero, Nat.mul_one]

theorem units_of_le {m : Nat} (h : 2 ^ 52 ≤ m) :
    units m = (2 ^ 52 + m % 2 ^ 52) * 2 ^ (m / 2 ^ 52 - 1) := by
  rw [units, significand, exponent, Nat.pow_eq, if_neg (Nat.not_lt.mpr h), Nat.pow_eq]

/-- How many digits the value of a magnitude has in excess. -/
theorem log2_units_sub (m : Nat) : Nat.log2 (units m) - 52 = exponent m := by
  rw [exponent, Nat.pow_eq]
  rcases Nat.lt_or_ge m (2 ^ 52) with hlt | hle
  · rw [units_of_lt hlt, Nat.div_eq_of_lt hlt]
    by_cases hzero : m = 0
    · rw [hzero, Nat.log2_zero]
    · have hlog := (Nat.log2_lt hzero).mpr hlt
      omega
  · rw [units_of_le hle]
    have hrem : m % 2 ^ 52 < 2 ^ 52 := Nat.mod_lt _ (Nat.two_pow_pos _)
    generalize m % 2 ^ 52 = rem at hrem ⊢
    generalize m / 2 ^ 52 - 1 = e
    have hpow : 0 < 2 ^ e := Nat.two_pow_pos e
    have hlog : Nat.log2 ((2 ^ 52 + rem) * 2 ^ e) = 52 + e := by
      refine (Nat.log2_eq_iff (Nat.mul_pos (by omega) hpow).ne').mpr ⟨?_, ?_⟩
      · rw [Nat.pow_add]
        exact Nat.mul_le_mul_right _ (by omega)
      · rw [show 52 + e + 1 = 53 + e by omega, Nat.pow_add]
        exact Nat.mul_lt_mul_of_pos_right (by omega) hpow
    rw [hlog]
    omega

/-- A magnitude is its exponent and its significand, added up. -/
theorem exponent_add_significand (m : Nat) : exponent m * 2 ^ 52 + significand m = m := by
  rw [exponent, significand, Nat.pow_eq]
  split <;> omega

/-- **A value rounds to its magnitude.** The number of binary places is a
variable here so that nobody tries to compute the power. -/
theorem nearest_units {num den m places : Nat} (hplaces : places = 1074) (hden : 0 < den)
    (hm : m < infinity) (h : num * Nat.pow 2 places = units m * den) : nearest num den = m := by
  have hex : excess num den = exponent m := by
    rw [excess, ← hplaces, h, Nat.mul_div_cancel _ hden, log2_units_sub]
  have hround : roundQuotient (num * Nat.pow 2 places) (den * Nat.pow 2 (exponent m)) =
      significand m := by
    rw [h, units, Nat.mul_assoc, Nat.mul_comm (Nat.pow 2 _) den]
    exact roundQuotient_mul _ (Nat.mul_pos hden (Nat.two_pow_pos _))
  have hsum := exponent_add_significand m
  unfold nearest
  dsimp only
  rw [← hplaces, hex, hround, Nat.pow_eq, hsum]
  exact Nat.min_eq_right (Nat.le_of_lt hm)

/-- Different magnitudes have different values: the exponent is read off the
length of the value, and then the significand off the rest. -/
theorem units_injective {m n : Nat} (h : units m = units n) : m = n := by
  have hexp : exponent m = exponent n := by
    rw [← log2_units_sub, h, log2_units_sub]
  have hsig : significand m = significand n := by
    rw [units, units, hexp] at h
    exact Nat.eq_of_mul_eq_mul_right (Nat.two_pow_pos _) h
  rw [← exponent_add_significand m, hexp, hsig, exponent_add_significand]

/-! ## 4. Numbers as extended reals -/

theorem bits_eq (x : Number) :
    x.bits.toNat = (if x.negative then 2 ^ 63 else 0) + x.magnitude := by
  rw [negative, magnitude]
  show x.bits.toNat = (if decide (2 ^ 63 ≤ x.bits.toNat) then 2 ^ 63 else 0) +
    x.bits.toNat % 2 ^ 63
  have hlt := x.bits.toNat_lt
  by_cases h : 2 ^ 63 ≤ x.bits.toNat
  · simp only [h, decide_true, if_true]
    omega
  · simp only [h, decide_false, Bool.false_eq_true, if_false]
    omega

theorem ofParts_parts (x : Number) : ofParts x.negative x.magnitude = x := by
  obtain ⟨bits⟩ := x
  rw [ofParts]
  congr 1
  refine Eq.trans (congrArg UInt64.ofNat ?_) (UInt64.ofNat_toNat)
  exact (bits_eq ⟨bits⟩).symm

/-- Numbers with the same sign and magnitude are the same. -/
theorem ext_parts {x y : Number} (hs : x.negative = y.negative) (hm : x.magnitude = y.magnitude) :
    x = y := by
  rw [← ofParts_parts x, hs, hm, ofParts_parts]

/-- An extended real: a multiple of 2^-1074, or an infinity. -/
inductive Extended where
  | finite (units : Int)
  | infinite (negative : Bool)
deriving DecidableEq

/-- The extended real that a number stands for; a NaN stands for none. -/
def value? (x : Number) : Option Extended :=
  if x.isNaN then none
  else if x.isInfinite then some (.infinite x.negative)
  else some (.finite (if x.negative then -(units x.magnitude : Int) else units x.magnitude))

theorem lt_infinity {x : Number} (hnan : x.isNaN = false) (hinf : x.isInfinite = false) :
    x.magnitude < infinity := by
  have hle : ¬ infinity < x.magnitude := of_decide_eq_false hnan
  have hne : x.magnitude ≠ infinity := by simpa [isInfinite] using hinf
  omega

theorem magnitude_of_isInfinite {x : Number} (h : x.isInfinite = true) :
    x.magnitude = infinity := by
  simpa [isInfinite] using h

/-- Signs tell everything but nothing apart. -/
theorem signed_eq_iff (s t : Bool) (m n : Nat) :
    ((if s then -(m : Int) else m) = if t then -(n : Int) else n) ↔ m = n ∧ (s = t ∨ m = 0) := by
  cases s <;> cases t <;> simp <;> omega

/-- The values of two finite numbers are the same if the numbers are, or if both
are zeros. -/
theorem signed_units_eq_iff (x y : Number) :
    ((if x.negative then -(units x.magnitude : Int) else units x.magnitude) =
      if y.negative then -(units y.magnitude : Int) else units y.magnitude) ↔
      x = y ∨ x.magnitude = 0 ∧ y.magnitude = 0 := by
  have hzero : units 0 = 0 := units_of_lt (Nat.two_pow_pos _)
  rw [signed_eq_iff]
  constructor
  · rintro ⟨hunits, hsign | hnone⟩
    · exact .inl (ext_parts hsign (units_injective hunits))
    · have hmx : x.magnitude = 0 := units_injective (hnone.trans hzero.symm)
      exact .inr ⟨hmx, units_injective hunits ▸ hmx⟩
  · rintro (rfl | ⟨hmx, hmy⟩)
    · exact ⟨rfl, .inl rfl⟩
    · rw [hmx, hmy]
      exact ⟨rfl, .inr hzero⟩

/-- An infinity is no finite number, and no zero. -/
theorem not_same_of_isInfinite {x y : Number} (hx : x.isInfinite = true)
    (hy : y.isInfinite = false) : ¬ (x = y ∨ x.magnitude = 0 ∧ y.magnitude = 0) := by
  have hmag := magnitude_of_isInfinite hx
  have hpos : 0 < infinity := by decide
  rintro (rfl | ⟨hzero, -⟩)
  · exact Bool.false_ne_true (hy.symm.trans hx)
  · omega

/-- Infinities differ in sign only. -/
theorem same_iff_of_isInfinite {x y : Number} (hx : x.isInfinite = true)
    (hy : y.isInfinite = true) :
    (x = y ∨ x.magnitude = 0 ∧ y.magnitude = 0) ↔ x.negative = y.negative := by
  have hmx := magnitude_of_isInfinite hx
  have hmy := magnitude_of_isInfinite hy
  have hpos : 0 < infinity := by decide
  constructor
  · rintro (rfl | ⟨hzero, -⟩)
    · rfl
    · omega
  · exact fun hsign => .inl (ext_parts hsign (hmx.trans hmy.symm))

theorem equals_iff {x y : Number} : x.equals y ↔
    x.isNaN = false ∧ y.isNaN = false ∧ (x = y ∨ x.magnitude = 0 ∧ y.magnitude = 0) := by
  simp [equals, and_assoc]

/-- **Equality is equality of extended reals.** -/
theorem equals_iff_value? (x y : Number) :
    x.equals y ↔ ∃ v, x.value? = some v ∧ y.value? = some v := by
  rw [equals_iff]
  cases hx : x.isNaN with
  | true => simp [value?, hx]
  | false =>
    cases hy : y.isNaN with
    | true => simp [value?, hy]
    | false =>
      simp only [value?, hx, hy, Bool.false_eq_true, if_false, true_and]
      cases hxi : x.isInfinite <;> cases hyi : y.isInfinite <;>
        simp only [Bool.false_eq_true, if_false, if_true, Option.some.injEq, exists_eq_left',
          Extended.finite.injEq, Extended.infinite.injEq, reduceCtorEq, iff_false]
      · rw [signed_units_eq_iff, eq_comm, and_comm]
      · exact fun h => not_same_of_isInfinite hyi hxi (h.imp Eq.symm And.symm)
      · exact not_same_of_isInfinite hxi hyi
      · rw [same_iff_of_isInfinite hxi hyi, eq_comm]

end Number

end ScopeChain

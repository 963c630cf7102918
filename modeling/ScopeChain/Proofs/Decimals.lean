/-
ScopeChain.Proofs.Decimals — the shortest decimal of a magnitude, and its
text.

The search for the shortest decimal asks each point that it tries to read
back, so what it finds reads back, as long as the point it falls back on
does (`magnitude_exact`, `magnitude_shortest`). That nothing shorter reads
back is a matter of order: it tries only the two points next to the exact
value, but whatever reads back on a grid has one of them between itself
and the exact value, and rounding is monotone (`shortest_within`).

`ofChars` reads positional notation. Writing leaves out zeros at the end
of the fraction, so what is read is not the decimal that was written but
an equal one (`ofChars_chars`).
-/
import Mathlib.Data.List.TakeWhile
import ScopeChain.Number.Decimal
import ScopeChain.Proofs.Rounding

namespace ScopeChain

namespace Decimal

open Number

/-! ## 1. Order -/

/-- The value of one decimal is at most that of another. -/
def Le (c d : Decimal) : Prop := c.digits * 10 ^ d.places ≤ d.digits * 10 ^ c.places

theorem magnitude_eq (d : Decimal) : d.magnitude = nearest d.digits (10 ^ d.places) := rfl

theorem pow_ten_pos (k : Nat) : 0 < 10 ^ k := Nat.pow_pos (by decide)

theorem magnitude_mono {c d : Decimal} (h : c.Le d) : c.magnitude ≤ d.magnitude := by
  rw [magnitude_eq, magnitude_eq]
  exact nearest_mono (pow_ten_pos _) (pow_ten_pos _) h

/-- What lies between two decimals that read back alike does so too. -/
theorem magnitude_between {c x d : Decimal} (hcx : c.Le x) (hxd : x.Le d)
    (h : c.magnitude = d.magnitude) : x.magnitude = d.magnitude :=
  Nat.le_antisymm (magnitude_mono hxd) (Nat.le_trans (Nat.le_of_eq h.symm) (magnitude_mono hcx))

/-- Reading depends on the value alone. -/
theorem magnitude_congr {c d : Decimal}
    (h : c.digits * 10 ^ d.places = d.digits * 10 ^ c.places) : c.magnitude = d.magnitude := by
  rw [magnitude_eq, magnitude_eq]
  exact nearest_congr (pow_ten_pos _) (pow_ten_pos _) h

/-! ## 2. The exact decimal -/

/-- A binary place is a decimal place: 2^-1 is 5 tenths. -/
theorem scale_exact (s e N : Nat) :
    s * Nat.pow 2 (e - N) * Nat.pow 5 (N - e) * Nat.pow 2 N =
      s * Nat.pow 2 e * Nat.pow 10 (N - e) := by
  have hpow : 2 ^ (e - N) * 2 ^ N = 2 ^ e * 2 ^ (N - e) := by
    rw [← Nat.pow_add, ← Nat.pow_add]
    congr 1
    omega
  calc s * 2 ^ (e - N) * 5 ^ (N - e) * 2 ^ N
      = s * (2 ^ (e - N) * 2 ^ N) * 5 ^ (N - e) := by ac_rfl
    _ = s * (2 ^ e * 2 ^ (N - e)) * 5 ^ (N - e) := by rw [hpow]
    _ = s * 2 ^ e * (2 ^ (N - e) * 5 ^ (N - e)) := by ac_rfl
    _ = s * 2 ^ e * 10 ^ (N - e) := by rw [← Nat.mul_pow]

theorem magnitude_exact {m : Nat} (hm : m < infinity) : (exact m).magnitude = m := by
  obtain ⟨places, hplaces⟩ : ∃ places, places = 1074 := ⟨_, rfl⟩
  unfold magnitude exact
  dsimp only
  rw [← hplaces]
  exact nearest_units hplaces (pow_ten_pos _) hm
    (scale_exact (significand m) (exponent m) places)

/-! ## 3. The search -/

/-- The point of the grid of step 10^g at a decimal or next below it. -/
def below (d : Decimal) (g : Nat) : Decimal := { d with digits := d.digits / 10 ^ g * 10 ^ g }

/-- The point of the grid of step 10^g next above a decimal. -/
def above (d : Decimal) (g : Nat) : Decimal :=
  { d with digits := d.digits / 10 ^ g * 10 ^ g + 10 ^ g }

theorem onGrid?_eq (m : Nat) (d : Decimal) (g : Nat) :
    onGrid? m d g =
      match (if d.digits - (d.below g).digits < (d.above g).digits - d.digits
        then (d.below g, d.above g) else (d.above g, d.below g)) with
      | (nearer, farther) =>
        if nearer.magnitude = m then some nearer
        else if farther.magnitude = m then some farther
        else none := rfl

/-- What is found on a grid is a point next to the decimal and reads back;
nothing is found only if neither of the two points does. -/
theorem onGrid?_cases (m : Nat) (d : Decimal) (g : Nat) :
    (∃ c, onGrid? m d g = some c ∧ c.magnitude = m ∧ (c = d.below g ∨ c = d.above g)) ∨
      onGrid? m d g = none ∧ (d.below g).magnitude ≠ m ∧ (d.above g).magnitude ≠ m := by
  rw [onGrid?_eq]
  generalize hpair : (if d.digits - (d.below g).digits < (d.above g).digits - d.digits
    then (d.below g, d.above g) else (d.above g, d.below g)) = pair
  have horder : pair = (d.below g, d.above g) ∨ pair = (d.above g, d.below g) := by
    rw [← hpair]
    split
    · exact .inl rfl
    · exact .inr rfl
  rcases horder with rfl | rfl <;> by_cases hbelow : (d.below g).magnitude = m <;>
    by_cases habove : (d.above g).magnitude = m <;> simp [hbelow, habove]

/-- Counting down gives what is found at the largest number at which anything
is found, or the fallback. -/
theorem countDown_cases (find? : Nat → Option Decimal) (last : Decimal) (g : Nat) :
    (countDown find? last g = last ∧ ∀ k, 0 < k → k ≤ g → find? k = none) ∨
      ∃ k, 0 < k ∧ k ≤ g ∧ find? k = some (countDown find? last g) ∧
        ∀ j, k < j → j ≤ g → find? j = none := by
  induction g with
  | zero => exact .inl ⟨rfl, fun k hk hle => absurd hk (by omega)⟩
  | succ g ih =>
    rw [countDown]
    cases hg : find? (g + 1) with
    | some d => exact .inr ⟨g + 1, by omega, Nat.le_refl _, hg, fun j hj hle => by omega⟩
    | none =>
      have hstep : ∀ j, j ≤ g + 1 → j ≠ g + 1 → j ≤ g := fun j hle hne => by omega
      rcases ih with ⟨hlast, hnone⟩ | ⟨k, hpos, hle, hfound, hnone⟩
      · refine .inl ⟨hlast, fun k hk hle => ?_⟩
        by_cases hkg : k = g + 1
        · rw [hkg, hg]
        · exact hnone k hk (hstep k hle hkg)
      · refine .inr ⟨k, hpos, by omega, hfound, fun j hj hle => ?_⟩
        by_cases hjg : j = g + 1
        · rw [hjg, hg]
        · exact hnone j hj (hstep j hle hjg)

/-- How long the exact decimal of a magnitude is to write. -/
def exactLength (m : Nat) : Nat := (Nat.toDigits 10 (exact m).digits).length

theorem shortest_eq (m : Nat) :
    shortest m = countDown (onGrid? m (exact m)) (exact m) (exactLength m - 1) := rfl

/-- The shortest decimal is the exact one if no grid has anything; else it is
the point that reads back on the coarsest grid that has one. -/
theorem shortest_cases (m : Nat) :
    (shortest m = exact m ∧ ∀ g, 0 < g → g < exactLength m → onGrid? m (exact m) g = none) ∨
      ∃ k, 0 < k ∧ (shortest m).magnitude = m ∧
        (shortest m = (exact m).below k ∨ shortest m = (exact m).above k) ∧
        ∀ j, k < j → j < exactLength m → onGrid? m (exact m) j = none := by
  rw [shortest_eq]
  rcases countDown_cases (onGrid? m (exact m)) (exact m) (exactLength m - 1) with
    ⟨hlast, hnone⟩ | ⟨k, hpos, -, hfound, hnone⟩
  · exact .inl ⟨hlast, fun g hg hlt => hnone g hg (by omega)⟩
  · rcases onGrid?_cases m (exact m) k with ⟨c, hc, hmag, hpoint⟩ | ⟨hmiss, -⟩
    · have hshort := Option.some.inj (hfound.symm.trans hc)
      rw [hshort]
      exact .inr ⟨k, hpos, hmag, hpoint, fun j hj hlt => hnone j hj (by omega)⟩
    · rw [hmiss] at hfound
      cases hfound

/-- **The shortest decimal reads back.** -/
theorem magnitude_shortest {m : Nat} (hm : m < infinity) : (shortest m).magnitude = m := by
  rcases shortest_cases m with ⟨hexact, -⟩ | ⟨k, -, hmag, -⟩
  · rw [hexact]
    exact magnitude_exact hm
  · exact hmag

/-! ## 4. Nothing shorter -/

/-- The decimal can be written with `n` significant digits: those after them
are zeros. -/
def Within (d : Decimal) (n : Nat) : Prop := ∃ k e, k < 10 ^ n ∧ d.digits = k * 10 ^ e

theorem Within.mono {d : Decimal} {n n' : Nat} (h : d.Within n) (hn : n ≤ n') : d.Within n' := by
  obtain ⟨k, e, hk, hd⟩ := h
  exact ⟨k, e, Nat.lt_of_lt_of_le hk (Nat.pow_le_pow_right (by decide) hn), hd⟩

theorem within_of_lt {d : Decimal} {n : Nat} (h : d.digits < 10 ^ n) : d.Within n :=
  ⟨d.digits, 0, h, by rw [Nat.pow_zero, Nat.mul_one]⟩

/-- A grid of a larger step has points of fewer digits. The point above may be
a power of ten, which needs only one. -/
theorem within_onGrid {d c : Decimal} {g n : Nat} (hd : d.digits < 10 ^ (n + 1 + g))
    (hc : c = d.below g ∨ c = d.above g) : c.Within (n + 1) := by
  have hquot : d.digits / 10 ^ g < 10 ^ (n + 1) := by
    rw [Nat.pow_add] at hd
    exact Nat.div_lt_of_lt_mul (by rwa [Nat.mul_comm])
  rcases hc with rfl | rfl
  · exact ⟨_, g, hquot, rfl⟩
  · have habove : (d.above g).digits = (d.digits / 10 ^ g + 1) * 10 ^ g :=
      (Nat.succ_mul _ _).symm
    rcases Nat.lt_or_eq_of_le (Nat.succ_le_of_lt hquot) with hlt | heq
    · exact ⟨_, g, hlt, habove⟩
    · refine ⟨1, n + 1 + g, Nat.one_lt_pow (by omega) (by decide), ?_⟩
      have hcarry : d.digits / 10 ^ g + 1 = 10 ^ (n + 1) := heq
      rw [habove, hcarry, ← Nat.pow_add, Nat.one_mul]

/-- Between a decimal and any other of few significant digits lies a point of a
coarse grid, and one that is next to the decimal. -/
theorem between_onGrid {c d : Decimal} {g n : Nat} (hc : c.Within (n + 1))
    (hd : 10 ^ (n + g) ≤ d.digits) :
    c.Le (d.below g) ∧ (d.below g).Le d ∨ d.Le (d.above g) ∧ (d.above g).Le c := by
  obtain ⟨k, e, hk, hdigits⟩ := hc
  have hbelow : (d.below g).Le d := Nat.mul_le_mul_right _ (Nat.div_mul_le_self _ _)
  have habove : d.Le (d.above g) :=
    Nat.mul_le_mul_right _ (Nat.le_of_lt (Nat.lt_div_mul_add (pow_ten_pos g)))
  have hlead : 10 ^ n ≤ d.digits / 10 ^ g := by
    rw [Nat.le_div_iff_mul_le (pow_ten_pos g), ← Nat.pow_add]
    exact hd
  generalize hquot : d.digits / 10 ^ g = quot at hlead
  have hc : ∀ p, c.digits * 10 ^ p = k * 10 ^ (e + p) := by
    intro p
    rw [hdigits, Nat.mul_assoc, ← Nat.pow_add]
  rcases Nat.lt_or_ge (e + d.places) (g + c.places) with hlt | hge
  · -- the other is below the leading digit of the decimal
    refine .inl ⟨?_, hbelow⟩
    show c.digits * 10 ^ d.places ≤ d.digits / 10 ^ g * 10 ^ g * 10 ^ c.places
    calc c.digits * 10 ^ d.places
        = k * 10 ^ (e + d.places) := hc _
      _ ≤ 10 ^ (n + 1) * 10 ^ (e + d.places) := Nat.mul_le_mul_right _ (Nat.le_of_lt hk)
      _ = 10 ^ (n + 1 + (e + d.places)) := (Nat.pow_add _ _ _).symm
      _ ≤ 10 ^ (n + (g + c.places)) := Nat.pow_le_pow_right (by decide) (by omega)
      _ = 10 ^ n * 10 ^ g * 10 ^ c.places := by rw [Nat.pow_add, Nat.pow_add, Nat.mul_assoc]
      _ ≤ d.digits / 10 ^ g * 10 ^ g * 10 ^ c.places := by
          rw [hquot]
          exact Nat.mul_le_mul_right _ (Nat.mul_le_mul_right _ hlead)
  · -- the other is on the grid itself
    obtain ⟨t, ht⟩ := Nat.exists_eq_add_of_le hge
    have hpoint : c.digits * 10 ^ d.places = k * 10 ^ t * 10 ^ g * 10 ^ c.places := by
      rw [hc, ht, Nat.pow_add, Nat.pow_add]
      ac_rfl
    rcases Nat.lt_or_ge quot (k * 10 ^ t) with hhigh | hlow
    · refine .inr ⟨habove, ?_⟩
      show (d.digits / 10 ^ g * 10 ^ g + 10 ^ g) * 10 ^ c.places ≤ c.digits * 10 ^ d.places
      rw [hpoint, hquot, ← Nat.succ_mul]
      exact Nat.mul_le_mul_right _ (Nat.mul_le_mul_right _ hhigh)
    · refine .inl ⟨?_, hbelow⟩
      show c.digits * 10 ^ d.places ≤ d.digits / 10 ^ g * 10 ^ g * 10 ^ c.places
      rw [hpoint, hquot]
      exact Nat.mul_le_mul_right _ (Nat.mul_le_mul_right _ hlow)

theorem digits_exact_zero : (exact 0).digits = 0 := by
  have hsig : significand 0 = 0 := by decide
  unfold exact
  dsimp only
  rw [hsig, Nat.zero_mul, Nat.zero_mul]

/-- Only zero is read from a decimal without digits. -/
theorem magnitude_of_digits_zero {c : Decimal} (hc : c.digits = 0) : c.magnitude = 0 := by
  have hexact : (exact 0).magnitude = 0 := magnitude_exact (by decide)
  rw [← hexact]
  refine magnitude_congr ?_
  rw [hc, digits_exact_zero, Nat.zero_mul, Nat.zero_mul]

/-- Where a decimal of few digits reads back, something is found on the coarse
grid. -/
theorem onGrid?_ne_none {c : Decimal} {m g n : Nat} (hm : m < infinity) (hc : c.magnitude = m)
    (hn : c.Within (n + 1)) (hd : 10 ^ (n + g) ≤ (exact m).digits) :
    onGrid? m (exact m) g ≠ none := by
  have hexact := magnitude_exact hm
  have hsame : c.magnitude = (exact m).magnitude := hc.trans hexact.symm
  rcases onGrid?_cases m (exact m) g with ⟨d, hfound, -⟩ | ⟨-, hbelow, habove⟩
  · rw [hfound]
    exact Option.some_ne_none d
  · rcases between_onGrid hn hd with ⟨h1, h2⟩ | ⟨h1, h2⟩
    · exact absurd ((magnitude_between h1 h2 hsame).trans hexact) hbelow
    · exact absurd ((magnitude_between h1 h2 hsame.symm).trans hc) habove

/-- Zero is written as it is: no grid is tried. -/
theorem shortest_of_digits_zero {m : Nat} (h : (exact m).digits = 0) : shortest m = exact m := by
  rw [shortest_eq, exactLength, h, Nat.toDigits_zero]
  rfl

/-- A number is at least the power of ten under its leading digit. -/
theorem pow_le_of_lt_length {n k : Nat} (hn : n ≠ 0) (hk : k < (Nat.toDigits 10 n).length) :
    10 ^ k ≤ n := by
  rcases Nat.eq_zero_or_pos k with rfl | hpos
  · exact Nat.pos_of_ne_zero hn
  · refine Nat.le_of_not_lt fun hsmall => ?_
    have hle := (Nat.length_toDigits_le_iff (by decide) hpos).mpr hsmall
    omega

theorem lt_pow_length (n : Nat) : n < 10 ^ (Nat.toDigits 10 n).length :=
  (Nat.length_toDigits_le_iff (by decide) Nat.length_toDigits_pos).mp (Nat.le_refl _)

/-- A magnitude other than zero is not read from a decimal without digits. -/
theorem Within.pos {c : Decimal} {n : Nat} (hn : c.Within n) (hc : c.magnitude ≠ 0) : 0 < n := by
  obtain ⟨k, e, hk, hdigits⟩ := hn
  refine Nat.pos_of_ne_zero fun hnone => hc (magnitude_of_digits_zero ?_)
  rw [hnone, Nat.pow_zero] at hk
  rw [hdigits, show k = 0 by omega, Nat.zero_mul]

/-- **Nothing shorter reads back.** If a decimal of `n` significant digits reads
back as a magnitude, the shortest decimal has no more than `n`. -/
theorem shortest_within {c : Decimal} {m n : Nat} (hm : m < infinity) (hc : c.magnitude = m)
    (hn : c.Within n) : (shortest m).Within n := by
  rcases Nat.eq_zero_or_pos (exact m).digits with hzero | hpos
  · rw [shortest_of_digits_zero hzero]
    exact within_of_lt (by rw [hzero]; exact pow_ten_pos n)
  have hne : c.magnitude ≠ 0 := by
    intro hnone
    rw [← hc, hnone, digits_exact_zero] at hpos
    exact absurd hpos (Nat.lt_irrefl 0)
  obtain ⟨n, rfl⟩ := Nat.exists_eq_add_of_lt (hn.pos hne)
  rw [Nat.zero_add] at hn ⊢
  have hlength : (exact m).digits < 10 ^ exactLength m := lt_pow_length _
  -- on a grid that is coarse enough for n + 1 digits something is found
  have hfinds : ∀ g, n + g < exactLength m → onGrid? m (exact m) g ≠ none := fun g hg =>
    onGrid?_ne_none hm hc hn (pow_le_of_lt_length hpos.ne' hg)
  rcases shortest_cases m with ⟨hexact, hnone⟩ | ⟨k, hkpos, -, hpoint, hnone⟩
  · have hfits : exactLength m ≤ n + 1 := Nat.le_of_not_lt fun hlong =>
      hfinds (exactLength m - (n + 1)) (by omega) (hnone _ (by omega) (by omega))
    rw [hexact]
    exact (within_of_lt hlength).mono hfits
  · have hcoarse : exactLength m ≤ n + 1 + k := Nat.le_of_not_lt fun hlong =>
      hfinds (exactLength m - (n + 1)) (by omega) (hnone _ (by omega) (by omega))
    exact within_onGrid
      (Nat.lt_of_lt_of_le hlength (Nat.pow_le_pow_right (by decide) hcoarse)) hpoint

/-! ## 5. Reading positional notation -/

/-- The decimal that a text in positional notation denotes, with as many places
as characters after the point. -/
def ofChars (cs : List Char) : Decimal :=
  let whole := cs.takeWhile (· ≠ '.')
  let after := (cs.dropWhile (· ≠ '.')).drop 1
  ⟨Nat.ofDigitChars 10 (whole ++ after) 0, after.length⟩

theorem isDigit_of_mem_fraction {places rest : Nat} (h : rest < 10 ^ places) :
    ∀ c ∈ fraction places rest, c.isDigit := by
  induction places generalizing rest with
  | zero => simp [fraction]
  | succ p ih =>
    rw [fraction]
    split
    · simp
    · have hlead : rest / 10 ^ p < 10 := Nat.div_lt_of_lt_mul (by rwa [← Nat.pow_succ])
      intro c hc
      rcases List.mem_cons.mp hc with rfl | hc
      · rw [Nat.isDigit_digitChar]
        exact decide_eq_true hlead
      · exact ih (Nat.mod_lt _ (pow_ten_pos p)) c hc

/-- Digits in front of others: if `v` over `a` is `rem` over `b`, then `lead` wholes
and `v` over `a` are as many wholes and `rem` over `b`. -/
theorem append_digits_mul {a b lead v rem : Nat} (h : v * b = rem * a) :
    (a * lead + v) * b = (b * lead + rem) * a := by
  have hlead : a * lead * b = b * lead * a := by
    rw [Nat.mul_comm a lead, Nat.mul_comm b lead, Nat.mul_right_comm]
  rw [Nat.add_mul, Nat.add_mul, h, hlead]

/-- What the digits of a fraction denote: all of it, with fewer places. -/
theorem ofDigitChars_fraction {places rest : Nat} (h : rest < 10 ^ places) :
    Nat.ofDigitChars 10 (fraction places rest) 0 * 10 ^ places =
      rest * 10 ^ (fraction places rest).length := by
  induction places generalizing rest with
  | zero =>
    rw [Nat.pow_zero] at h
    have hzero : rest = 0 := by omega
    simp [fraction, hzero, Nat.ofDigitChars_nil]
  | succ p ih =>
    rw [fraction]
    split
    · next hzero => simp [hzero, Nat.ofDigitChars_nil]
    · have hlead : rest / 10 ^ p < 10 := Nat.div_lt_of_lt_mul (by rwa [← Nat.pow_succ])
      have hih := ih (Nat.mod_lt rest (pow_ten_pos p))
      have hsplit := Nat.div_add_mod rest (10 ^ p)
      show Nat.ofDigitChars 10 (Nat.digitChar (rest / 10 ^ p) :: fraction p (rest % 10 ^ p)) 0 * _ =
        rest * 10 ^ (fraction p (rest % 10 ^ p)).length.succ
      rw [Nat.ofDigitChars_cons_digitChar_of_lt_ten hlead, Nat.ofDigitChars_eq_ofDigitChars_zero]
      generalize fraction p (rest % 10 ^ p) = cs at hih ⊢
      generalize Nat.ofDigitChars 10 cs 0 = v at hih ⊢
      show (10 ^ cs.length * (10 * 0 + rest / 10 ^ p) + v) * (10 ^ p * 10) =
        rest * (10 ^ cs.length * 10)
      rw [Nat.mul_zero, Nat.zero_add, ← Nat.mul_assoc, ← Nat.mul_assoc, append_digits_mul hih,
        hsplit]

theorem ofChars_whole {whole : List Char} (hw : ∀ c ∈ whole, c ≠ '.') :
    ofChars whole = ⟨Nat.ofDigitChars 10 whole 0, 0⟩ := by
  have htake : whole.takeWhile (· ≠ '.') = whole :=
    List.takeWhile_eq_self_iff.mpr fun c hc => decide_eq_true (hw c hc)
  have hdrop : whole.dropWhile (· ≠ '.') = [] :=
    List.dropWhile_eq_nil_iff.mpr fun c hc => decide_eq_true (hw c hc)
  unfold ofChars
  dsimp only
  rw [htake, hdrop, List.drop_nil, List.append_nil, List.length_nil]

theorem ofChars_point {whole : List Char} (hw : ∀ c ∈ whole, c ≠ '.') (after : List Char) :
    ofChars (whole ++ '.' :: after) =
      ⟨Nat.ofDigitChars 10 (whole ++ after) 0, after.length⟩ := by
  have hw' : ∀ c ∈ whole, decide (c ≠ '.') = true := fun c hc => decide_eq_true (hw c hc)
  unfold ofChars
  dsimp only
  rw [List.takeWhile_append_of_pos hw', List.dropWhile_append_of_pos hw']
  simp

theorem ne_point_of_isDigit {c : Char} (hc : c.isDigit) : c ≠ '.' := by
  rintro rfl
  cases hc

/-- The digits before the point. -/
def whole (d : Decimal) : List Char := Nat.toDigits 10 (d.digits / 10 ^ d.places)

/-- The digits after the point. -/
def after (d : Decimal) : List Char := fraction d.places (d.digits % 10 ^ d.places)

theorem chars_eq (d : Decimal) :
    d.chars = if d.after = [] then d.whole else d.whole ++ '.' :: d.after := by
  have hwhole : Nat.toDigits 10 (d.digits / Nat.pow 10 d.places) = d.whole := rfl
  have hafter : fraction d.places (d.digits % Nat.pow 10 d.places) = d.after := rfl
  unfold chars
  dsimp only
  rw [hwhole, hafter]
  cases d.after <;> rfl

theorem isDigit_of_mem_whole (d : Decimal) : ∀ c ∈ d.whole, c.isDigit := fun _ hc =>
  Nat.isDigit_of_mem_toDigits (by decide) (by decide) hc

theorem isDigit_of_mem_after (d : Decimal) : ∀ c ∈ d.after, c.isDigit :=
  isDigit_of_mem_fraction (Nat.mod_lt _ (pow_ten_pos _))

theorem ofChars_chars_eq (d : Decimal) :
    ofChars d.chars = ⟨Nat.ofDigitChars 10 (d.whole ++ d.after) 0, d.after.length⟩ := by
  have hw : ∀ c ∈ d.whole, c ≠ '.' := fun c hc => ne_point_of_isDigit (d.isDigit_of_mem_whole c hc)
  rw [chars_eq]
  split
  · next hnone => rw [ofChars_whole hw, hnone, List.append_nil, List.length_nil]
  · exact ofChars_point hw _

/-- **What is written reads as the same value.** -/
theorem ofChars_chars (d : Decimal) :
    (ofChars d.chars).digits * 10 ^ d.places = d.digits * 10 ^ (ofChars d.chars).places := by
  have hafter : Nat.ofDigitChars 10 d.after 0 * 10 ^ d.places =
      d.digits % 10 ^ d.places * 10 ^ d.after.length :=
    ofDigitChars_fraction (Nat.mod_lt _ (pow_ten_pos _))
  have hwhole : Nat.ofDigitChars 10 d.whole 0 = d.digits / 10 ^ d.places :=
    Nat.ofDigitChars_ten_toDigits
  have hsplit := Nat.div_add_mod d.digits (10 ^ d.places)
  rw [ofChars_chars_eq, Nat.ofDigitChars_append, hwhole, Nat.ofDigitChars_eq_ofDigitChars_zero]
  show (10 ^ d.after.length * (d.digits / 10 ^ d.places) + Nat.ofDigitChars 10 d.after 0) *
    10 ^ d.places = d.digits * 10 ^ d.after.length
  rw [append_digits_mul hafter, hsplit]

theorem magnitude_ofChars_chars (d : Decimal) : (ofChars d.chars).magnitude = d.magnitude :=
  magnitude_congr d.ofChars_chars

/-- A decimal is written in digits, with at most a point among them. -/
theorem mem_chars {d : Decimal} {c : Char} (hc : c ∈ d.chars) : c.isDigit ∨ c = '.' := by
  rw [chars_eq] at hc
  split at hc
  · exact .inl (d.isDigit_of_mem_whole c hc)
  · rcases List.mem_append.mp hc with hc | hc
    · exact .inl (d.isDigit_of_mem_whole c hc)
    · rcases List.mem_cons.mp hc with hc | hc
      · exact .inr hc
      · exact .inl (d.isDigit_of_mem_after c hc)

/-- A decimal begins with a digit. -/
theorem chars_eq_cons (d : Decimal) : ∃ c cs, d.chars = c :: cs ∧ c.isDigit := by
  obtain ⟨c, cs, hwhole⟩ := List.exists_cons_of_ne_nil
    (Nat.toDigits_ne_nil (n := d.digits / 10 ^ d.places) (b := 10))
  have hc : c.isDigit := d.isDigit_of_mem_whole c (by rw [whole, hwhole]; exact List.mem_cons_self)
  rw [chars_eq, whole, hwhole]
  split
  · exact ⟨c, cs, rfl, hc⟩
  · exact ⟨c, cs ++ '.' :: d.after, rfl, hc⟩

end Decimal

end ScopeChain

/-
ScopeChain.Proofs.HostValues — what a host value becomes is what it means.

A host value and a value of the language are compared by what they mean:
nothing, a truth value, an extended real or a text (`Meaning`). A NaN means
none of these. Conversion keeps the meaning (`meaning?_ofHost`), and values
of the language are equal if they mean the same (`equals_iff_meaning?`).
Together that is an equality for host values of all kinds, also across
kinds.

All that is to be shown of the kinds one by one is that integers are
converted without loss. 32 bits are fewer than 53, so an integer rounds to
a number of its own value (`toRat_ofInt`), and that number is written as
the integer is (`text_ofInt`).
-/
import ScopeChain.Proofs.NumberText
import ScopeChain.Value.Host

namespace ScopeChain

/-! ## 1. Integers as numbers -/

namespace Number

theorem magnitude_ofInt {i : ℤ} (hi : i.natAbs < 2 ^ 53) :
    (ofInt i).magnitude = nearest i.natAbs 1 :=
  magnitude_ofParts _ (nearest_natCast hi).1.le

theorem negative_ofInt {i : ℤ} (hi : i.natAbs < 2 ^ 53) : (ofInt i).negative = decide (i < 0) :=
  negative_ofParts _ (nearest_natCast hi).1.le

theorem ofInt_lt_infinity {i : ℤ} (hi : i.natAbs < 2 ^ 53) : (ofInt i).magnitude < infinity := by
  rw [magnitude_ofInt hi]
  exact (nearest_natCast hi).1

/-- **The number of an integer has its value.** -/
theorem toRat_ofInt {i : ℤ} (hi : i.natAbs < 2 ^ 53) : (ofInt i).toRat = i := by
  rw [toRat, negative_ofInt hi, magnitude_ofInt hi, (nearest_natCast hi).2, signed,
    Nat.cast_natAbs]
  by_cases hneg : i < 0
  · rw [if_pos (decide_eq_true hneg), abs_of_neg hneg, Int.cast_neg, neg_neg]
  · rw [if_neg (by simpa using hneg), abs_of_nonneg (not_lt.mp hneg)]

theorem toString_int (i : ℤ) :
    toString i = String.ofList ((if i < 0 then ['-'] else []) ++ Nat.toDigits 10 i.natAbs) := by
  cases i with
  | ofNat n =>
    have hneg : ¬ Int.ofNat n < 0 := not_lt.mpr (Int.natCast_nonneg n)
    rw [if_neg hneg]
    exact Nat.repr_eq_ofList_toDigits
  | negSucc n =>
    rw [if_pos (Int.negSucc_lt_zero n)]
    show "-" ++ Nat.repr (n + 1) = String.ofList ('-' :: Nat.toDigits 10 (n + 1))
    have hsplit : '-' :: Nat.toDigits 10 (n + 1) = ['-'] ++ Nat.toDigits 10 (n + 1) := rfl
    rw [Nat.repr_eq_ofList_toDigits, hsplit, String.ofList_append]

/-- And it is written as the integer is. -/
theorem text_ofInt {i : ℤ} (hi : i.natAbs + 1 < 2 ^ 53) : (ofInt i).text = toString i := by
  have hlt := Nat.lt_of_succ_lt hi
  rw [text_eq (ofInt_lt_infinity hlt), numeral, magnitude_ofInt hlt, negative_ofInt hlt,
    Decimal.text_numeral, Decimal.chars_shortest_nearest hi, toString_int]
  simp only [decide_eq_true_eq]

end Number

/-! ## 2. Meanings -/

/-- What a value means to host and language alike. -/
inductive Meaning where
  | nothing
  | truth (b : Bool)
  | real (q : ℚ)
  | infinite (negative : Bool)
  | text (s : String)

/-- It is a number that is meant. -/
def Meaning.isNumber : Meaning → Bool
  | real _ => true
  | infinite _ => true
  | nothing => false
  | truth _ => false
  | text _ => false

namespace Number

/-- The extended real that a number stands for, the two zeros alike; a NaN stands for
none. -/
def meaning? (x : Number) : Option Meaning :=
  if x.isNaN then none
  else if x.isInfinite then some (.infinite x.negative)
  else some (.real x.toRat)

theorem meaning?_of_lt {x : Number} (hx : x.magnitude < infinity) :
    x.meaning? = some (.real x.toRat) := by
  have hnan : x.isNaN = false := not_isNaN_iff.mpr hx.le
  have hinf : x.isInfinite = false := beq_eq_false_iff_ne.mpr hx.ne
  rw [meaning?, hnan, hinf]
  rfl

/-- The meaning of a multiple of 2^-1074, or of an infinity. -/
def Extended.meaning : Extended → Meaning
  | .finite k => .real (k / 2 ^ 1074)
  | .infinite negative => .infinite negative

theorem Extended.meaning_injective : Function.Injective Extended.meaning := by
  intro v w h
  cases v <;> cases w <;> simp only [meaning, Meaning.real.injEq, Meaning.infinite.injEq,
    reduceCtorEq] at h
  · rw [div_left_inj' (pow_ne_zero _ two_ne_zero), Int.cast_inj] at h
    rw [h]
  · rw [h]

theorem meaning?_eq_map (x : Number) : x.meaning? = x.value?.map Extended.meaning := by
  unfold meaning? value?
  split
  · rfl
  · split
    · rfl
    · rw [Option.map_some, Extended.meaning, toRat, signed, absolute]
      cases x.negative <;> simp [neg_div]

theorem equals_iff_meaning? (x y : Number) :
    x.equals y ↔ ∃ d, x.meaning? = some d ∧ y.meaning? = some d := by
  rw [equals_iff_value?, meaning?_eq_map, meaning?_eq_map]
  constructor
  · rintro ⟨v, hx, hy⟩
    exact ⟨v.meaning, by rw [hx, Option.map_some], by rw [hy, Option.map_some]⟩
  · rintro ⟨d, hx, hy⟩
    obtain ⟨v, hv, rfl⟩ := Option.map_eq_some_iff.mp hx
    obtain ⟨w, hw, hvw⟩ := Option.map_eq_some_iff.mp hy
    rw [Extended.meaning_injective hvw] at hw
    exact ⟨v, hv, hw⟩

end Number

namespace Value

/-- What a value of the language means. -/
def meaning? : Value → Option Meaning
  | nil => some .nothing
  | boolean b => some (.truth b)
  | number x => x.meaning?
  | text s => some (.text s)

end Value

namespace Number

theorem isNumber_of_meaning? {x : Number} {d : Meaning} (h : x.meaning? = some d) :
    d.isNumber := by
  unfold meaning? at h
  split at h
  · cases h
  · split at h <;> cases h <;> rfl

theorem meaning?_ne {x : Number} {d : Meaning} (hd : ¬ d.isNumber) : x.meaning? ≠ some d :=
  fun h => hd (isNumber_of_meaning? h)

end Number

namespace Value

/-- **Equal values are those of the same meaning.** -/
theorem equals_iff_meaning? (v w : Value) :
    v.equals w ↔ ∃ d, v.meaning? = some d ∧ w.meaning? = some d := by
  cases v <;> cases w
  case boolean.boolean b c => simp [equals, meaning?, @eq_comm _ b c]
  case number.number x y => exact Number.equals_iff_meaning? x y
  case text.text s t => simp [equals, meaning?, @eq_comm _ s t]
  all_goals simp [equals, meaning?, Number.meaning?_ne, Meaning.isNumber]

end Value

namespace HostValue

/-- What a host value means: an integer itself, and an option what it holds. -/
def meaning? : HostValue → Option Meaning
  | unit => some .nothing
  | boolean b => some (.truth b)
  | float x => x.meaning?
  | signed i => some (.real i.toInt)
  | unsigned n => some (.real n.toNat)
  | text s => some (.text s)
  | value v => v.meaning?
  | absent => some .nothing
  | present content => content.meaning?

end HostValue

namespace Value

open HostValue

/-- **Conversion keeps the meaning.** -/
theorem meaning?_ofHost (x : HostValue) : (ofHost x).meaning? = x.meaning? := by
  induction x with
  | signed i =>
    have hlow := i.le_toInt
    have hhigh := i.toInt_lt
    have hi : i.toInt.natAbs < 2 ^ 53 := by omega
    show (Number.ofInt i.toInt).meaning? = _
    rw [Number.meaning?_of_lt (Number.ofInt_lt_infinity hi), Number.toRat_ofInt hi]
    rfl
  | unsigned n =>
    have hn := n.toNat_lt
    have hi : (n.toNat : ℤ).natAbs < 2 ^ 53 := by omega
    show (Number.ofInt n.toNat).meaning? = _
    rw [Number.meaning?_of_lt (Number.ofInt_lt_infinity hi), Number.toRat_ofInt hi]
    rfl
  | present x ih => exact ih
  | _ => rfl

/-! ## 3. Conversion -/

theorem ofHost_iterate_present (n : Nat) (x : HostValue) : ofHost (present^[n] x) = ofHost x := by
  induction n with
  | zero => rfl
  | succ n ih =>
    rw [Function.iterate_succ_apply']
    exact ih

/-- **Host values are converted without loss, and only options collapse.** -/
theorem host_conversion_exact :
    (∀ n : Nat, ofHost (present^[n] absent) = nil) ∧
    (∀ (n : Nat) (x : HostValue), ofHost (present^[n] x) = ofHost x) ∧
    (∀ x y : HostValue, (ofHost x).equals (ofHost y) ↔
      ∃ d, x.meaning? = some d ∧ y.meaning? = some d) ∧
    (∀ i : Int32, (ofHost (.signed i)).display = toString i.toInt) ∧
    (∀ n : UInt32, (ofHost (.unsigned n)).display = toString n.toNat) := by
  refine ⟨fun n => ofHost_iterate_present n absent, ofHost_iterate_present, fun x y => ?_,
    fun i => ?_, fun n => ?_⟩
  · rw [equals_iff_meaning?, meaning?_ofHost, meaning?_ofHost]
  · have hlow := i.le_toInt
    have hhigh := i.toInt_lt
    exact Number.text_ofInt (by omega)
  · have hn := n.toNat_lt
    exact Number.text_ofInt (by omega)

end Value

end ScopeChain

import Mathlib.Algebra.Order.Field.Basic
import Mathlib.Algebra.Order.Ring.Abs
import Mathlib.Data.Rat.Cast.Order
import Mathlib.Tactic.FieldSimp
import Mathlib.Tactic.Linarith
import Mathlib.Tactic.MkIffOfInductiveProp
import Mathlib.Tactic.Ring
import Lox.Proofs.Rounding

/-!
# The nearest number

A finite binary64 number has a rational value: its significand times a power of two, with a sign. A
rational that is not negative is rounded to the number whose value is nearest to it, of two that are
equally near to the one with the even significand, and to infinity from 2^1024 - 2^970 on, which is
half way between the greatest finite value and the power of two that comes next.

Results:
* `value_eq`: the value of a number is that of its magnitude, as `units` counts it.
* `rounds_iff_between`: the interval of a magnitude, told in values.
* `Between.le_iff_of_even`, `Between.le_iff_of_odd`: a midpoint goes to the even one of its sides.
* `roundsTo_iff`: a ratio is rounded to one number only, and `nearest` computes its magnitude.
* `RoundsTo.infinite_iff`, `RoundsTo.zero_iff`, `RoundsTo.ordered`: both ends, and that a greater
  rational is rounded to no smaller number.
-/
namespace Lox
namespace Binary64

/-! ## Values -/

/-- The eleven bits behind the sign. -/
def exponentField (x : Binary64) : Nat := x.bits.toNat / 2 ^ 52 % 2 ^ 11

/-- The last 52 bits. -/
def fractionField (x : Binary64) : Nat := x.bits.toNat % 2 ^ 52

/-- The significand as a whole number. Its leading bit is not stored, and the subnormal numbers
have none. -/
def significand (x : Binary64) : Nat :=
  if x.exponentField = 0 then x.fractionField else 2 ^ 52 + x.fractionField

/-- The value of a finite number. -/
def value (x : Binary64) : ℚ :=
  let size : ℚ := x.significand * 2 ^ max x.exponentField 1 / 2 ^ 1075
  if x.isNegative then -size else size

/-- The value of the number `+m`. That of infinity is the power of two that comes next to the finite
values. -/
def quantity (m : Nat) : ℚ := units m / 2 ^ 1074

theorem quantity_strictMono : StrictMono quantity := by
  intro m n h
  have hcast : (units m : ℚ) < units n := Nat.cast_lt.2 (units_lt_units h)
  exact div_lt_div_of_pos_right hcast (by positivity)

theorem quantity_nonneg (m : Nat) : 0 ≤ quantity m := by
  unfold quantity
  positivity

theorem quantity_zero : quantity 0 = 0 := by
  have hunits : units 0 = 0 := by decide
  rw [quantity, hunits, Nat.cast_zero, zero_div]

theorem quantity_one : quantity 1 = 1 / 2 ^ 1074 := by
  have hunits : units 1 = 1 := by decide
  rw [quantity, hunits, Nat.cast_one]

theorem exponentField_eq (x : Binary64) : x.exponentField = x.magnitude / 2 ^ 52 := by
  simp only [exponentField, magnitude, Nat.pow_eq]
  omega

theorem fractionField_eq (x : Binary64) : x.fractionField = x.magnitude % 2 ^ 52 := by
  simp only [fractionField, magnitude, Nat.pow_eq]
  omega

theorem significand_even_iff (x : Binary64) : Even x.significand ↔ x.magnitude % 2 = 0 := by
  rw [Nat.even_iff, significand, fractionField_eq]
  split <;> omega

theorem units_magnitude (x : Binary64) :
    2 * units x.magnitude = x.significand * 2 ^ max x.exponentField 1 := by
  rw [significand, exponentField_eq, fractionField_eq]
  generalize x.magnitude = m
  simp only [units, Nat.pow_eq]
  by_cases hlow : m < 2 ^ 52
  · have hexp : m / 2 ^ 52 = 0 := Nat.div_eq_of_lt hlow
    rw [if_pos hlow, hexp, if_pos rfl, Nat.mod_eq_of_lt hlow, Nat.max_eq_right (Nat.zero_le 1),
      pow_one, Nat.mul_comm]
  · have hexp : max (m / 2 ^ 52) 1 = m / 2 ^ 52 - 1 + 1 := by omega
    rw [if_neg hlow, if_neg (by omega), hexp, pow_succ]
    ring

theorem value_eq (x : Binary64) :
    x.value = if x.isNegative then -quantity x.magnitude else quantity x.magnitude := by
  have hcast : (2 : ℚ) * units x.magnitude = x.significand * 2 ^ max x.exponentField 1 := by
    exact_mod_cast units_magnitude x
  have hsize : (x.significand * 2 ^ max x.exponentField 1 / 2 ^ 1075 : ℚ) =
      quantity x.magnitude := by
    rw [← hcast, quantity, pow_succ _ 1074]
    field_simp
  simp only [value, hsize]

theorem value_of_negative {x : Binary64} (h : x.isNegative = true) :
    x.value = -quantity x.magnitude := by rw [value_eq, if_pos h]

theorem bits_of_positive {x : Binary64} (h : x.isNegative = false) :
    x.bits.toNat = x.magnitude := by
  have hsmall := of_decide_eq_false h
  exact (Nat.mod_eq_of_lt (Nat.lt_of_not_le hsmall)).symm

theorem value_of_positive {x : Binary64} (h : x.isNegative = false) :
    x.value = quantity x.magnitude := by rw [value_eq, h, if_neg Bool.false_ne_true]

/-! ## Finite magnitudes -/

theorem value_ofMagnitude {m : Nat} (h : m ≤ infinity) :
    (ofMagnitude false m).value = quantity m := by
  rw [value_of_positive (isNegative_ofMagnitude h), magnitude_ofMagnitude h]

/-- The midpoint behind the last of the numbers that have the same exponent. -/
theorem midpoint_full (step : Nat) :
    quantity (step * 2 ^ 52 + (2 ^ 53 - 1)) + quantity (step * 2 ^ 52 + 2 ^ 53) =
      (2 ^ 54 - 1) * 2 ^ step / 2 ^ 1074 := by
  have hlast := @units_steps step (2 ^ 53 - 1) (by decide) (.inr (by decide))
  have hnext := @units_steps step (2 ^ 53) (by decide) (.inr (by decide))
  simp only [Nat.pow_eq] at hlast hnext
  rw [quantity, quantity, ← add_div, hlast, hnext]
  generalize (2 : ℚ) ^ 1074 = scale
  push_cast
  ring

theorem midpoint_first : quantity 0 + quantity (0 + 1) = 2 * (1 / 2 ^ 1075) := by
  rw [quantity_zero, quantity_one, zero_add, pow_succ _ 1074]
  field_simp

theorem midpoint_last : quantity (infinity - 1) + quantity infinity = 2 * (2 ^ 1024 - 2 ^ 970) := by
  have hsteps := midpoint_full 2045
  have hinfinity : 2045 * 2 ^ 52 + 2 ^ 53 = infinity := by decide
  have hbefore : 2045 * 2 ^ 52 + (2 ^ 53 - 1) = infinity - 1 := by decide
  have hpower : (2 : ℚ) ^ 2045 = 2 ^ 970 * 2 * 2 ^ 1074 := by
    rw [← pow_succ, ← pow_add]
  have hlast : (2 : ℚ) ^ 1024 = 2 ^ 54 * 2 ^ 970 := pow_add 2 54 970
  have hne : (2 : ℚ) ^ 1074 ≠ 0 := by positivity
  rw [hinfinity, hbefore, hpower, ← mul_assoc, mul_div_cancel_right₀ _ hne] at hsteps
  rw [hsteps, hlast]
  generalize (2 : ℚ) ^ 970 = gap
  ring

/-! ## The interval of a magnitude -/

attribute [mk_iff rounds_iff_bounds] Rounds

/-- The rational lies between the midpoints to the two neighbours of a magnitude, and off them if
the magnitude is odd. -/
@[mk_iff between_iff_bounds]
structure Between (q : ℚ) (m : Nat) : Prop where
  low : quantity (m - 1) + quantity m ≤ 2 * q
  high : 2 * q ≤ quantity m + quantity (m + 1)
  inner : m % 2 = 1 →
    quantity (m - 1) + quantity m < 2 * q ∧ 2 * q < quantity m + quantity (m + 1)

section Ratios

variable {n d k k' : Nat} (hd : 0 < d)
include hd

-- The exponents are variables here, so that no step computes the powers.
theorem midpoint_scaled (s : Nat) : ((s * d : Nat) : ℚ) = s / 2 ^ k * (d * 2 ^ k) := by
  have hpos : (0 : ℚ) < d := Nat.cast_pos.2 hd
  push_cast
  field_simp

theorem ratio_scaled (hk : k' = k + 1) :
    ((n * Nat.pow 2 k' : Nat) : ℚ) = 2 * (n / d) * (d * 2 ^ k) := by
  have hpos : (0 : ℚ) < d := Nat.cast_pos.2 hd
  rw [hk, Nat.pow_eq, pow_succ]
  push_cast
  field_simp

theorem rounds_iff_between {m : Nat} : Rounds n d m ↔ Between (n / d) m := by
  have hk : 1075 = 1074 + 1 := rfl
  have hpos : (0 : ℚ) < d * 2 ^ 1074 := mul_pos (Nat.cast_pos.2 hd) (by positivity)
  rw [rounds_iff_bounds, between_iff_bounds]
  generalize 1075 = k' at hk ⊢
  simp only [← Nat.cast_le (α := ℚ), ← Nat.cast_lt (α := ℚ), midpoint_scaled (k := 1074) hd,
    ratio_scaled hd hk, mul_le_mul_iff_left₀ hpos, mul_lt_mul_iff_left₀ hpos, Nat.cast_add, add_div,
    quantity]

end Ratios

section Between

variable {q q' : ℚ} {m m' k : Nat}

/-- The midpoint behind an even magnitude is rounded to it, and the one behind an odd magnitude is
not. -/
theorem Between.le_iff_of_even (h : Between q m) (heven : k % 2 = 0) :
    m ≤ k ↔ 2 * q ≤ quantity k + quantity (k + 1) := by
  constructor
  · intro hle
    exact h.high.trans (add_le_add (quantity_strictMono.monotone hle)
      (quantity_strictMono.monotone (Nat.succ_le_succ hle)))
  · intro hle
    by_contra hcon
    rcases Nat.eq_or_lt_of_le (Nat.lt_of_not_le hcon) with rfl | hgap
    · have hinner := (h.inner (by omega)).1
      rw [Nat.succ_eq_add_one, Nat.add_sub_cancel] at hinner
      linarith
    · have hlow := h.low
      have hfirst : quantity k < quantity (m - 1) := quantity_strictMono (by omega)
      have hsecond : quantity (k + 1) < quantity m := quantity_strictMono hgap
      linarith

theorem Between.le_iff_of_odd (h : Between q m) (hodd : k % 2 = 1) :
    m ≤ k ↔ 2 * q < quantity k + quantity (k + 1) := by
  constructor
  · intro hle
    rcases Nat.eq_or_lt_of_le hle with rfl | hlt
    · exact (h.inner hodd).2
    · exact h.high.trans_lt (add_lt_add (quantity_strictMono hlt)
        (quantity_strictMono (Nat.succ_lt_succ hlt)))
  · intro hless
    by_contra hcon
    have hlow := h.low
    have hfirst : quantity k ≤ quantity (m - 1) := quantity_strictMono.monotone (by omega)
    have hsecond : quantity (k + 1) ≤ quantity m :=
      quantity_strictMono.monotone (Nat.lt_of_not_le hcon)
    linarith

/-- A greater rational has no smaller magnitude. -/
theorem Between.mono (h : Between q m) (h' : Between q' m') (hle : q ≤ q') : m ≤ m' := by
  rcases Nat.mod_two_eq_zero_or_one m' with heven | hodd
  · have hhigh := (h'.le_iff_of_even heven).1 (Nat.le_refl m')
    exact (h.le_iff_of_even heven).2 (by linarith)
  · have hhigh := (h'.le_iff_of_odd hodd).1 (Nat.le_refl m')
    exact (h.le_iff_of_odd hodd).2 (by linarith)

/-! ## Distances -/

theorem sq_sub_sq_dist (q a b : ℚ) : (q - a) ^ 2 - (q - b) ^ 2 = (b - a) * (2 * q - (a + b)) := by
  ring

/-- What is not below the midpoint is no nearer to the lower end. -/
theorem abs_sub_le_iff_add_le {a b : ℚ} (h : a < b) : |q - b| ≤ |q - a| ↔ a + b ≤ 2 * q := by
  rw [← sq_le_sq, ← sub_nonneg, sq_sub_sq_dist, mul_nonneg_iff_of_pos_left (sub_pos.2 h),
    sub_nonneg]

theorem abs_sub_le_iff_le_add {a b : ℚ} (h : a < b) : |q - a| ≤ |q - b| ↔ 2 * q ≤ a + b := by
  rw [← sq_le_sq, ← sub_nonneg, sq_sub_sq_dist, ← neg_mul_neg, neg_sub, neg_sub,
    mul_nonneg_iff_of_pos_left (sub_pos.2 h), sub_nonneg, add_comm b]

/-- No value lies between neighbours. -/
theorem value_le_of_lt {x : Binary64} (h : x.value < quantity m) : x.value ≤ quantity (m - 1) := by
  cases hsign : x.isNegative with
  | true =>
    have hx := quantity_nonneg x.magnitude
    have hm := quantity_nonneg (m - 1)
    rw [value_of_negative hsign]
    linarith
  | false =>
    rw [value_of_positive hsign] at h ⊢
    exact quantity_strictMono.monotone (Nat.le_pred_of_lt (quantity_strictMono.lt_iff_lt.1 h))

theorem le_value_of_lt {x : Binary64} (h : quantity m < x.value) : quantity (m + 1) ≤ x.value := by
  cases hsign : x.isNegative with
  | true =>
    have hx := quantity_nonneg x.magnitude
    have hm := quantity_nonneg m
    rw [value_of_negative hsign] at h
    linarith
  | false =>
    rw [value_of_positive hsign] at h ⊢
    exact quantity_strictMono.monotone (quantity_strictMono.lt_iff_lt.1 h)

theorem Between.near (h : Between q m) (x : Binary64) : |q - quantity m| ≤ |q - x.value| := by
  rcases lt_trichotomy x.value (quantity m) with hlt | heq | hgt
  · rw [abs_sub_le_iff_add_le hlt]
    exact (add_le_add_left (value_le_of_lt hlt) _).trans h.low
  · rw [heq]
  · rw [abs_sub_le_iff_le_add hgt]
    exact h.high.trans (add_le_add_right (le_value_of_lt hgt) _)

theorem Between.even (h : Between q m) {x : Binary64} (hne : x.value ≠ quantity m)
    (htie : |q - x.value| = |q - quantity m|) : m % 2 = 0 := by
  by_contra hcon
  obtain ⟨hlow, hhigh⟩ := h.inner (by omega)
  rcases lt_or_gt_of_ne hne with hlt | hgt
  · have hle := (abs_sub_le_iff_le_add hlt).1 htie.le
    have hprev := value_le_of_lt hlt
    linarith
  · have hle := (abs_sub_le_iff_add_le hgt).1 htie.le
    have hnext := le_value_of_lt hgt
    linarith

end Between

/-! ## Both ends -/

/-- Half way between the greatest finite value and the power of two that comes next. -/
def limit : ℚ := 2 ^ 1024 - 2 ^ 970

theorem Between.lt_infinity_iff {q : ℚ} {m : Nat} (h : Between q m) :
    m < infinity ↔ q < limit := by
  have hlimit : quantity (infinity - 1) + quantity (infinity - 1 + 1) = 2 * limit := midpoint_last
  have hlast : m < infinity ↔ m ≤ infinity - 1 := Nat.lt_iff_le_pred (by decide)
  rw [hlast, h.le_iff_of_odd (by decide), hlimit]
  exact mul_lt_mul_iff_right₀ two_pos

theorem Between.eq_zero_iff {q : ℚ} {m : Nat} (h : Between q m) :
    m = 0 ↔ q ≤ 1 / 2 ^ 1075 := by
  rw [← Nat.le_zero, h.le_iff_of_even rfl, midpoint_first]
  generalize (1 / 2 ^ 1075 : ℚ) = least
  exact mul_le_mul_iff_right₀ two_pos

theorem half_least_lt_limit : 1 / 2 ^ 1075 < limit := by
  have hlast : quantity (infinity - 1) + quantity infinity = 2 * limit := midpoint_last
  have hfirst := midpoint_first
  have hless : quantity 0 < quantity (infinity - 1) := quantity_strictMono (by decide)
  have hnext : quantity (0 + 1) < quantity infinity := quantity_strictMono (by decide)
  generalize (1 / 2 ^ 1075 : ℚ) = least at hfirst ⊢
  linarith

theorem between_unbounded (n : Nat) {d : Nat} (hd : 0 < d) : Between (n / d) (unbounded n d) :=
  (rounds_iff_between hd).1 (rounds_unbounded n hd)

/-! ## The number that a rational is rounded to -/

/-- What a rational that is not negative is rounded to. -/
structure RoundsTo (q : ℚ) (x : Binary64) : Prop where
  sign : x.isNegative = false
  overflow : limit ≤ q → x = ⟨0x7FF0000000000000⟩
  finite : q < limit → x.isFinite = true
  near : q < limit → ∀ y : Binary64, y.isFinite = true → |q - x.value| ≤ |q - y.value|
  even : q < limit → ∀ y : Binary64, y.isFinite = true → y.value ≠ x.value →
    |q - y.value| = |q - x.value| → Even x.significand

theorem roundsTo_nearest (n : Nat) {d : Nat} (hd : 0 < d) :
    RoundsTo (n / d) (ofMagnitude false (nearest n d)) := by
  have hbetween := between_unbounded n hd
  rw [nearest_eq]
  rcases Nat.lt_or_ge (unbounded n d) infinity with hless | hge
  · have hlt := hbetween.lt_infinity_iff.1 hless
    rw [Nat.min_eq_left hless.le]
    refine ⟨isNegative_ofMagnitude hless.le, fun hlimit => absurd hlt hlimit.not_gt,
      fun _ => (isFinite_ofMagnitude hless.le).2 hless, ?near, ?even⟩
    case near =>
      intro _ y _
      rw [value_ofMagnitude hless.le]
      exact hbetween.near y
    case even =>
      intro _ y _ hne htie
      rw [value_ofMagnitude hless.le] at hne htie
      rw [significand_even_iff, magnitude_ofMagnitude hless.le]
      exact hbetween.even hne htie
  · have hlimit : ¬ (n / d : ℚ) < limit := fun hlt => hge.not_gt (hbetween.lt_infinity_iff.2 hlt)
    rw [Nat.min_eq_right hge]
    exact ⟨by decide, fun _ => by decide, fun hlt => absurd hlt hlimit,
      fun hlt => absurd hlt hlimit, fun hlt => absurd hlt hlimit⟩

section

variable {q : ℚ} {x : Binary64} {k : Nat} (h : RoundsTo q x) (hlt : q < limit)
include h hlt

theorem RoundsTo.magnitude_lt : x.magnitude < infinity := of_decide_eq_true (h.finite hlt)

theorem RoundsTo.near_quantity (hk : k < infinity) :
    |q - quantity x.magnitude| ≤ |q - quantity k| := by
  have hnear := h.near hlt _ ((isFinite_ofMagnitude hk.le).2 hk)
  rwa [value_ofMagnitude hk.le, value_of_positive h.sign] at hnear

theorem RoundsTo.midpoint_even (hk : k < infinity) (hne : k ≠ x.magnitude)
    (htie : quantity k + quantity x.magnitude = 2 * q) : x.magnitude % 2 = 0 := by
  have hother : (ofMagnitude false k).value ≠ x.value := by
    rw [value_ofMagnitude hk.le, value_of_positive h.sign]
    exact fun he => hne (quantity_strictMono.injective he)
  have hopposite : q - quantity k = -(q - quantity x.magnitude) := by linarith
  have hdistance : |q - (ofMagnitude false k).value| = |q - x.value| := by
    rw [value_ofMagnitude hk.le, value_of_positive h.sign, hopposite, abs_neg]
  have hfinite := (isFinite_ofMagnitude hk.le).2 hk
  exact (significand_even_iff x).1 (h.even hlt _ hfinite hother hdistance)

theorem RoundsTo.low (hk : k < x.magnitude) :
    quantity k + quantity x.magnitude ≤ 2 * q ∧
      (x.magnitude % 2 = 1 → quantity k + quantity x.magnitude < 2 * q) := by
  have hfinite := h.magnitude_lt hlt
  have hless := hk.trans hfinite
  have hle := (abs_sub_le_iff_add_le (quantity_strictMono hk)).1 (h.near_quantity hlt hless)
  refine ⟨hle, fun hodd => lt_of_le_of_ne hle fun htie => ?_⟩
  have heven := h.midpoint_even hlt hless hk.ne htie
  omega

theorem RoundsTo.high :
    2 * q ≤ quantity x.magnitude + quantity (x.magnitude + 1) ∧
      (x.magnitude % 2 = 1 → 2 * q < quantity x.magnitude + quantity (x.magnitude + 1)) := by
  have hfinite := h.magnitude_lt hlt
  rcases Nat.eq_or_lt_of_le (Nat.succ_le_of_lt hfinite) with hend | hless
  · -- Behind the greatest finite number there is only infinity, so the range decides.
    have hlast : x.magnitude = infinity - 1 := Nat.eq_sub_of_add_eq hend
    have hlimit : quantity x.magnitude + quantity (x.magnitude + 1) = 2 * limit := by
      rw [hlast]
      exact midpoint_last
    rw [hlimit]
    exact ⟨by linarith, fun _ => by linarith⟩
  · have hnext := Nat.lt_succ_self x.magnitude
    have hle := (abs_sub_le_iff_le_add (quantity_strictMono hnext)).1 (h.near_quantity hlt hless)
    refine ⟨hle, fun hodd => lt_of_le_of_ne hle fun htie => ?_⟩
    have heven := h.midpoint_even hlt hless hnext.ne' (by rw [htie, add_comm])
    omega

theorem RoundsTo.between (hq : 0 ≤ q) : Between q x.magnitude := by
  have hhigh := h.high hlt
  rcases Nat.eq_zero_or_pos x.magnitude with hzero | hpos
  · refine ⟨?_, hhigh.1, fun hodd => ?_⟩
    · rw [hzero, quantity_zero]
      linarith
    · rw [hzero] at hodd
      cases hodd
  · have hlow := h.low hlt (Nat.sub_one_lt_of_lt hpos)
    exact ⟨hlow.1, hhigh.1, fun hodd => ⟨hlow.2 hodd, hhigh.2 hodd⟩⟩

end

/-- **The nearest number.** A ratio is rounded to one number only, and `nearest` is its
magnitude. -/
theorem roundsTo_iff (n : Nat) {d : Nat} (hd : 0 < d) {x : Binary64} :
    RoundsTo (n / d) x ↔ x = ofMagnitude false (nearest n d) := by
  constructor
  · intro h
    rcases lt_or_ge (n / d : ℚ) limit with hlt | hge
    · have hq : (0 : ℚ) ≤ n / d := by positivity
      have hrounds : Rounds n d x.magnitude := (rounds_iff_between hd).2 (h.between hlt hq)
      rw [nearest_of_rounds hd hrounds, Nat.min_eq_left (h.magnitude_lt hlt).le, ← h.sign,
        ofMagnitude_magnitude]
    · rw [h.overflow hge, (roundsTo_nearest n hd).overflow hge]
  · rintro rfl
    exact roundsTo_nearest n hd

section

variable {q q' : ℚ} {x x' : Binary64} (h : RoundsTo q x)
include h

theorem RoundsTo.infinite_iff : x = ⟨0x7FF0000000000000⟩ ↔ limit ≤ q := by
  refine ⟨?_, h.overflow⟩
  rintro rfl
  by_contra hcon
  have hfinite := h.finite (lt_of_not_ge hcon)
  revert hfinite
  decide

theorem RoundsTo.zero_iff (hq : 0 ≤ q) : x = ⟨0⟩ ↔ q ≤ 1 / 2 ^ 1075 := by
  rcases lt_or_ge q limit with hlt | hge
  · rw [← (h.between hlt hq).eq_zero_iff]
    constructor
    · rintro rfl
      decide
    · intro hzero
      rw [← ofMagnitude_magnitude x, h.sign, hzero]
      decide
  · have hless := half_least_lt_limit
    rw [h.overflow hge]
    exact iff_of_false (by decide) (not_le.2 (hless.trans_le hge))

theorem RoundsTo.magnitude_le : x.magnitude ≤ infinity := by
  rcases lt_or_ge q limit with hlt | hge
  · exact (h.magnitude_lt hlt).le
  · rw [h.overflow hge]
    decide

theorem RoundsTo.mono (h' : RoundsTo q' x') (hq : 0 ≤ q) (hle : q ≤ q') :
    x.magnitude ≤ x'.magnitude := by
  rcases lt_or_ge q' limit with hlt | hge
  · exact (h.between (hle.trans_lt hlt) hq).mono (h'.between hlt (hq.trans hle)) hle
  · rw [h'.overflow hge]
    exact h.magnitude_le

/-- A greater rational is rounded to no smaller number: as bits, and in value as far as numbers are
finite. -/
theorem RoundsTo.ordered (h' : RoundsTo q' x') (hq : 0 ≤ q) (hle : q ≤ q') :
    x.bits ≤ x'.bits ∧ (x'.isFinite = true → x.isFinite = true ∧ x.value ≤ x'.value) := by
  have hmagnitude := h.mono h' hq hle
  constructor
  · rw [UInt64.le_iff_toNat_le, bits_of_positive h.sign, bits_of_positive h'.sign]
    exact hmagnitude
  · intro hfinite
    refine ⟨decide_eq_true (hmagnitude.trans_lt (of_decide_eq_true hfinite)), ?_⟩
    rw [value_of_positive h.sign, value_of_positive h'.sign]
    exact quantity_strictMono.monotone hmagnitude

end

end Binary64
end Lox

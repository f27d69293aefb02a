import Lox.Decimal.Shortest
import Lox.Proofs.Rounding

/-!
# The shortest decimal is read back

A decimal is a ratio of whole numbers, and so it is rounded to a magnitude. Every point that a grid
gives for a magnitude lies inside the interval of that magnitude, and the last grid always has one;
so the shortest decimal of a magnitude is rounded to it.

Results:
* `rounds_onGrid`: the point of a grid is rounded to the magnitude.
* `rounds_shortest`: and so is the shortest decimal.
* `Rounds.congr`: decimals of one value are rounded to the same magnitude.
-/
namespace Lox
namespace Decimal

open Binary64 (units units_lt_units units_le_units infinity)

/-! ## Decimals as ratios -/

def numerator (d : Decimal) : Nat := d.coefficient * Nat.pow 10 d.exponent.toNat

def denominator (d : Decimal) : Nat := Nat.pow 10 (-d.exponent).toNat

theorem denominator_pos (d : Decimal) : 0 < d.denominator := Nat.pow_pos (by decide)

/-- The magnitude nearest to the decimal. -/
def nearest (d : Decimal) : Nat := Binary64.nearest d.numerator d.denominator

/-- The decimal is rounded to the magnitude `m`. -/
def Rounds (d : Decimal) (m : Nat) : Prop := Binary64.Rounds d.numerator d.denominator m

theorem nearest_of_rounds {d : Decimal} {m : Nat} (h : d.Rounds m) : d.nearest = min m infinity :=
  Binary64.nearest_of_rounds d.denominator_pos h

/-- Zeros at the end of a coefficient count as its exponent. -/
theorem numerator_shift (c k : Nat) (e : Int) :
    (⟨c * Nat.pow 10 k, e - k⟩ : Decimal).numerator * (⟨c, e⟩ : Decimal).denominator =
      (⟨c, e⟩ : Decimal).numerator * (⟨c * Nat.pow 10 k, e - k⟩ : Decimal).denominator := by
  simp only [numerator, denominator, Nat.pow_eq]
  have hexp : k + (e - k).toNat + (-e).toNat = e.toNat + (-(e - k)).toNat := by omega
  rw [Nat.mul_assoc, Nat.mul_assoc, Nat.mul_assoc, ← Nat.pow_add, ← Nat.pow_add, ← Nat.pow_add,
    ← Nat.add_assoc, hexp]

theorem rounds_shift {c : Nat} {e : Int} {m : Nat} (h : (⟨c, e⟩ : Decimal).Rounds m) (k : Nat) :
    (⟨c * Nat.pow 10 k, e - k⟩ : Decimal).Rounds m :=
  h.congr (denominator_pos _) (denominator_pos _) (numerator_shift c k e).symm

/-! ## Grids -/

/-- Whether the point `c` of the grid `10 ^ p` is inside the interval of the magnitude `m`. -/
def inside (m : Nat) (p : Int) (c : Nat) : Bool :=
  let scale := Nat.pow 10 (-p).toNat
  let unit := Nat.pow 10 p.toNat * Nat.pow 2 1075
  let low := (units (m - 1) + units m) * scale
  let high := (units m + units (m + 1)) * scale
  if m % 2 = 0 then low ≤ c * unit && c * unit ≤ high else low < c * unit && c * unit < high

theorem rounds_of_inside {m c : Nat} {p : Int} (h : inside m p c = true) :
    (⟨c, p⟩ : Decimal).Rounds m := by
  have hpoint : c * (Nat.pow 10 p.toNat * Nat.pow 2 1075) =
      (⟨c, p⟩ : Decimal).numerator * Nat.pow 2 1075 := (Nat.mul_assoc _ _ _).symm
  simp only [inside, hpoint] at h
  split at h
  · rename_i heven
    rw [Bool.and_eq_true, decide_eq_true_iff, decide_eq_true_iff] at h
    refine ⟨h.1, h.2, ?_⟩
    intro hodd
    omega
  · rw [Bool.and_eq_true, decide_eq_true_iff, decide_eq_true_iff] at h
    exact ⟨Nat.le_of_lt h.1, Nat.le_of_lt h.2, fun _ => h⟩

/-- What a grid gives is one of the two points around the magnitude. -/
theorem inside_onGrid {tie : Tie} {m c : Nat} {p : Int} (h : onGrid? tie m p = some c) :
    inside m p c = true := by
  unfold onGrid? at h
  simp only at h
  split at h
  · cases h
  · rename_i hbelow _
    cases h
    exact hbelow
  · rename_i _ habove
    cases h
    exact habove
  · rename_i hbelow habove
    split at h
    · cases h
      exact hbelow
    split at h
    · cases h
      exact hbelow
    · cases h
      exact habove

theorem rounds_onGrid {tie : Tie} {m c : Nat} {p : Int} (h : onGrid? tie m p = some c) :
    (⟨c, p⟩ : Decimal).Rounds m :=
  rounds_of_inside (inside_onGrid h)

/-! ## The last grid -/

/-- The magnitude is inside its own interval. -/
theorem inside_of_point {m c : Nat} {p : Int}
    (h : c * (Nat.pow 10 p.toNat * Nat.pow 2 1075) = 2 * units m * Nat.pow 10 (-p).toNat) :
    inside m p c = true := by
  have hscale : 0 < Nat.pow 10 (-p).toNat := Nat.pow_pos (by decide)
  have hprev : units (m - 1) ≤ units m := units_le_units (Nat.sub_le _ _)
  have hnext : units m < units (m + 1) := units_lt_units (Nat.lt_succ_self m)
  simp only [inside, h]
  split
  · rw [Bool.and_eq_true, decide_eq_true_iff, decide_eq_true_iff]
    exact ⟨Nat.mul_le_mul_right _ (by omega), Nat.mul_le_mul_right _ (by omega)⟩
  · have hstrict : units (m - 1) < units m := units_lt_units (by omega)
    rw [Bool.and_eq_true, decide_eq_true_iff, decide_eq_true_iff]
    exact ⟨Nat.mul_lt_mul_of_pos_right (by omega) hscale,
      Nat.mul_lt_mul_of_pos_right (by omega) hscale⟩

theorem onGrid_of_below {tie : Tie} {m c : Nat} {p : Int}
    (h : c * (Nat.pow 10 p.toNat * Nat.pow 2 1075) = 2 * units m * Nat.pow 10 (-p).toNat) :
    onGrid? tie m p ≠ none := by
  have hunit : ∀ k, 0 < Nat.pow 10 p.toNat * Nat.pow 2 k := fun k =>
    Nat.mul_pos (Nat.pow_pos (by decide)) (Nat.pow_pos (by decide))
  have hbelow : 2 * units m * Nat.pow 10 (-p).toNat / (Nat.pow 10 p.toNat * Nat.pow 2 1075) = c :=
    Nat.div_eq_of_eq_mul_left (hunit 1075) h.symm
  unfold onGrid?
  simp only [hbelow]
  split
  · rename_i hfalse _
    have hinside : inside m p c = false := hfalse
    rw [inside_of_point h] at hinside
    cases hinside
  · exact Option.some_ne_none _
  · exact Option.some_ne_none _
  · split
    · exact Option.some_ne_none _
    split
    · exact Option.some_ne_none _
    · exact Option.some_ne_none _

/-- Whole multiples of 2^-1075 are decimals with 1075 places. -/
theorem onGrid_last (tie : Tie) (m : Nat) : onGrid? tie m (-1075) ≠ none := by
  have hpoint : ∀ k, 2 * units m * Nat.pow 5 k * (Nat.pow 10 0 * Nat.pow 2 k) =
      2 * units m * Nat.pow 10 k := by
    intro k
    simp only [Nat.pow_eq]
    rw [Nat.pow_zero, Nat.one_mul, Nat.mul_assoc, ← Nat.mul_pow]
  have hwhole : (-1075 : Int).toNat = 0 := rfl
  have hplaces : (-(-1075) : Int).toNat = 1075 := rfl
  refine onGrid_of_below (c := 2 * units m * Nat.pow 5 1075) ?_
  rewrite [hwhole, hplaces]
  generalize 1075 = k
  exact hpoint k

/-! ## The shortest decimal -/

theorem rounds_search (tie : Tie) (m k : Nat) : (search tie m k).Rounds m := by
  induction k with
  | zero =>
    obtain ⟨c, hc⟩ := Option.ne_none_iff_exists'.1 (onGrid_last tie m)
    rw [search, hc]
    exact rounds_onGrid hc
  | succ k ih =>
    rw [search]
    split
    · rename_i c hc
      exact rounds_onGrid hc
    · exact ih

/-- **The shortest decimal** of a magnitude is rounded to it. -/
theorem rounds_shortest (tie : Tie) (m : Nat) : (shortest tie m).Rounds m :=
  rounds_search tie m _

theorem coefficient_pos {d : Decimal} {m : Nat} (h : d.Rounds m) (hm : 0 < m) :
    0 < d.coefficient := by
  have hlow : 0 < (units (m - 1) + units m) * d.denominator := by
    refine Nat.mul_pos ?_ d.denominator_pos
    have : units 0 < units m := units_lt_units hm
    omega
  have hpos := Nat.lt_of_lt_of_le hlow h.low
  exact Nat.pos_of_mul_pos_right (Nat.pos_of_mul_pos_right hpos)

end Decimal
end Lox

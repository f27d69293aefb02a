import Lox.Decimal.Nearest

/-!
# Rounding to the nearest binary64 number

A ratio is rounded to a magnitude if it lies between the midpoints to the two neighbours, the
midpoints being taken in if the magnitude is even. Everything is compared as whole multiples of
2^-1075, which the midpoints are, so there is no division in what is said here.

Results:
* `rounds_unique`: a ratio is rounded to at most one magnitude.
* `rounds_unbounded`: it is rounded to what `nearest` computes, if there is no infinity.
* `nearest_of_rounds`: so `nearest` is known from the interval.
-/
namespace Lox
namespace Binary64

theorem units_le_units {m n : Nat} (h : m ≤ n) : units m ≤ units n := by
  rcases Nat.eq_or_lt_of_le h with rfl | hlt
  · exact Nat.le_refl _
  · exact Nat.le_of_lt (units_lt_units hlt)

/-! ## The interval of a magnitude -/

/-- `n / d` is rounded to the magnitude `m`. -/
structure Rounds (n d m : Nat) : Prop where
  low : (units (m - 1) + units m) * d ≤ n * Nat.pow 2 1075
  high : n * Nat.pow 2 1075 ≤ (units m + units (m + 1)) * d
  inner : m % 2 = 1 →
    (units (m - 1) + units m) * d < n * Nat.pow 2 1075 ∧
      n * Nat.pow 2 1075 < (units m + units (m + 1)) * d

/-- Intervals further up start where those below end, or later. -/
theorem Rounds.not_lt {n d m m' : Nat} (h : Rounds n d m) (hd : 0 < d) (h' : Rounds n d m') :
    ¬ m < m' := by
  intro hlt
  have hcentre : units m ≤ units (m' - 1) := units_le_units (by omega)
  have hnext : units (m + 1) ≤ units m' := units_le_units hlt
  have hbounds : (units m + units (m + 1)) * d ≤ (units (m' - 1) + units m') * d :=
    Nat.mul_le_mul_right d (Nat.add_le_add hcentre hnext)
  have hhigh := h.high
  have hlow := h'.low
  rcases Nat.eq_or_lt_of_le (show m + 1 ≤ m' from hlt) with rfl | hgap
  · -- The ratio is the one midpoint between neighbours, which only the even one takes in.
    rcases Nat.mod_two_eq_zero_or_one m with heven | hodd
    · have := (h'.inner (by omega)).1
      omega
    · have := (h.inner hodd).2
      omega
  · have hstrict : (units m + units (m + 1)) * d < (units (m' - 1) + units m') * d := by
      refine Nat.mul_lt_mul_of_pos_right ?_ hd
      exact Nat.add_lt_add_of_le_of_lt hcentre (units_lt_units hgap)
    omega

theorem rounds_unique {n d m m' : Nat} (hd : 0 < d) (h : Rounds n d m) (h' : Rounds n d m') :
    m = m' :=
  Nat.le_antisymm (Nat.le_of_not_lt (h'.not_lt hd h)) (Nat.le_of_not_lt (h.not_lt hd h'))

/-- The interval holds ratios, however they are written. -/
theorem Rounds.congr {n d n' d' m : Nat} (hd : 0 < d) (hd' : 0 < d') (h : Rounds n d m)
    (hratio : n * d' = n' * d) : Rounds n' d' m := by
  have hscaled : n * Nat.pow 2 1075 * d' = n' * Nat.pow 2 1075 * d := by
    rw [Nat.mul_right_comm, hratio, Nat.mul_right_comm]
  have hle : ∀ a, a * d ≤ n * Nat.pow 2 1075 ↔ a * d' ≤ n' * Nat.pow 2 1075 := by
    intro a
    rw [← Nat.mul_le_mul_right_iff hd', hscaled, Nat.mul_right_comm, Nat.mul_le_mul_right_iff hd]
  have hge : ∀ a, n * Nat.pow 2 1075 ≤ a * d ↔ n' * Nat.pow 2 1075 ≤ a * d' := by
    intro a
    rw [← Nat.mul_le_mul_right_iff hd', hscaled, Nat.mul_right_comm a, Nat.mul_le_mul_right_iff hd]
  refine ⟨(hle _).1 h.low, (hge _).1 h.high, ?_⟩
  intro hodd
  obtain ⟨hlow, hhigh⟩ := h.inner hodd
  constructor
  · exact Nat.lt_of_not_le fun hcon => absurd ((hge _).2 hcon) (Nat.not_le.2 hlow)
  · exact Nat.lt_of_not_le fun hcon => absurd ((hle _).2 hcon) (Nat.not_le.2 hhigh)

/-! ## Steps -/

/-- The magnitude of a count of steps, and of the count that fills up. -/
theorem units_steps {step count : Nat} (hcount : count ≤ Nat.pow 2 53)
    (hfull : step = 0 ∨ Nat.pow 2 52 ≤ count) :
    units (step * Nat.pow 2 52 + count) = count * Nat.pow 2 step := by
  simp only [Nat.pow_eq] at hcount hfull ⊢
  rcases Nat.lt_or_ge count (2 ^ 52) with hlow | hge
  · obtain rfl : step = 0 := by omega
    rw [Nat.zero_mul, Nat.zero_add, Nat.pow_zero, Nat.mul_one]
    exact if_pos hlow
  · have hnormal : ¬ step * 2 ^ 52 + count < 2 ^ 52 := by omega
    unfold units
    simp only [Nat.pow_eq]
    rw [if_neg hnormal]
    rcases Nat.eq_or_lt_of_le hcount with rfl | hlt
    · have hexp : (step * 2 ^ 52 + 2 ^ 53) / 2 ^ 52 - 1 = step + 1 := by omega
      have hsig : (step * 2 ^ 52 + 2 ^ 53) % 2 ^ 52 = 0 := by omega
      rw [hexp, hsig, Nat.pow_succ]
      omega
    · have hexp : (step * 2 ^ 52 + count) / 2 ^ 52 - 1 = step := by omega
      have hsig : (step * 2 ^ 52 + count) % 2 ^ 52 + 2 ^ 52 = count := by omega
      rw [hexp, hsig]

/-- 53 bits remain. -/
theorem steps_lt (x : Nat) : x / Nat.pow 2 (x.log2 - 52) < Nat.pow 2 53 := by
  rw [Nat.pow_eq, Nat.div_lt_iff_lt_mul (Nat.two_pow_pos _), Nat.pow_eq, ← Nat.pow_add]
  calc x < 2 ^ (x.log2 + 1) := Nat.lt_log2_self
    _ ≤ 2 ^ (53 + (x.log2 - 52)) := Nat.pow_le_pow_right (by decide) (by omega)

theorem steps_full (x : Nat) : x.log2 - 52 = 0 ∨ Nat.pow 2 52 ≤ x / Nat.pow 2 (x.log2 - 52) := by
  rcases Nat.eq_zero_or_pos (x.log2 - 52) with h | h
  · exact .inl h
  · right
    have hx : x ≠ 0 := by
      rintro rfl
      simp at h
    rw [Nat.pow_eq, Nat.pow_eq, Nat.le_div_iff_mul_le (Nat.two_pow_pos _), ← Nat.pow_add]
    calc 2 ^ (52 + (x.log2 - 52)) = 2 ^ x.log2 := by rw [Nat.add_sub_cancel' (by omega)]
      _ ≤ x := Nat.log2_self_le hx

/-! ## The nearest magnitude -/

/-- The magnitude nearest to `n / d`, if there were no end to magnitudes. -/
def unbounded (n d : Nat) : Nat :=
  let scaled := n * Nat.pow 2 1074
  let step := (scaled / d).log2 - 52
  step * Nat.pow 2 52 + roundQuotient scaled (d * Nat.pow 2 step)

theorem nearest_eq (n d : Nat) : nearest n d = min (unbounded n d) infinity := rfl

theorem twice_scaled (n : Nat) : n * Nat.pow 2 1075 = 2 * (n * Nat.pow 2 1074) := by
  generalize hk : 1074 = k
  generalize hk' : 1075 = k'
  obtain rfl : k' = k + 1 := by omega
  rw [Nat.mul_left_comm, Nat.mul_comm 2]
  rfl

theorem rounds_unbounded (n : Nat) {d : Nat} (hd : 0 < d) : Rounds n d (unbounded n d) := by
  have hscaled := twice_scaled n
  unfold unbounded
  generalize n * Nat.pow 2 1074 = scaled at hscaled
  simp only
  generalize hstep : (scaled / d).log2 - 52 = step
  have hlt : scaled / (d * Nat.pow 2 step) < Nat.pow 2 53 := by
    rw [← Nat.div_div_eq_div_mul, ← hstep]
    exact steps_lt _
  have hfull : step = 0 ∨ Nat.pow 2 52 ≤ scaled / (d * Nat.pow 2 step) := by
    rw [← Nat.div_div_eq_div_mul, ← hstep]
    exact steps_full _
  have hrest := Nat.mod_lt scaled (Nat.mul_pos hd (Nat.two_pow_pos step))
  have hwhole := Nat.div_add_mod' scaled (d * Nat.pow 2 step)
  rw [← Nat.pow_eq] at hrest
  unfold roundQuotient
  generalize scaled / (d * Nat.pow 2 step) = count at *
  generalize scaled % (d * Nat.pow 2 step) = rest at *
  -- `below` is what the whole steps make up. It and the next one are counted in steps.
  generalize hbelow : step * Nat.pow 2 52 + count = below
  have hparity : below % 2 = count % 2 := by
    rw [← hbelow, Nat.pow_eq]
    omega
  have hunits : units below * d = count * (d * Nat.pow 2 step) := by
    rw [← hbelow, units_steps (Nat.le_of_lt hlt) hfull, Nat.mul_right_comm, Nat.mul_assoc]
  have hnext : units (below + 1) * d = count * (d * Nat.pow 2 step) + d * Nat.pow 2 step := by
    rw [← hbelow, Nat.add_assoc,
      units_steps hlt (hfull.imp_right fun h => Nat.le_succ_of_le h), Nat.mul_right_comm,
      Nat.mul_assoc, Nat.succ_mul]
  generalize d * Nat.pow 2 step = width at *
  by_cases hdown : 2 * rest < width ∨ 2 * rest = width ∧ count % 2 = 0
  · rw [if_pos hdown, hbelow]
    have hprev : units (below - 1) * d ≤ units below * d :=
      Nat.mul_le_mul_right d (units_le_units (Nat.sub_le _ _))
    refine ⟨?_, ?_, ?_⟩
    · rw [Nat.add_mul]
      omega
    · rw [Nat.add_mul]
      omega
    · intro hodd
      have hstrict : units (below - 1) * d < units below * d :=
        Nat.mul_lt_mul_of_pos_right (units_lt_units (by omega)) hd
      rw [Nat.add_mul, Nat.add_mul]
      omega
  · rw [if_neg hdown, ← Nat.add_assoc, hbelow]
    have hover : units (below + 1) * d ≤ units (below + 1 + 1) * d :=
      Nat.mul_le_mul_right d (units_le_units (Nat.le_succ _))
    refine ⟨?_, ?_, ?_⟩
    · rw [Nat.add_mul, Nat.add_sub_cancel]
      omega
    · rw [Nat.add_mul]
      omega
    · intro hodd
      rw [Nat.add_mul, Nat.add_mul, Nat.add_sub_cancel]
      omega

theorem rounds_iff {n d m : Nat} (hd : 0 < d) : Rounds n d m ↔ m = unbounded n d := by
  constructor
  · intro h
    exact rounds_unique hd h (rounds_unbounded n hd)
  · rintro rfl
    exact rounds_unbounded n hd

/-- **The nearest magnitude**, infinity standing for everything from itself on. -/
theorem nearest_of_rounds {n d m : Nat} (hd : 0 < d) (h : Rounds n d m) :
    nearest n d = min m infinity := by
  rw [nearest_eq, ← (rounds_iff hd).1 h]

theorem nearest_le (n d : Nat) : nearest n d ≤ infinity := Nat.min_le_right _ _

theorem rounds_zero (d : Nat) : Rounds 0 d 0 := by
  have hcentre : (units (0 - 1) + units 0) * d = 0 := Nat.zero_mul d
  refine ⟨?_, ?_, ?_⟩
  · simp only [hcentre, Nat.zero_le]
  · simp only [Nat.zero_mul, Nat.zero_le]
  · intro hodd
    cases hodd

/-! ## Bits -/

theorem toNat_ofMagnitude {m : Nat} (h : m ≤ infinity) :
    (ofMagnitude false m).bits.toNat = m ∧ m < Nat.pow 2 63 := by
  have hsmall : m < Nat.pow 2 63 := Nat.lt_of_le_of_lt h (by decide)
  rw [ofMagnitude, if_neg Bool.false_ne_true]
  exact ⟨UInt64.toNat_ofNat_of_lt (Nat.lt_trans hsmall (by decide)), hsmall⟩

theorem magnitude_ofMagnitude {m : Nat} (h : m ≤ infinity) :
    (ofMagnitude false m).magnitude = m := by
  obtain ⟨hbits, hsmall⟩ := toNat_ofMagnitude h
  rw [magnitude, hbits, Nat.mod_eq_of_lt hsmall]

theorem isNaN_ofMagnitude {m : Nat} (h : m ≤ infinity) : (ofMagnitude false m).isNaN = false := by
  rw [isNaN, magnitude_ofMagnitude h]
  exact decide_eq_false (Nat.not_lt.2 h)

theorem isFinite_ofMagnitude {m : Nat} (h : m ≤ infinity) :
    (ofMagnitude false m).isFinite = true ↔ m < infinity := by
  rw [isFinite, magnitude_ofMagnitude h, decide_eq_true_iff]

theorem isNegative_ofMagnitude {m : Nat} (h : m ≤ infinity) :
    (ofMagnitude false m).isNegative = false := by
  obtain ⟨hbits, hsmall⟩ := toNat_ofMagnitude h
  rw [isNegative, hbits]
  exact decide_eq_false (Nat.not_le.2 hsmall)

/-- Sign and magnitude are all there is to a number. -/
theorem ofMagnitude_magnitude (x : Binary64) : ofMagnitude x.isNegative x.magnitude = x := by
  have hlt := x.bits.toNat_lt
  have hbits : (if x.isNegative = true then Nat.pow 2 63 + x.magnitude else x.magnitude) =
      x.bits.toNat := by
    unfold isNegative magnitude
    simp only [Nat.pow_eq, decide_eq_true_eq]
    split <;> omega
  rw [ofMagnitude, hbits, UInt64.ofNat_toNat]

end Binary64
end Lox

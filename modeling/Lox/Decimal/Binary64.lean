/-!
# Binary64 numbers

A number is its 64 bits. Below the sign bit the bits are read as one number, the *magnitude*: it
grows with the absolute value, neighbours differ by one, and what lies past the greatest finite
value is infinity and then not-a-number. The absolute value of a finite number is a whole multiple
of 2^-1074, and `units` says which.

Results: `units` grows strictly with the magnitude (`units_lt_units`).
-/
namespace Lox

/-- A binary64 number, as its bits. -/
structure Binary64 where
  bits : UInt64
  deriving DecidableEq, Repr

namespace Binary64

/-- The magnitude of infinity: every exponent bit set, and no other. -/
def infinity : Nat := 0x7FF * Nat.pow 2 52

def isNegative (x : Binary64) : Bool := Nat.pow 2 63 ≤ x.bits.toNat

def magnitude (x : Binary64) : Nat := x.bits.toNat % Nat.pow 2 63

def isNaN (x : Binary64) : Bool := infinity < x.magnitude

def isFinite (x : Binary64) : Bool := x.magnitude < infinity

def isZero (x : Binary64) : Bool := x.magnitude = 0

def ofMagnitude (negative : Bool) (m : Nat) : Binary64 :=
  ⟨UInt64.ofNat (if negative then Nat.pow 2 63 + m else m)⟩

/-- Equality of values: the two zeros are equal, and not-a-number equals nothing. -/
def same (x y : Binary64) : Bool :=
  !x.isNaN && !y.isNaN && (x == y || (x.isZero && y.isZero))

/-- The absolute value of the magnitude `m`, counted in 2^-1074. -/
def units (m : Nat) : Nat :=
  if m < Nat.pow 2 52 then m
  else (m % Nat.pow 2 52 + Nat.pow 2 52) * Nat.pow 2 (m / Nat.pow 2 52 - 1)

theorem units_lt_units_succ (m : Nat) : units m < units (m + 1) := by
  simp only [units, Nat.pow_eq]
  by_cases h : m + 1 < 2 ^ 52
  · rw [if_pos (by omega), if_pos h]; omega
  · rw [if_neg h]
    by_cases h' : m < 2 ^ 52
    · have e : m + 1 = 2 ^ 52 := by omega
      rw [if_pos h', e]; omega
    · rw [if_neg h']
      by_cases c : (m + 1) % 2 ^ 52 = 0
      · have q : (m + 1) / 2 ^ 52 - 1 = m / 2 ^ 52 - 1 + 1 := by omega
        have e : 2 ^ (m / 2 ^ 52 - 1 + 1) = 2 * 2 ^ (m / 2 ^ 52 - 1) := by
          rw [Nat.pow_succ, Nat.mul_comm]
        rw [q, c, e, ← Nat.mul_assoc]
        exact Nat.mul_lt_mul_of_pos_right (by omega) (Nat.two_pow_pos _)
      · have q : (m + 1) / 2 ^ 52 = m / 2 ^ 52 := by omega
        rw [q]
        exact Nat.mul_lt_mul_of_pos_right (by omega) (Nat.two_pow_pos _)

theorem units_lt_units {m n : Nat} (h : m < n) : units m < units n := by
  induction n with
  | zero => omega
  | succ n ih =>
    rcases Nat.lt_succ_iff_lt_or_eq.1 h with h | rfl
    · exact Nat.lt_trans (ih h) (units_lt_units_succ n)
    · exact units_lt_units_succ m

end Binary64

end Lox

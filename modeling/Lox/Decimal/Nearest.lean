import Lox.Decimal.Binary64

/-!
# The nearest binary64 number

A ratio of natural numbers is rounded to the nearest magnitude, and a ratio half way between two
goes to the even one. The ratio is cut into steps of a power of two so large that 53 bits remain,
and is rounded once; the magnitude then follows from the step and the rounded count, and a count
that fills up carries into the next power of two by itself.

A decimal digit sequence is rounded as the exact ratio that it denotes (`ofDigits`). `scaled?` is
another rule, for a whole significand and a power of ten: both are rounded first, and then their
product or quotient.
-/
namespace Lox
namespace Binary64

/-- The whole number nearest to `n / d`; a half goes to the even one. -/
def roundQuotient (n d : Nat) : Nat :=
  if 2 * (n % d) < d ∨ 2 * (n % d) = d ∧ n / d % 2 = 0 then n / d else n / d + 1

/-- The magnitude nearest to `n / d`. -/
def nearest (n d : Nat) : Nat :=
  let scaled := n * Nat.pow 2 1074
  let step := (scaled / d).log2 - 52
  min (step * Nat.pow 2 52 + roundQuotient scaled (d * Nat.pow 2 step)) infinity

/-! ## Decimal digits -/

/-- The number nearest to the decimal that has these digits, the last `places` of them after the
point. -/
def ofDigits (digits : List Char) (places : Nat) : Binary64 :=
  ofMagnitude false (nearest (Nat.ofDigitChars 10 digits 0) (Nat.pow 10 places))

/-! ## A significand and a power of ten, each rounded -/

/-- The magnitude of `10 ^ k`. -/
def tenPower (k : Nat) : Nat := nearest (Nat.pow 10 k) 1

def times (m n : Nat) : Nat := nearest (units m * units n) (Nat.pow 2 2148)

def dividedBy (m n : Nat) : Nat := nearest (units m) (units n)

/-- Divides by `10 ^ k`. A power that binary64 cannot hold is taken in factors of `10 ^ 308`. -/
def shrink (m k : Nat) : Nat :=
  if k ≤ 308 then dividedBy m (tenPower k)
  else if m = 0 then 0
  else shrink (dividedBy m (tenPower 308)) (k - 308)
termination_by k

/-- The magnitude for `significand * 10 ^ exponent`; nothing if that is infinite. -/
def scaled? (significand : Nat) (exponent : Int) : Option Nat :=
  let m := nearest significand 1
  if 0 ≤ exponent then
    let k := exponent.toNat
    if 308 < k then if m = 0 then some 0 else none
    else
      let r := times m (tenPower k)
      if r < infinity then some r else none
  else some (shrink m (-exponent).toNat)

end Binary64
end Lox

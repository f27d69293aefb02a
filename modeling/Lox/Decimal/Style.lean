import Lox.Decimal.Shortest

/-!
# Number styles

A style says how the shortest decimal of a number is laid out: which leading exponents are written
in positional form and which in scientific form, whether a whole number keeps a `.0`, whether an
exponent that is not negative has a sign, and which way ties go. The sign of zero is kept.
-/
namespace Lox
namespace Decimal

structure Style where
  /-- Whether the form is positional, given the power of ten of the first digit. -/
  positional : Int → Bool
  wholePoint : Bool      -- `.0` after a whole number
  exponentPlus : Bool    -- `+` before an exponent that is not negative
  tie : Tie

/-- The digits of a coefficient, the last of which stands for `10 ^ exponent`. -/
def layPositional (wholePoint : Bool) (digits : List Char) (exponent : Int) : List Char :=
  if 0 ≤ exponent then
    digits ++ List.replicate exponent.toNat '0' ++ if wholePoint then ['.', '0'] else []
  else
    let places := (-exponent).toNat
    let whole := digits.length - places
    if 0 < whole then digits.take whole ++ '.' :: digits.drop whole
    else '0' :: '.' :: (List.replicate (places - digits.length) '0' ++ digits)

/-- One digit before the point, and no point after a single digit. -/
def layScientific (plus : Bool) (digits : List Char) (leading : Int) : List Char :=
  digits.take 1 ++ (if digits.length ≤ 1 then [] else '.' :: digits.drop 1) ++ 'e' ::
    ((if leading < 0 then ['-'] else if plus then ['+'] else []) ++ Nat.toDigits 10 leading.natAbs)

/-- The text of a finite magnitude. -/
def Style.magnitude (s : Style) (m : Nat) : List Char :=
  if m = 0 then if s.wholePoint then ['0', '.', '0'] else ['0']
  else
    let d := shortest s.tie m
    let digits := Nat.toDigits 10 d.coefficient
    let leading := d.exponent + (digits.length - 1 : Nat)
    if s.positional leading then layPositional s.wholePoint digits d.exponent
    else layScientific s.exponentPlus digits leading

def Style.write (s : Style) (x : Binary64) : List Char :=
  if x.isNaN then "NaN".toList
  else
    (if x.isNegative then ['-'] else []) ++
      if x.isFinite then s.magnitude x.magnitude else "inf".toList

end Decimal
end Lox

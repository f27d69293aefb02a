import Lox.Decimal.Nearest

/-!
# Reading a number

The texts that a binary64 number is read from: a sign or none, and behind it an infinity or
not-a-number by its name, in letters of either case, or a decimal. A decimal has one digit at least,
a point before, among or behind its digits or none, and an exponent or none. It is rounded to the
nearest number.
-/
namespace Lox
namespace Binary64

/-- The magnitude of not-a-number: infinity, and the highest bit below the exponent. -/
def notANumber : Nat := infinity + Nat.pow 2 51

/-- Whether there is a minus, and what follows the sign. -/
def splitSign : List Char → Bool × List Char
  | '-' :: cs => (true, cs)
  | '+' :: cs => (false, cs)
  | cs => (false, cs)

/-- The digits behind a point, if there is one, and what follows them. -/
def splitPoint : List Char → List Char × List Char
  | '.' :: cs => (cs.takeWhile Char.isDigit, cs.dropWhile Char.isDigit)
  | cs => ([], cs)

/-- The exponent at the end of a decimal. -/
def exponent? : List Char → Option Int
  | [] => some 0
  | c :: cs =>
    let (negative, digits) := splitSign cs
    if c.toLower = 'e' ∧ digits ≠ [] ∧ digits.all Char.isDigit = true then
      let size : Int := Nat.ofDigitChars 10 digits 0
      some (if negative then -size else size)
    else none

/-- The magnitude of a decimal. -/
def decimal? (cs : List Char) : Option Nat :=
  let (places, rest) := splitPoint (cs.dropWhile Char.isDigit)
  let digits := cs.takeWhile Char.isDigit ++ places
  if digits = [] then none
  else
    (exponent? rest).map fun e =>
      nearest (Nat.ofDigitChars 10 digits 0 * Nat.pow 10 e.toNat)
        (Nat.pow 10 (places.length + (-e).toNat))

/-- The number that a text denotes. -/
def ofText? (cs : List Char) : Option Binary64 :=
  let (negative, body) := splitSign cs
  let name := body.map Char.toLower
  if name = "inf".toList ∨ name = "infinity".toList then some (ofMagnitude negative infinity)
  else if name = "nan".toList then some (ofMagnitude negative notANumber)
  else (decimal? body).map (ofMagnitude negative)

end Binary64
end Lox

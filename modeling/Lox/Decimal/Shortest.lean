import Lox.Decimal.Binary64

/-!
# The shortest decimal of a binary64 number

Of the decimals that are nearest to a given number and to no other, the ones with the fewest
digits are wanted, and of these the one nearest to the number itself. All of them lie between the
midpoints to the two neighbours; the midpoints belong to the number if its magnitude is even.

Fewest digits means the coarsest grid of powers of ten that has a point there, so the grids are
tried from the coarsest that can matter downwards, and on each grid only the two points around the
number. A tie between two points is left to the caller.
-/
namespace Lox

/-- The decimal `coefficient * 10 ^ exponent`. -/
structure Decimal where
  coefficient : Nat
  exponent : Int
  deriving DecidableEq, Repr

namespace Decimal

/-- Which of two equally near decimals is taken. -/
inductive Tie
  | up
  | toEven
  deriving DecidableEq, Repr

open Binary64 (units)

/-- The coefficient of the point of the grid `10 ^ p` that stands for the magnitude `m`, if the
grid has one. Numbers are compared as multiples of 2^-1075, which the midpoints are. -/
def onGrid? (tie : Tie) (m : Nat) (p : Int) : Option Nat :=
  let scale := Nat.pow 10 (-p).toNat
  let unit := Nat.pow 10 p.toNat * Nat.pow 2 1075
  let value := 2 * units m * scale
  let low := (units (m - 1) + units m) * scale
  let high := (units m + units (m + 1)) * scale
  let inside (d : Nat) : Bool :=
    if m % 2 = 0 then low ≤ d * unit && d * unit ≤ high else low < d * unit && d * unit < high
  let below := value / unit
  match inside below, inside (below + 1) with
  | false, false => none
  | true, false => some below
  | false, true => some (below + 1)
  | true, true =>
    if 2 * (value % unit) < unit then some below
    else if 2 * (value % unit) = unit ∧ tie = .toEven ∧ below % 2 = 0 then some below
    else some (below + 1)

/-- The first grid with a point, from `10 ^ (k - 1075)` downwards. The magnitude itself is a point
of the last one. -/
def search (tie : Tie) (m : Nat) : Nat → Decimal
  | 0 => ⟨(onGrid? tie m (-1075)).getD 0, -1075⟩
  | k + 1 =>
    match onGrid? tie m (k + 1 - 1075) with
    | some d => ⟨d, k + 1 - 1075⟩
    | none => search tie m k

/-- The shortest decimal for the magnitude `m`, which is finite and not zero. -/
def shortest (tie : Tie) (m : Nat) : Decimal :=
  search tie m ((Nat.toDigits 10 (units m / Nat.pow 2 1074)).length + 1075)

end Decimal
end Lox

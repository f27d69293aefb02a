/-!
# Sets of characters

A set is given by the numbers at which membership changes, in increasing order: the first character
that is in it, the next one that is not, and so on. A character is in the set if an odd number of
bounds lie at or below it.

Results: a set of one range holds just the characters of the range (`contains_range`).
-/
namespace Lox

structure CharSet where
  bounds : List Nat

namespace CharSet

def increasing : List Nat → Bool
  | a :: b :: rest => a < b && increasing (b :: rest)
  | _ => true

def contains (s : CharSet) (c : Char) : Bool :=
  (s.bounds.takeWhile (· ≤ c.toNat)).length % 2 = 1

theorem contains_range (low high : Nat) (c : Char) :
    contains ⟨[low, high]⟩ c = true ↔ low ≤ c.toNat ∧ c.toNat < high := by
  by_cases h1 : low ≤ c.toNat
  · by_cases h2 : high ≤ c.toNat
    · simp [contains, List.takeWhile, h1, h2]
    · simp [contains, List.takeWhile, h1, h2]; omega
  · simp [contains, List.takeWhile, h1]

end CharSet
end Lox

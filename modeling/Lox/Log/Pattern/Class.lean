import Lox.Log.Pattern.Atom

/-!
# Bracketed classes

A class is read from left to right. The classes around the one being read are kept on a list,
innermost first. Of all that has been read only the depth of nesting is kept: operators nest to the
left, and a class adds a level to what it holds.

Without tables of cases a caseless class can be had only if no character stands in it, as in
`[&&]`.
-/
namespace Lox
namespace Log
namespace Pattern

/-! ## Nesting -/

/-- The depth of things in a row, from the depth of each: a row of two or more is a level. -/
def nesting : List Nat → Nat
  | [] => 0
  | [d] => d
  | ds => ds.foldl max 0 + 1

/-- A class that is not closed yet: the depth of all up to its last operator, and the depths of the
items after that, last first. -/
structure OpenClass where
  before : Option Nat := none
  items : List Nat := []
  deriving DecidableEq, Repr

namespace OpenClass

def depth (k : OpenClass) : Nat :=
  match k.before with
  | none => nesting k.items
  | some d => max d (nesting k.items) + 1

def add (k : OpenClass) (d : Nat) : OpenClass := { k with items := d :: k.items }

/-- After an operator. -/
def operator (k : OpenClass) : OpenClass := { before := some k.depth }

end OpenClass

/-! ## Reading -/

def asciiClasses : List (List Char) :=
  ["alnum".toList, "alpha".toList, "ascii".toList, "blank".toList, "cntrl".toList, "digit".toList,
    "graph".toList, "lower".toList, "print".toList, "punct".toList, "space".toList, "upper".toList,
    "word".toList, "xdigit".toList]

/-- A named class such as `[:alpha:]`, after its bracket: whether it is negated, and the rest. -/
def asciiClass? : List Char → Option (Bool × List Char)
  | ':' :: cs =>
    let negated := cs.head? = some '^'
    let cs := if negated then cs.tail else cs
    match cs.dropWhile (· != ':') with
    | ':' :: ']' :: rest =>
      if cs.takeWhile (· != ':') ∈ asciiClasses then some (negated, rest) else none
    | _ => none
  | _ => none

/-- Dashes at the start of a class are items, and stand for themselves. -/
def leadingDashes (m : Modes) : (fuel : Nat) → (items : List Nat) → List Char →
    List Nat × List Char
  | 0, items, cs => (items, cs)
  | fuel + 1, items, cs =>
    match m.skip cs with
    | '-' :: rest => leadingDashes m fuel (0 :: items) rest
    | cs => (items, cs)

/-- The start of a class, after its bracket. A closing bracket stands for itself at the very
start. -/
def classStart (m : Modes) (fuel : Nat) (cs : List Char) : Option (OpenClass × List Char) :=
  let inner := m.skip cs
  let negated := inner.head? = some '^'
  let inner := if negated then m.skip inner.tail else inner
  let (items, rest) :=
    match inner with
    | ']' :: rest => ([0], rest)
    | inner => leadingDashes m fuel [] inner
  if (items.isEmpty || m.knowsCases) && (m.unicode || !negated) then some ({ items := items }, rest)
  else none

/-- A character or an escape in a class. -/
def classAtom (m : Modes) : List Char → Option (Atom × List Char)
  | [] => none
  | '\\' :: rest =>
    match escaped m rest with
    | some (.char c byte, rest) => if m.allowsInClass c then some (.char c byte, rest) else none
    | some (.characters, rest) => some (.characters, rest)
    | _ => none
  | c :: rest => if m.allowsInClass c then some (.char c false, rest) else none

/-- An item of a class or a range of characters, the first one not after the last. A dash before a
bracket or before another dash makes no range. -/
def classItem (m : Modes) (cs : List Char) : Option (List Char) :=
  match classAtom m cs with
  | none => none
  | some (first, rest) =>
    match m.skip rest with
    | [] => none
    | '-' :: rest =>
      if m.peek rest = some ']' ∨ m.peek rest = some '-' then some ('-' :: rest)
      else
        match first, classAtom m (m.skip rest) with
        | .char low _, some (.char high _, rest) => if low ≤ high then some rest else none
        | _, _ => none
    | rest => some rest

/-- The depth of the outermost class and the rest after it, from inside the class `k`. -/
def classEnd (m : Modes) : (fuel : Nat) → (k : OpenClass) → (outer : List OpenClass) →
    List Char → Option (Nat × List Char)
  | 0, _, _, _ => none
  | fuel + 1, k, outer, cs =>
    match m.skip cs with
    | [] => none
    | '[' :: rest =>
      match asciiClass? rest with
      | some (negated, rest) =>
        if m.knowsCases && (m.unicode || !negated) then classEnd m fuel (k.add 0) outer rest
        else none
      | none =>
        match classStart m fuel rest with
        | none => none
        | some (inner, rest) => classEnd m fuel inner (k :: outer) rest
    | ']' :: rest =>
      match outer with
      | [] => some (k.depth + 1, rest)
      | o :: outer => classEnd m fuel (o.add (k.depth + 1)) outer rest
    | '&' :: '&' :: rest => classEnd m fuel k.operator outer rest
    | '-' :: '-' :: rest => classEnd m fuel k.operator outer rest
    | '~' :: '~' :: rest => classEnd m fuel k.operator outer rest
    | cs =>
      match classItem m cs with
      | none => none
      | some rest => classEnd m fuel (k.add 0) outer rest

/-- A class, after its bracket: its depth and the rest. Each step reads a character, so that fuel
beyond the length of `cs` is enough. -/
def bracketed (m : Modes) (fuel : Nat) (cs : List Char) : Option (Nat × List Char) :=
  match classStart m fuel cs with
  | none => none
  | some (k, rest) => classEnd m fuel k [] rest

end Pattern
end Log
end Lox

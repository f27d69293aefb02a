import Lox.Log.Pattern.Class
import Lox.Text.Alphanumeric

/-!
# Value patterns

A value pattern is a number, a truth value or a regular expression. What it matches never matters
here, only whether it can be read.

An expression is read from left to right. Open groups are kept on a list, innermost first, each with
its modes; a mode set inside a group ends with it. A star needs something to repeat, so it cannot
stand first, after a bar, or after a change of modes. Braces are never closed, since a closing brace
ends the pattern before.

Of what has been read only the depth of nesting is kept, for which there is a limit. Groups,
classes, repetitions, and rows of two or more parts or branches are levels.
-/
namespace Lox
namespace Log
namespace Pattern

/-- The levels that may be nested. -/
def nestingLimit : Nat := 250

/-! ## Groups -/

/-- A part of a branch. A change of modes cannot be repeated. -/
inductive Part
  | modes
  | item (depth : Nat)
  deriving DecidableEq, Repr

def Part.depth : Part → Nat
  | .modes => 0
  | .item d => d

/-- A group that is not closed yet: the depths of the branches before the last bar, and the parts
after it, last first. -/
structure OpenGroup where
  modes : Modes := {}
  branches : List Nat := []
  parts : List Part := []
  deriving DecidableEq, Repr

namespace OpenGroup

def branchDepth (g : OpenGroup) : Nat := nesting (g.parts.map Part.depth)

def depth (g : OpenGroup) : Nat := nesting (g.branchDepth :: g.branches)

def add (g : OpenGroup) (d : Nat) : OpenGroup := { g with parts := .item d :: g.parts }

def setModes (g : OpenGroup) (m : Modes) : OpenGroup :=
  { g with modes := m, parts := .modes :: g.parts }

/-- After a bar. -/
def bar (g : OpenGroup) : OpenGroup :=
  { g with branches := g.branchDepth :: g.branches, parts := [] }

/-- With the last part repeated. -/
def repeatLast? (g : OpenGroup) : Option OpenGroup :=
  match g.parts with
  | .item d :: parts => some { g with parts := .item (d + 1) :: parts }
  | _ => none

end OpenGroup

/-- How far an expression has been read. -/
structure State where
  group : OpenGroup := {}
  outer : List OpenGroup := []
  names : List (List Char) := []
  deriving DecidableEq, Repr

namespace State

def modes (s : State) : Modes := s.group.modes

/-- After a part that can be repeated. -/
def item (s : State) (d : Nat) : State := { s with group := s.group.add d }

/-- In a new group with modes of its own. -/
def enter (s : State) (m : Modes) : State :=
  { s with group := { modes := m }, outer := s.group :: s.outer }

/-- After the end of the group. -/
def leave? (s : State) : Option State :=
  match s.outer with
  | [] => none
  | g :: outer => some { s with group := g.add (s.group.depth + 1), outer := outer }

/-- Whether an expression may end here. -/
def mayEnd (s : State) : Bool := s.outer.isEmpty && s.group.depth ≤ nestingLimit

end State

def startsName (c : Char) : Bool := c == '_' || Text.isAlphabetic c

def continuesName (c : Char) : Bool :=
  c == '_' || c == '.' || c == '[' || c == ']' || Text.isAlphanumeric c

/-- The name of a group, no other group having it, up to an angle bracket. -/
def named (s : State) (cs : List Char) : Option (State × List Char) :=
  match cs.takeWhile (· != '>'), cs.dropWhile (· != '>') with
  | c :: name, _ :: rest =>
    if startsName c && name.all continuesName && !s.names.contains (c :: name) then
      some ({ s.enter s.modes with names := (c :: name) :: s.names }, rest)
    else none
  | _, _ => none

/-- After an opening parenthesis. Looking ahead or behind is not part of the language. -/
def groupStart (s : State) (cs : List Char) : Option (State × List Char) :=
  match s.modes.skip cs with
  | '?' :: 'P' :: '<' :: rest => named s rest
  | '?' :: '<' :: rest => named s rest
  | '?' :: rest =>
    match flags s.modes [] rest with
    | none => none
    | some (m, c, rest) =>
      if c = ':' then some (s.enter m, rest)
      else some ({ s with group := s.group.setModes m }, rest)
  | rest => some (s.enter s.modes, rest)

/-! ## Expressions -/

/-- Whether the rest of an expression can be read. A question mark right after a star, a plus or a
question mark belongs to it. -/
def readable (s : State) : (fuel : Nat) → List Char → Bool
  | 0, _ => false
  | fuel + 1, cs =>
    match s.modes.skip cs with
    | [] => s.mayEnd
    | c :: rest =>
      if c = '(' then
        match groupStart s rest with
        | none => false
        | some (s, rest) => readable s fuel rest
      else if c = ')' then
        match s.leave? with
        | none => false
        | some s => readable s fuel rest
      else if c = '|' then readable { s with group := s.group.bar } fuel rest
      else if c = '*' ∨ c = '+' ∨ c = '?' then
        match s.group.repeatLast? with
        | none => false
        | some g =>
          readable { s with group := g } fuel (if rest.head? = some '?' then rest.tail else rest)
      else if c = '{' then false
      else if c = '[' then
        match bracketed s.modes fuel rest with
        | none => false
        | some (d, rest) => readable (s.item d) fuel rest
      else if c = '.' then s.modes.unicode && readable (s.item 0) fuel rest
      else if c = '^' ∨ c = '$' then readable (s.item 0) fuel rest
      else if c = '\\' then
        match escaped s.modes rest with
        | none => false
        | some (.char d byte, rest) => s.modes.allows d byte && readable (s.item 0) fuel rest
        | some (_, rest) => readable (s.item 0) fuel rest
      else s.modes.allows c false && readable (s.item 0) fuel rest

def isExpression (cs : List Char) : Bool := readable {} (cs.length + 1) cs

/-! ## Numbers -/

def isDigits (cs : List Char) : Bool := !cs.isEmpty && cs.all Char.isDigit

def isExponent : List Char → Bool
  | [] => true
  | e :: '+' :: ds => (e == 'e' || e == 'E') && isDigits ds
  | e :: '-' :: ds => (e == 'e' || e == 'E') && isDigits ds
  | e :: ds => (e == 'e' || e == 'E') && isDigits ds

/-- A number without sign: digits before or after a point, and perhaps an exponent; or a word. -/
def isUnsigned (cs : List Char) : Bool :=
  let whole := cs.takeWhile Char.isDigit
  let rest := cs.dropWhile Char.isDigit
  let after := if rest.head? = some '.' then rest.tail else []
  let rest := if rest.head? = some '.' then after.dropWhile Char.isDigit else rest
  let lower := cs.map Char.toLower
  (!(whole ++ after.takeWhile Char.isDigit).isEmpty && isExponent rest) ||
    lower == "inf".toList || lower == "infinity".toList || lower == "nan".toList

end Pattern

/-- Whether a text is a value pattern. Only a number with a plus is no expression as well. -/
def isPattern (cs : List Char) : Bool :=
  Pattern.isExpression cs || (cs.head? = some '+' && Pattern.isUnsigned cs.tail)

end Log
end Lox

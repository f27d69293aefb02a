import Lox.Log.Directive

/-!
# Log filters

A filter says which events are shown. It is written as directives between commas. A directive holds
for the targets that start with its own, and of several the one with the longest target decides; of
those with the same target, the one that names a value of the event, and of these the one with the
greatest name. The later of two that agree in all this comes in the place of the earlier.

Empty pieces say nothing, and a text without directives shows errors only. If one directive cannot
be read, the whole text counts as `warn`.
-/
namespace Lox
namespace Log

abbrev Filter := List Directive

/-- The pieces between commas. -/
def splitCommas : List Char → List (List Char)
  | [] => [[]]
  | c :: cs =>
    if c = ',' then [] :: splitCommas cs
    else
      match splitCommas cs with
      | [] => [[c]]
      | piece :: rest => (c :: piece) :: rest

namespace Filter

def upTo (level : Level) : Filter := [{ target := [], reach := level.rank }]

/-- The directives of a text, or why the first that is not one was not read. -/
def directives (text : List Char) : Except Refusal Filter :=
  ((splitCommas text).filter (· != [])).mapM Directive.ofText

/-- Nothing for a text that has a place inside a character. -/
def ofText? (text : List Char) : Option Filter :=
  match directives text with
  | .ok [] => some (upTo .error)
  | .ok ds => some ds
  | .error .unreadable => some (upTo .warn)
  | .error .insideCharacter => none

/-! ## What is shown -/

/-- Whether a directive holds for events of a target that have these values. -/
def fits (d : Directive) (target : List Char) (values : List (List Char)) : Bool :=
  d.target.isPrefixOf target &&
    match d.scope with
    | .all => true
    | .having value => values.contains value
    | .inSpan => false

/-- Whether a directive comes before another in a decision, both of them holding for an event. -/
def outranks (a b : Directive) : Bool :=
  b.target.length < a.target.length ||
    (b.target.length == a.target.length &&
      match a.scope, b.scope with
      | .having x, .having y => y < x
      | .having _, .all => true
      | _, _ => false)

/-- The directive that decides about events of a target that have these values. -/
def deciding? (f : Filter) (target : List Char) (values : List (List Char)) : Option Directive :=
  (f.filter (fits · target values)).foldl (fun best d =>
    match best with
    | none => some d
    | some b => if outranks b d then some b else some d) none

def shows (f : Filter) (target : List Char) (values : List (List Char)) (level : Level) : Bool :=
  match f.deciding? target values with
  | none => false
  | some d => level.rank ≤ d.reach

end Filter
end Log
end Lox

/-!
# Log levels

Five levels, from the weightiest on. A reach says how many of them are shown; it is written as the
name of the last level that is shown, as `off`, or as a number.
-/
namespace Lox
namespace Log

inductive Level
  | error
  | warn
  | info
  | debug
  | trace
  deriving DecidableEq, Repr

namespace Level

def all : List Level := [error, warn, info, debug, trace]

/-- From the weightiest on. -/
def rank : Level → Nat
  | error => 1
  | warn => 2
  | info => 3
  | debug => 4
  | trace => 5

def name : Level → List Char
  | error => "error".toList
  | warn => "warn".toList
  | info => "info".toList
  | debug => "debug".toList
  | trace => "trace".toList

end Level

/-- How many levels are shown, from none to all five. -/
abbrev Reach := Nat

def Reach.everything : Reach := 5

/-- A number up to five, perhaps after a plus. -/
def Reach.ofNumber? (text : List Char) : Option Reach :=
  let digits :=
    match text with
    | '+' :: ds => ds
    | ds => ds
  if digits.isEmpty || !digits.all Char.isDigit then none
  else
    let n := Nat.ofDigitChars 10 digits 0
    if n ≤ Reach.everything then some n else none

/-- The name of a level or `off`, in letters of either case. -/
def Reach.ofName? (text : List Char) : Option Reach :=
  let lower := text.map Char.toLower
  if lower = "off".toList then some 0
  else (Level.all.find? (·.name = lower)).map Level.rank

def Reach.ofText? (text : List Char) : Option Reach :=
  match ofNumber? text with
  | some n => some n
  | none => ofName? text

end Log
end Lox

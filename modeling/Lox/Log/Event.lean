import Lox.Failure
import Lox.Log.Filter
import Lox.Scan

/-!
# Log events

An event has a target, a level, perhaps a message, and named values. It is one line: the level,
right-aligned in five columns, the target, the message and the values. A scan tells of every token
and every diagnostic in the order of the text, and then of its end.

The line is that of a run with `NO_COLOR` set. Without it there are codes for colours between the
characters of the line, which are left out here.
-/
namespace Lox
namespace Log

inductive Target
  | driver
  | scanner
  deriving DecidableEq, Repr

def Target.name : Target → List Char
  | driver => "lox::driver".toList
  | scanner => "lox::lexer".toList

structure Event where
  target : Target
  level : Level
  message : List Char := []
  values : List (List Char × List Char) := []
  deriving DecidableEq, Repr

def Event.line (e : Event) : List Char :=
  let level := e.level.name.map Char.toUpper
  let message := if e.message = [] then [] else [e.message]
  let values := e.values.map fun (name, value) => name ++ '=' :: value
  List.replicate (5 - level.length) ' ' ++ level ++ ' ' :: (e.target.name ++ ':' :: ' ' ::
    (List.intercalate [' '] (message ++ values) ++ ['\n']))

/-- The names of the values of an event, the message being one of them. -/
def Event.valueNames (e : Event) : List (List Char) :=
  (if e.message = [] then [] else ["message".toList]) ++ e.values.map Prod.fst

/-- The line of an event, if the filter shows it. -/
def Filter.write (f : Filter) (e : Event) : List Char :=
  if f.shows e.target.name e.valueNames e.level then e.line else []

/-! ## The events of a scan -/

def number (n : Nat) : List Char := Nat.toDigits 10 n

def Event.ofToken (t : Token) : Event where
  target := .scanner
  level := .trace
  values := [("token".toList, t.echo), ("line".toList, number t.start.line),
    ("column".toList, number t.start.column)]

def Event.ofDiagnostic (d : Diagnostic) : Event where
  target := .scanner
  level := .debug
  message := "lexing error".toList
  values := [("line".toList, number d.place.line), ("column".toList, number d.place.column),
    ("error".toList, d.problem.message)]

def Event.ofFinding : Finding → Event
  | .token t => ofToken t
  | .problem d => ofDiagnostic d

def Event.finished (s : Scan) : Event where
  target := .scanner
  level := .debug
  message := "scan finished".toList
  values := [("tokens".toList, number s.tokens.length), ("lines".toList, number s.stop.line)]

/-! ## The events of a run -/

def Event.defaultConfig (failure : ConfigFailure) : Event where
  target := .driver
  level := .warn
  message := "using default config".toList
  values := [("err".toList, failure.message)]

def Event.scanning (path : Path) (size : Nat) : Event where
  target := .driver
  level := .info
  message := "scanning file".toList
  values := [("path".toList, path.display), ("bytes".toList, number size)]

def Event.badLine (count : Nat) : Event where
  target := .driver
  level := .debug
  message := "line had errors".toList
  values := [("errors".toList, number count)]

end Log
end Lox

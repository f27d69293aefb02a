import Lox.Json.Record
import Lox.Text.Utf8
import Lox.Text.Visible

/-!
# Faults in a JSON text

A fault has a cause and a place. While a text is read the place is kept as the bytes that are left
after it; only the message turns it into a line and a column. Columns count bytes from the last
line feed, so a fault right after a line feed has column 0.
-/
namespace Lox
namespace Json

/-- What stood where another type of value was expected. -/
inductive Found
  | null
  | bool (b : Bool)
  | integer (n : Int)
  | float (x : Binary64)
  | text (s : List Char)
  | list
  | object
  deriving DecidableEq, Repr

inductive Cause
  | endInValue | endInList | endInObject | endInString
  | expectedValue | expectedWord | expectedColon | expectedListComma | expectedObjectComma
  | keyNotText | trailingComma | trailingText
  | badNumber | numberTooLarge
  | badEscape | loneSurrogate | unpairedEscape | controlCharacter
  | wrongType (found : Found) (expected : List Char)
  | unknownVariant (name : List Char) (known : List (List Char))
  | duplicateField (name : List Char)
  deriving DecidableEq, Repr

/-- Text in quotes, for a message. Characters that leave no mark are written as their numbers. -/
def Found.quoted (s : List Char) : List Char :=
  '"' :: (s.flatMap fun c =>
    if c = '"' ∨ c = '\\' then ['\\', c]
    else if c = '\n' then ['\\', 'n']
    else if c = '\r' then ['\\', 'r']
    else if c = '\t' then ['\\', 't']
    else if c = '\x00' then ['\\', '0']
    else if Text.isVisible c then [c]
    else '\\' :: 'u' :: '\x7b' :: (Nat.toDigits 16 c.toNat ++ ['\x7d'])) ++ ['"']

def ticked (s : List Char) : List Char := '`' :: (s ++ ['`'])

def Found.message : Found → List Char
  | null => "null".toList
  | bool b => "boolean ".toList ++ ticked (if b then "true".toList else "false".toList)
  | integer n =>
    "integer ".toList ++ ticked ((if n < 0 then ['-'] else []) ++ Nat.toDigits 10 n.natAbs)
  | float x => "floating point ".toList ++ ticked (Json.number x)
  | text s => "string ".toList ++ quoted s
  | list => "sequence".toList
  | object => "map".toList

def Cause.message : Cause → List Char
  | endInValue => "EOF while parsing a value".toList
  | endInList => "EOF while parsing a list".toList
  | endInObject => "EOF while parsing an object".toList
  | endInString => "EOF while parsing a string".toList
  | expectedValue => "expected value".toList
  | expectedWord => "expected ident".toList
  | expectedColon => "expected `:`".toList
  | expectedListComma => "expected `,` or `]`".toList
  | expectedObjectComma => "expected `,` or `\x7d`".toList
  | keyNotText => "key must be a string".toList
  | trailingComma => "trailing comma".toList
  | trailingText => "trailing characters".toList
  | badNumber => "invalid number".toList
  | numberTooLarge => "number out of range".toList
  | badEscape => "invalid escape".toList
  | loneSurrogate => "lone leading surrogate in hex escape".toList
  | unpairedEscape => "unexpected end of hex escape".toList
  | controlCharacter =>
    "control character (\\u0000-\\u001F) found while parsing a string".toList
  | wrongType found expected =>
    "invalid type: ".toList ++ found.message ++ ", expected ".toList ++ expected
  | unknownVariant name known =>
    "unknown variant ".toList ++ ticked name ++ ", expected ".toList ++
      List.intercalate " or ".toList (known.map ticked)
  | duplicateField name => "duplicate field ".toList ++ ticked name

/-- A cause, and the bytes that are left after the place of the fault. -/
structure Fault where
  cause : Cause
  rest : Bytes
  deriving DecidableEq, Repr

/-! ## Lines and columns -/

/-- A fault with its place in the whole text. -/
structure Located where
  cause : Cause
  line : Nat
  column : Nat
  deriving DecidableEq, Repr

/-- Line and column after some bytes, from the ones before them. -/
def lineColumn : Nat × Nat → Bytes → Nat × Nat
  | place, [] => place
  | (line, column), b :: bs =>
    lineColumn (if b = Utf8.ascii '\n' then (line + 1, 0) else (line, column + 1)) bs

def Fault.locate (document : Bytes) (f : Fault) : Located :=
  let (line, column) := lineColumn (1, 0) (document.take (document.length - f.rest.length))
  ⟨f.cause, line, column⟩

def Located.message (l : Located) : List Char :=
  l.cause.message ++ " at line ".toList ++ Nat.toDigits 10 l.line ++ " column ".toList ++
    Nat.toDigits 10 l.column

end Json
end Lox

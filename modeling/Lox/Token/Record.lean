import Lox.Json.Record
import Lox.Token.Basic

/-!
# Tokens as JSON

A token is a record of its kind, text, value, line, column and length, in this order. The value of
a string is text, that of a number a number, and no value is null.
-/
namespace Lox

def Literal.scalar : Literal → Json.Scalar
  | string value => .text value
  | number value => .number value

def Token.record (t : Token) : Json.Record :=
  [("kind".toList, .text t.kind.name),
   ("lexeme".toList, .text t.lexeme),
   ("literal".toList, (t.literal.map Literal.scalar).getD .null),
   ("line".toList, .count t.start.line),
   ("column".toList, .count t.start.column),
   ("length".toList, .count t.length)]

/-- How scanned tokens are echoed. -/
inductive Format
  | text
  | json
  deriving DecidableEq, Repr

namespace Format

def all : List Format := [text, json]

def name : Format → List Char
  | text => "text".toList
  | json => "json".toList

def ofName? (s : List Char) : Option Format := all.find? (·.name = s)

/-- Letters of either case are taken, in ASCII. -/
def ofNameIgnoringCase? (s : List Char) : Option Format := ofName? (s.map Char.toLower)

/-- The echo of a list of tokens: a line for each, or one JSON array. -/
def echo (tokens : List Token) : Format → List Char
  | text => tokens.flatMap (·.echo ++ ['\n'])
  | json => Json.Record.prettyAll (tokens.map Token.record) ++ ['\n']

end Format
end Lox

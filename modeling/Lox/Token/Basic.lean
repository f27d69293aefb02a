import Lox.Decimal.Style
import Lox.Text.Position
import Lox.Token.Kind

/-!
# Tokens

A token is a kind, the source text it was cut from, the value of a string or number, and the place
where it starts. Its length is the number of characters of its text; every token is made with that
length, so it is computed from the text and not kept beside it. The echo of a token is its kind, text
and value on one line, `null` standing for no value; number values keep a `.0` and turn scientific
below 10^-4 and from 10^16 on.
-/
namespace Lox

/-- The value of a string or a number token. -/
inductive Literal
  | string (value : List Char)
  | number (value : Binary64)
  deriving DecidableEq, Repr

namespace Literal

def style : Decimal.Style where
  positional leading := -4 ≤ leading && leading < 16
  wholePoint := true
  exponentPlus := false
  tie := .up

def echo : Literal → List Char
  | string value => value
  | number value => style.write value

/-- Numbers are compared by value. -/
def same : Literal → Literal → Bool
  | string a, string b => a == b
  | number x, number y => x.same y
  | _, _ => false

end Literal

structure Token where
  kind : Kind
  lexeme : List Char
  literal : Option Literal := none
  start : Position := {}
  deriving DecidableEq, Repr

namespace Token

/-- The token at the end of every text. -/
def endOfText (place : Position) : Token := { kind := .eof, lexeme := [], start := place }

def length (t : Token) : Nat := t.lexeme.length

def echo (t : Token) : List Char :=
  t.kind.name ++ ' ' :: (t.lexeme ++ ' ' :: (t.literal.map Literal.echo).getD "null".toList)

/-- Equality of all fields, numbers being compared by value. -/
def same (t u : Token) : Bool :=
  t.kind == u.kind && t.lexeme == u.lexeme && t.start == u.start &&
    match t.literal, u.literal with
    | none, none => true
    | some a, some b => a.same b
    | _, _ => false

end Token
end Lox

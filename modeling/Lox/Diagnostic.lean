import Lox.Text.Position

/-!
# Diagnostics

Two things can be wrong with a source text: a character that starts no token, reported where it
stands, and a string without its closing quote, reported at the end of the text. Neither stops a
scan. The message names the line and not the character.
-/
namespace Lox

inductive Problem
  | unexpected (c : Char)
  | unterminated
  deriving DecidableEq, Repr

def Problem.message : Problem → List Char
  | unexpected _ => "Unexpected character.".toList
  | unterminated => "Unterminated string".toList

/-- A problem and the place it was found at. -/
structure Diagnostic where
  place : Position
  problem : Problem
  deriving DecidableEq, Repr

def Diagnostic.message (d : Diagnostic) : List Char :=
  "[line ".toList ++ Nat.toDigits 10 d.place.line ++ "] Error: ".toList ++ d.problem.message

end Lox

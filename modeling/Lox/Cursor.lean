import Lox.Decimal.OfText
import Lox.Scan

/-!
# The scanner as a machine

A scan told step by step. A cursor moves over the text, one character at a step at most, and keeps
its place; the token that is being read starts where the cursor was before its first character.
Behind the end of the text the cursor sees U+0000, which can stand in the text as well.

Two things break a run off: going on behind the last character, and taking a slice that is none of
the text. A number that cannot be read would be passed over.
-/
namespace Lox
namespace Cursor

inductive Fault
  | pastEnd
  | badSlice
  deriving DecidableEq, Repr

/-- The points that a run comes through. -/
inductive Mode
  | between                       -- before a token, or at the end of the text
  | first                         -- at the first character of a token
  | pair (short long : Symbol)    -- behind a character that `=` can follow
  | slash
  | comment
  | string
  | whole
  | fraction
  | word
  | unread                        -- at a number that could not be read
  | halted
  deriving DecidableEq, Repr

structure State where
  start : Nat := 0
  current : Nat := 0
  startPlace : Position := {}
  place : Position := {}
  found : List Finding := []
  mode : Mode := .between
  deriving DecidableEq, Repr

/-- The cursor behind the character that it stood before. -/
def State.moved (s : State) (c : Char) : State :=
  { s with current := s.current + 1, place := s.place.next c }

/-- Behind a token or a problem. -/
def State.finding (s : State) (f : Finding) : State :=
  { s with found := s.found ++ [f], mode := .between }

section
variable (source : List Char)

/-! ## Looking ahead -/

def atEnd (s : State) : Bool := source.length ≤ s.current

def peek (s : State) : Char := source.getD s.current '\x00'

def peekNext (s : State) : Char := source.getD (s.current + 1) '\x00'

/-! ## Moving on -/

/-- Reads a character, wherever the cursor is. -/
def advance (s : State) : Except Fault (Char × State) :=
  match source[s.current]? with
  | none => .error .pastEnd
  | some c => .ok (c, s.moved c)

/-- Reads a character in the same mode. -/
def pass (s : State) : Except Fault State := do
  let (_, s) ← advance source s
  return s

/-- Reads a character if it is the expected one. -/
def eat (expected : Char) (s : State) : Except Fault (Bool × State) :=
  if atEnd source s = true ∨ peek source s ≠ expected then .ok (false, s)
  else do
    let s ← pass source s
    return (true, s)

/-! ## Taking what was read -/

/-- The characters from one offset to another. -/
def slice (i j : Nat) : Except Fault (List Char) :=
  if i ≤ j ∧ j ≤ source.length then .ok ((source.drop i).take (j - i)) else .error .badSlice

def lexeme (s : State) : Except Fault (List Char) := slice source s.start s.current

def push (kind : Kind) (literal : Option Literal) (s : State) : Except Fault State := do
  let text ← lexeme source s
  return s.finding (.token ⟨kind, text, literal, s.startPlace⟩)

def pushNumber (s : State) : Except Fault State := do
  let text ← lexeme source s
  match Binary64.ofText? text with
  | some x => push source .number (some (.number x)) s
  | none => return { s with mode := .unread }

def pushWord (s : State) : Except Fault State := do
  let text ← lexeme source s
  push source (.ofWord text) none s

/-- The closing quote, and the string between the quotes. -/
def closeString (s : State) : Except Fault State := do
  let s ← pass source s
  let value ← slice source (s.start + 1) (s.current - 1)
  push source .string (some (.string value)) s

/-! ## Steps -/

/-- Goes by the first character of a token, `s` being behind it. -/
def begin (c : Char) (s : State) : Except Fault State :=
  match Symbol.single? c with
  | some symbol =>
    if symbol = .slash then .ok { s with mode := .slash }
    else
      match symbol.withEqual? with
      | some long => .ok { s with mode := .pair symbol long }
      | none => push source (.symbol symbol) none s
  | none =>
    if Piece.isBlank c then .ok { s with mode := .between }
    else if c = '"' then .ok { s with mode := .string }
    else if c.isDigit then .ok { s with mode := .whole }
    else if Piece.isWordStart c then .ok { s with mode := .word }
    else .ok (s.finding (.problem ⟨s.startPlace, .unexpected c⟩))

def step (s : State) : Except Fault State :=
  match s.mode with
  | .between =>
    if atEnd source s then .ok { s with mode := .halted }
    else .ok { s with start := s.current, startPlace := s.place, mode := .first }
  | .first => do
    let (c, s) ← advance source s
    begin source c s
  | .pair short long => do
    let (eaten, s) ← eat source '=' s
    push source (.symbol (if eaten then long else short)) none s
  | .slash => do
    let (eaten, s) ← eat source '/' s
    if eaten then return { s with mode := .comment } else push source (.symbol .slash) none s
  | .comment =>
    if atEnd source s = false ∧ peek source s ≠ '\n' then pass source s
    else .ok { s with mode := .between }
  | .string =>
    if atEnd source s = false ∧ peek source s ≠ '"' then pass source s
    else if atEnd source s then .ok (s.finding (.problem ⟨s.place, .unterminated⟩))
    else closeString source s
  | .whole =>
    if (peek source s).isDigit then pass source s
    else if peek source s = '.' ∧ (peekNext source s).isDigit = true then do
      let s ← pass source s
      return { s with mode := .fraction }
    else pushNumber source s
  | .fraction =>
    if (peek source s).isDigit then pass source s else pushNumber source s
  | .word =>
    if Piece.isWordChar (peek source s) then pass source s else pushWord source s
  | .unread => .ok { s with mode := .between }
  | .halted => .ok s

/-- The state after so many steps. A run that has halted stays where it is. -/
def states : Nat → Except Fault State
  | 0 => .ok {}
  | n + 1 => do
    let s ← states n
    step source s

end
end Cursor
end Lox

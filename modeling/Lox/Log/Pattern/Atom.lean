import Lox.Text.Blank

/-!
# Modes and escapes of an expression

What an expression means hangs on the modes set before: whether letters of either case are the same,
whether it speaks of characters or of bytes, and whether blanks and comments are left out of it.

Tables of letters and cases belong to no expression: escapes such as `\w`, word boundaries and
caseless letters can be had in ASCII only, where the mode for bytes is set.
-/
namespace Lox
namespace Log
namespace Pattern

/-! ## Modes -/

structure Modes where
  caseless : Bool := false
  unicode : Bool := true
  spaced : Bool := false      -- blanks and comments mean nothing
  deriving DecidableEq, Repr

/-- Leaves out blanks, and comments from `#` to the end of their line. -/
def skipSpaces : (inComment : Bool) → List Char → List Char
  | _, [] => []
  | true, c :: cs => skipSpaces (c != '\n') cs
  | false, c :: cs =>
    if Text.isBlank c then skipSpaces false cs
    else if c = '#' then skipSpaces true cs
    else c :: cs

/-- Where a dash in a class is followed by `cs`, the character that tells whether it makes a range.
Blanks are passed, and a comment is not: its first character that is no blank counts, as does the
first character of `cs` if there is no other. -/
def peekSpaces (cs : List Char) : Option Char :=
  match cs.dropWhile Text.isBlank with
  | '#' :: rest => (rest.dropWhile Text.isBlank).head?.or cs.head?
  | rest => rest.head?.or cs.head?

namespace Modes

def skip (m : Modes) (cs : List Char) : List Char := if m.spaced then skipSpaces false cs else cs

def peek (m : Modes) (cs : List Char) : Option Char :=
  if m.spaced then peekSpaces cs else cs.head?

def set (m : Modes) (flag : Char) (on : Bool) : Modes :=
  if flag = 'i' then { m with caseless := on }
  else if flag = 'u' then { m with unicode := on }
  else if flag = 'x' then { m with spaced := on }
  else m

/-- Whether the other case of a letter, if it is asked for, can be found. -/
def knowsCases (m : Modes) : Bool := !(m.unicode && m.caseless)

/-- Whether a character may stand for itself. -/
def allows (m : Modes) (c : Char) (byte : Bool) : Bool :=
  m.knowsCases && (m.unicode || !byte || c.toNat < 0x80)

/-- Whether a character may stand in a class. -/
def allowsInClass (m : Modes) (c : Char) : Bool :=
  m.knowsCases && (m.unicode || c.toNat < 0x80)

end Modes

/-- The modes after some flags, the sign or bracket that ends these, and the rest. Each flag stands
once, and a minus turns off those after it. -/
def flags (m : Modes) (seen : List Char) : List Char → Option (Modes × Char × List Char)
  | [] => none
  | c :: cs =>
    if c = ':' ∨ c = ')' ∧ seen ≠ [] then
      if seen.head? = some '-' then none else some (m, c, cs)
    else if c ∈ seen ∨ c ∉ "imsUuRx-".toList then none
    else flags (m.set c ('-' ∉ seen)) (c :: seen) cs

/-! ## Escapes -/

/-- What stands at one place of an expression. -/
inductive Atom
  | char (c : Char) (byte : Bool)     -- `byte` for two hexadecimal digits
  | characters
  | position
  deriving DecidableEq, Repr

def hexValue? (c : Char) : Option Nat :=
  if c.isDigit then some (c.toNat - 0x30)
  else if 'a' ≤ c ∧ c ≤ 'f' then some (c.toNat - 0x57)
  else if 'A' ≤ c ∧ c ≤ 'F' then some (c.toNat - 0x37)
  else none

/-- The number that a fixed number of hexadecimal digits spell, added to `n`. -/
def hexDigits (m : Modes) : Nat → Nat → List Char → Option (Nat × List Char)
  | 0, n, cs => some (n, cs)
  | owed + 1, n, cs =>
    match m.skip cs with
    | [] => none
    | c :: rest => (hexValue? c).bind fun d => hexDigits m owed (n * 16 + d) rest

def hexChar (m : Modes) (count : Nat) (cs : List Char) : Option (Atom × List Char) :=
  match hexDigits m count 0 cs with
  | none => none
  | some (n, rest) => if n.isValidChar then some (.char (.ofNat n) (count = 2), rest) else none

/-- The control character that a letter stands for. -/
def control? (c : Char) : Option Char :=
  if c = 'a' then some '\x07'
  else if c = 'f' then some '\x0c'
  else if c = 't' then some '\t'
  else if c = 'n' then some '\n'
  else if c = 'r' then some '\r'
  else if c = 'v' then some '\x0b'
  else none

/-- What follows a backslash. -/
def escaped (m : Modes) : List Char → Option (Atom × List Char)
  | [] => none
  | c :: rest =>
    if c = 'x' then hexChar m 2 rest
    else if c = 'u' then hexChar m 4 rest
    else if c = 'U' then hexChar m 8 rest
    else if c = 'd' ∨ c = 's' ∨ c = 'w' then
      if m.unicode then none else some (.characters, rest)
    else if c = 'b' ∨ c = 'B' ∨ c = '<' ∨ c = '>' then
      if m.unicode then none else some (.position, rest)
    else if c = 'A' ∨ c = 'z' then some (.position, rest)
    else
      match control? c with
      | some d => some (.char d false, rest)
      | none => if c.toNat < 0x80 ∧ !c.isAlphanum then some (.char c false, rest) else none

end Pattern
end Log
end Lox

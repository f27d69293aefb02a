/-!
# Positions in a text

Lines and columns count from 1. A line feed ends its line, so the character after it stands at
column 1 of the next one; every other character, a carriage return and a tab included, takes one
column.

Results: reading two texts one after the other is reading their concatenation (`after_append`),
and the number of lines passed is the number of line feeds (`after_line`).
-/
namespace Lox

/-- A place in a text: a line and a column on it. -/
structure Position where
  line : Nat := 1
  column : Nat := 1
  deriving DecidableEq, Repr

namespace Position

/-- The place after a character that stands at `p`. -/
def next (p : Position) (c : Char) : Position :=
  if c = '\n' then ⟨p.line + 1, 1⟩ else ⟨p.line, p.column + 1⟩

/-- The place after a text that starts at `p`. -/
def after (p : Position) (text : List Char) : Position := text.foldl next p

@[simp] theorem after_nil (p : Position) : p.after [] = p := rfl

@[simp] theorem after_cons (p : Position) (c : Char) (cs : List Char) :
    p.after (c :: cs) = (p.next c).after cs := rfl

theorem after_append (p : Position) (as bs : List Char) :
    p.after (as ++ bs) = (p.after as).after bs := by
  simp [after, List.foldl_append]

theorem after_line (p : Position) (cs : List Char) :
    (p.after cs).line = p.line + cs.count '\n' := by
  induction cs generalizing p with
  | nil => rfl
  | cons c cs ih =>
    rw [after_cons, ih]
    by_cases h : c = '\n'
    · subst h; simp [next]; omega
    · simp [next, h]

end Position

end Lox

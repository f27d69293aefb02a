import Lox.Decimal.Nearest
import Lox.Token.Basic

/-!
# Pieces of a source text

A text is cut from left to right into pieces, each as long as its class allows: a blank, a comment
up to the end of its line, a string, a number, a word, or a symbol. A quote that is never closed
takes the rest of the text, and a character that starts none of these is a piece of its own.

Results: a cut loses nothing (`cut_text`) and takes at least one character (`cut_length`), so the
pieces of a text join back to it (`pieces_text`).
-/
namespace Lox

inductive Piece
  | blank (c : Char)
  | comment (body : List Char)                              -- after the two slashes
  | string (body : List Char)                               -- between the quotes
  | number (whole : List Char) (fraction : Option (List Char))
  | word (text : List Char)
  | symbol (s : Symbol)
  | unclosed (body : List Char)                             -- after the opening quote
  | stray (c : Char)
  deriving DecidableEq, Repr

namespace Piece

/-! ## Classes of characters -/

def isBlank (c : Char) : Bool := c == ' ' || c == '\r' || c == '\t' || c == '\n'

/-- ASCII letters and the underscore. -/
def isWordStart (c : Char) : Bool := c.isAlpha || c == '_'

def isWordChar (c : Char) : Bool := isWordStart c || c.isDigit

/-! ## The text of a piece -/

def text : Piece → List Char
  | blank c => [c]
  | comment body => '/' :: '/' :: body
  | string body => '"' :: (body ++ ['"'])
  | number whole none => whole
  | number whole (some fraction) => whole ++ '.' :: fraction
  | word text => text
  | symbol s => s.spelling
  | unclosed body => '"' :: body
  | stray c => [c]

/-! ## Cutting -/

/-- A fraction needs a digit right after its point; a point without one stays in the text. -/
def cutFraction : List Char → Option (List Char) × List Char
  | '.' :: d :: cs =>
    if d.isDigit then (some (d :: cs.takeWhile Char.isDigit), cs.dropWhile Char.isDigit)
    else (none, '.' :: d :: cs)
  | cs => (none, cs)

def cutNumber (cs : List Char) : Piece × List Char :=
  let (fraction, rest) := cutFraction (cs.dropWhile Char.isDigit)
  (number (cs.takeWhile Char.isDigit) fraction, rest)

/-- A string runs to the next quote, over line ends too. -/
def cutString (cs : List Char) : Piece × List Char :=
  match cs.dropWhile (· != '"') with
  | [] => (unclosed cs, [])
  | _ :: rest => (string (cs.takeWhile (· != '"')), rest)

/-- A symbol takes a following `=` if the two spell a symbol together. -/
def cutSymbol (s : Symbol) : List Char → Piece × List Char
  | '=' :: cs =>
    match s.withEqual? with
    | some t => (symbol t, cs)
    | none => (symbol s, '=' :: cs)
  | cs => (symbol s, cs)

/-- The first piece of the text `c :: cs`, and the text after it. -/
def cut (c : Char) (cs : List Char) : Piece × List Char :=
  if isBlank c then (blank c, cs)
  else if c.isDigit then cutNumber (c :: cs)
  else if isWordStart c then
    (word (c :: cs.takeWhile isWordChar), cs.dropWhile isWordChar)
  else if c = '"' then cutString cs
  else if c = '/' ∧ cs.head? = some '/' then
    (comment (cs.tail.takeWhile (· != '\n')), cs.tail.dropWhile (· != '\n'))
  else
    match Symbol.single? c with
    | some s => cutSymbol s cs
    | none => (stray c, cs)

/-! ## A cut loses nothing -/

theorem cutFraction_text (w cs : List Char) :
    (number w (cutFraction cs).1).text ++ (cutFraction cs).2 = w ++ cs := by
  fun_cases cutFraction cs <;> simp_all [text, List.takeWhile_append_dropWhile]

theorem cutNumber_text (cs : List Char) :
    (cutNumber cs).1.text ++ (cutNumber cs).2 = cs := by
  simp only [cutNumber]
  rw [cutFraction_text, List.takeWhile_append_dropWhile]

theorem cutString_text (cs : List Char) :
    (cutString cs).1.text ++ (cutString cs).2 = '"' :: cs := by
  unfold cutString
  split
  · simp [text]
  · rename_i c rest h
    have hc : c = '"' := by
      have := List.head_dropWhile_not (· != '"') (l := cs) (by simp [h])
      simpa [h] using this
    have e := List.takeWhile_append_dropWhile (p := (· != '"')) (l := cs)
    rw [h, hc] at e
    simp [text, e]

theorem cutSymbol_text (s : Symbol) (cs : List Char) :
    (cutSymbol s cs).1.text ++ (cutSymbol s cs).2 = s.spelling ++ cs := by
  fun_cases cutSymbol s cs with
  | case1 cs t h => simp [text, Symbol.spelling_of_withEqual? h]
  | case2 cs h => simp [text]
  | case3 cs h => simp [text]

theorem cut_text (c : Char) (cs : List Char) : (cut c cs).1.text ++ (cut c cs).2 = c :: cs := by
  unfold cut
  split
  · rfl
  split
  · exact cutNumber_text _
  split
  · simp [text, List.takeWhile_append_dropWhile]
  split
  · rename_i h; subst h; exact cutString_text cs
  split
  · rename_i h
    obtain ⟨rfl, h⟩ := h
    obtain ⟨t, rfl⟩ := List.head?_eq_some_iff.1 h
    simp [text, List.takeWhile_append_dropWhile]
  split
  · rename_i s h; rw [cutSymbol_text, Symbol.single?_eq_some_iff.1 h]; rfl
  · rfl

/-! ## A cut takes at least one character -/

theorem length_dropWhile_le (p : Char → Bool) (cs : List Char) :
    (cs.dropWhile p).length ≤ cs.length := (List.dropWhile_sublist p).length_le

theorem cutFraction_length (cs : List Char) : (cutFraction cs).2.length ≤ cs.length := by
  fun_cases cutFraction cs with
  | case1 d cs h => have := length_dropWhile_le Char.isDigit cs; simp; omega
  | case2 d cs h => exact Nat.le_refl _
  | case3 cs h => exact Nat.le_refl _

theorem cutString_length (cs : List Char) : (cutString cs).2.length ≤ cs.length := by
  have := length_dropWhile_le (· != '"') cs
  unfold cutString
  split
  · simp
  · rename_i h; rw [h] at this; simp at this; simp; omega

theorem cutSymbol_length (s : Symbol) (cs : List Char) :
    (cutSymbol s cs).2.length ≤ cs.length := by
  fun_cases cutSymbol s cs <;> simp

theorem cut_length (c : Char) (cs : List Char) : (cut c cs).2.length ≤ cs.length := by
  unfold cut
  split
  · exact Nat.le_refl _
  split
  · rename_i h
    refine Nat.le_trans (cutFraction_length _) ?_
    rw [List.dropWhile_cons, if_pos h]
    exact length_dropWhile_le _ _
  split
  · exact length_dropWhile_le _ _
  split
  · exact cutString_length cs
  split
  · exact Nat.le_trans (length_dropWhile_le _ _) (by simp)
  split
  · exact cutSymbol_length _ cs
  · exact Nat.le_refl _

end Piece

/-! ## All pieces of a text -/

/-- The pieces of a text, in order. -/
def pieces : List Char → List Piece
  | [] => []
  | c :: cs => (Piece.cut c cs).1 :: pieces (Piece.cut c cs).2
termination_by cs => cs.length
decreasing_by have := Piece.cut_length c cs; simp; omega

@[simp] theorem pieces_nil : pieces [] = [] := by simp [pieces]

theorem pieces_cons (c : Char) (cs : List Char) :
    pieces (c :: cs) = (Piece.cut c cs).1 :: pieces (Piece.cut c cs).2 := by rw [pieces]

theorem pieces_text (cs : List Char) : (pieces cs).flatMap Piece.text = cs := by
  fun_induction pieces cs with
  | case1 => rfl
  | case2 c cs ih => rw [List.flatMap_cons, ih, Piece.cut_text]

end Lox

import Lox.Expr.Basic
import Lox.Proofs.Numeral

/-!
# The texts of numbers in expressions

In an expression a finite number is a numeral without an exponent: digits, and perhaps a point with
digits behind it, with a minus sign before them if the sign bit is set. So its magnitude is written
as a number piece, and the value of the piece is the magnitude again. What is said of whole
expressions is said of their values and operators (`Expr.All`).

Results:
* `magnitude_piece`, `write_piece`: the piece that the text of a finite number is.
* `write_injective`: but for not-a-number, two numbers with the same text have the same bits.
-/
namespace Lox

open Piece (Digits)

/-- The value that a number piece has. -/
def Piece.value (whole : List Char) (fraction : Option (List Char)) : Binary64 :=
  .ofDigits (whole ++ fraction.getD []) (fraction.getD []).length

/-! ## Numerals without an exponent -/

namespace Numeral

def fraction? (n : Numeral) : Option (List Char) :=
  if n.fraction = [] then none else some n.fraction

theorem getD_fraction (n : Numeral) : n.fraction?.getD [] = n.fraction := by
  unfold fraction?
  split
  · rename_i h
    exact h.symm
  · rfl

variable {n : Numeral}

theorem text_piece (h : n.exponent = none) (plus : Bool) :
    n.text plus = (Piece.number n.whole n.fraction?).text := by
  unfold fraction?
  rw [text, h]
  split <;> simp [Piece.text]

theorem wellFormed_piece (h : n.WellFormed) : (Piece.number n.whole n.fraction?).WellFormed := by
  refine ⟨h.whole, ?_⟩
  intro places hp
  unfold fraction? at hp
  split at hp
  · cases hp
  · rename_i hne
    obtain rfl := Option.some.inj hp
    exact ⟨hne, h.fraction⟩

/-- The piece has the value that the numeral denotes. -/
theorem value_piece (h : n.exponent = none) :
    Piece.value n.whole n.fraction? = .ofMagnitude false n.decimal.nearest := by
  have hexponent : n.decimal.exponent = -(n.fraction.length : Int) := by
    rw [decimal, h, Option.getD_none, Int.zero_sub]
  rw [Piece.value, getD_fraction, Binary64.ofDigits, Decimal.nearest, Decimal.numerator,
    Decimal.denominator, hexponent, Int.neg_neg, Int.toNat_natCast, Int.toNat_neg_natCast]
  congr 2
  exact (Nat.mul_one _).symm

end Numeral

/-! ## Numbers -/

namespace Value

open Binary64 (infinity)

theorem magnitude_piece {m : Nat} (h : m ≤ infinity) : ∃ whole fraction,
    style.magnitude m = (Piece.number whole fraction).text ∧
      (Piece.number whole fraction).WellFormed ∧
      Piece.value whole fraction = .ofMagnitude false m := by
  obtain ⟨n, htext, hformed, hrounds, hplain⟩ := style.magnitude_numeral m
  have hnone : n.exponent = none := hplain fun _ => rfl
  refine ⟨n.whole, n.fraction?, ?_, n.wellFormed_piece hformed, ?_⟩
  · rw [htext, Numeral.text_piece hnone]
  · rw [Numeral.value_piece hnone, Decimal.nearest_of_rounds hrounds, Nat.min_eq_left h]

theorem not_nan_of_finite {x : Binary64} (h : x.isFinite = true) : x.isNaN = false :=
  decide_eq_false (Nat.lt_asymm (of_decide_eq_true h))

/-- A finite number whose sign bit is clear is written as a piece that has its value. -/
theorem write_piece {x : Binary64} (hfinite : x.isFinite = true) (hsign : x.isNegative = false) :
    ∃ whole fraction, style.write x = (Piece.number whole fraction).text ∧
      (Piece.number whole fraction).WellFormed ∧ Piece.value whole fraction = x := by
  obtain ⟨whole, fraction, htext, hformed, hvalue⟩ :=
    magnitude_piece (Nat.le_of_lt (of_decide_eq_true hfinite))
  refine ⟨whole, fraction, ?_, hformed, ?_⟩
  · rw [Decimal.Style.write, not_nan_of_finite hfinite, hsign, hfinite, ← htext]
    rfl
  · rw [hvalue, ← hsign, Binary64.ofMagnitude_magnitude]

/-! ## Texts tell numbers apart -/

/-- The text of a number without its sign. -/
def unsigned (m : Nat) : List Char := if m < infinity then style.magnitude m else "inf".toList

theorem write_eq {x : Binary64} (h : x.isNaN = false) :
    style.write x = (if x.isNegative then ['-'] else []) ++ unsigned x.magnitude := by
  rw [Decimal.Style.write, h, unsigned, Binary64.isFinite]
  simp

/-- The text of a finite magnitude starts with a digit, the text of infinity with a letter. -/
theorem head_unsigned {m : Nat} (h : m ≤ infinity) : ∃ c cs, unsigned m = c :: cs ∧
    (c.isDigit = true ↔ m < infinity) ∧ (c.isDigit = true ∨ c = 'i') := by
  unfold unsigned
  split
  · rename_i hlt
    obtain ⟨whole, fraction, htext, hformed, -⟩ := magnitude_piece h
    obtain ⟨c, cs, hc⟩ := List.exists_cons_of_ne_nil (Piece.text_ne_nil hformed)
    have hdigit : c.isDigit = true :=
      Piece.isDigit_of_number hformed.1 ((List.append_nil _).trans hc)
    exact ⟨c, cs, htext.trans hc, iff_of_true hdigit hlt, .inl hdigit⟩
  · rename_i hnlt
    exact ⟨'i', ['n', 'f'], rfl, iff_of_false (by decide) hnlt, .inr rfl⟩

theorem unsigned_injective {m n : Nat} (hm : m ≤ infinity) (hn : n ≤ infinity)
    (h : unsigned m = unsigned n) : m = n := by
  obtain ⟨c, cs, hc, hmfinite, -⟩ := head_unsigned hm
  obtain ⟨d, ds, hd, hnfinite, -⟩ := head_unsigned hn
  obtain ⟨rfl, -⟩ := List.cons.inj (hc.symm.trans (h.trans hd))
  have hfinite : m < infinity ↔ n < infinity := hmfinite.symm.trans hnfinite
  by_cases hlt : m < infinity
  · obtain ⟨whole, fraction, htext, hformed, hvalue⟩ := magnitude_piece hm
    obtain ⟨whole', fraction', htext', hformed', hvalue'⟩ := magnitude_piece hn
    rw [unsigned, unsigned, if_pos hlt, if_pos (hfinite.1 hlt), htext, htext'] at h
    obtain ⟨rfl, rfl⟩ := Piece.number.inj (eq_of_text_eq hformed hformed' h)
    have hsame := congrArg Binary64.magnitude (hvalue.symm.trans hvalue')
    rwa [Binary64.magnitude_ofMagnitude hm, Binary64.magnitude_ofMagnitude hn] at hsame
  · have hnlt : ¬ n < infinity := fun h => hlt (hfinite.2 h)
    omega

/-- The text of a number that is not not-a-number, with its sign in front. -/
theorem head_write {x : Binary64} (h : x.isNaN = false) : ∃ c cs, style.write x = c :: cs ∧
    (c = '-' ↔ x.isNegative = true) ∧ (c.isDigit = true ∨ c = 'i' ∨ c = '-') := by
  obtain ⟨c, cs, hc, -, hfirst⟩ := head_unsigned (Nat.le_of_not_lt (of_decide_eq_false h))
  rw [write_eq h]
  cases x.isNegative with
  | true => exact ⟨'-', _, rfl, by simp, .inr (.inr rfl)⟩
  | false =>
    refine ⟨c, cs, hc, iff_of_false ?_ Bool.false_ne_true, hfirst.imp_right .inl⟩
    rintro rfl
    exact absurd hfirst (by decide)

theorem write_injective {x y : Binary64} (hx : x.isNaN = false) (hy : y.isNaN = false)
    (h : style.write x = style.write y) : x = y := by
  have hxle : x.magnitude ≤ infinity := Nat.le_of_not_lt (of_decide_eq_false hx)
  have hyle : y.magnitude ≤ infinity := Nat.le_of_not_lt (of_decide_eq_false hy)
  obtain ⟨c, cs, hc, hxsign, -⟩ := head_write hx
  obtain ⟨d, ds, hd, hysign, -⟩ := head_write hy
  obtain ⟨rfl, -⟩ := List.cons.inj (hc.symm.trans (h.trans hd))
  have hsign : x.isNegative = y.isNegative := Bool.eq_iff_iff.2 (hxsign.symm.trans hysign)
  rw [write_eq hx, write_eq hy, hsign] at h
  have hmagnitude := unsigned_injective hxle hyle (List.append_cancel_left h)
  rw [← Binary64.ofMagnitude_magnitude x, ← Binary64.ofMagnitude_magnitude y, hsign, hmagnitude]

end Value

/-! ## Expressions -/

/-- A character that may stand inside of an operator or a value: no space and no parenthesis. -/
def isInner (c : Char) : Bool := c != ' ' && c != '(' && c != ')'

theorem isInner_eq_false_iff {c : Char} :
    isInner c = false ↔ c = ' ' ∨ c = '(' ∨ c = ')' := by
  rw [isInner, Bool.and_eq_false_iff, Bool.and_eq_false_iff, or_assoc]
  simp only [bne_eq_false_iff_eq]

/-- What may stand behind a part of an expression. -/
def Closing (rest : List Char) : Prop := Breaks isInner rest

theorem closing_nil : Closing [] := breaks_nil isInner

theorem closing_space (cs : List Char) : Closing (' ' :: cs) := breaks_cons.2 rfl

theorem closing_parenthesis (cs : List Char) : Closing (')' :: cs) := breaks_cons.2 rfl

namespace Expr

/-- The symbols that take operands. -/
def operators : List Symbol :=
  [.minus, .plus, .slash, .star, .bang, .bangEqual, .equal, .equalEqual, .greater, .greaterEqual,
    .less, .lessEqual]

theorem write_grouping (e : Expr) :
    (grouping e).write = '(' :: ("group".toList ++ ' ' :: (e.write ++ [')'])) := by
  have hwrite : (grouping e).write = "(group ".toList ++ e.write ++ [')'] := rfl
  have hgroup : "(group ".toList = '(' :: ("group".toList ++ [' ']) := by decide
  simp [hwrite, hgroup]

theorem write_unary (operator : Token) (right : Expr) : (unary operator right).write =
    '(' :: (operator.lexeme ++ ' ' :: (right.write ++ [')'])) := rfl

theorem write_binary (left : Expr) (operator : Token) (right : Expr) :
    (binary left operator right).write =
      '(' :: (operator.lexeme ++ ' ' :: (left.write ++ ' ' :: (right.write ++ [')']))) := rfl

/-- All values and all operators of an expression. -/
def All (V : Value → Prop) (O : Token → Prop) : Expr → Prop
  | literal v => V v
  | grouping e => e.All V O
  | unary operator right => O operator ∧ right.All V O
  | binary left operator right => O operator ∧ left.All V O ∧ right.All V O

instance decidableAll (V : Value → Prop) (O : Token → Prop) [DecidablePred V] [DecidablePred O] :
    (e : Expr) → Decidable (e.All V O)
  | literal v => inferInstanceAs (Decidable (V v))
  | grouping e => decidableAll V O e
  | unary operator right =>
    have := decidableAll V O right
    inferInstanceAs (Decidable (O operator ∧ right.All V O))
  | binary left operator right =>
    have := decidableAll V O left
    have := decidableAll V O right
    inferInstanceAs (Decidable (O operator ∧ left.All V O ∧ right.All V O))

end Expr
end Lox

import Lox.Decimal.Style
import Lox.Proofs.Cut
import Lox.Proofs.Shortest

/-!
# Numerals

A numeral has digits before the point, perhaps digits after it, and perhaps an exponent. It denotes
a decimal. Whatever a style does with the shortest decimal of a magnitude, the text is that of a
numeral, and the numeral denotes a decimal that is rounded to the magnitude.

Results:
* `layPositional_numeral`, `layScientific_numeral`: the two layouts keep the value.
* `Style.magnitude_numeral`: the text of a magnitude is read back to it.
-/
namespace Lox

open Piece (Digits)

structure Numeral where
  whole : List Char
  fraction : List Char := []
  exponent : Option Int := none
  deriving DecidableEq, Repr

namespace Numeral

/-- An exponent, with a sign if it is negative or if a `+` is wanted. -/
def exponentText (plus : Bool) (e : Int) : List Char :=
  'e' :: ((if e < 0 then ['-'] else if plus then ['+'] else []) ++ Nat.toDigits 10 e.natAbs)

def text (plus : Bool) (n : Numeral) : List Char :=
  n.whole ++ (if n.fraction = [] then [] else '.' :: n.fraction) ++
    n.exponent.elim [] (exponentText plus)

/-- The decimal that a numeral denotes. -/
def decimal (n : Numeral) : Decimal :=
  ⟨Nat.ofDigitChars 10 (n.whole ++ n.fraction) 0, n.exponent.getD 0 - n.fraction.length⟩

/-- No zero stands before another digit of the whole part. -/
structure WellFormed (n : Numeral) : Prop where
  whole : Digits n.whole
  lead : n.whole = ['0'] ∨ n.whole.head? ≠ some '0'
  fraction : ∀ c ∈ n.fraction, c.isDigit = true

end Numeral

/-! ## Digits of a number -/

theorem toDigits_digits (n : Nat) : Digits (Nat.toDigits 10 n) :=
  ⟨Nat.toDigits_ne_nil, fun _ => Nat.isDigit_of_mem_toDigits (by decide) (by decide)⟩

theorem digitChar_ne_zero {n : Nat} (h : 0 < n) (h' : n < 10) : n.digitChar ≠ '0' := by
  intro hzero
  have hvalue : Nat.ofDigitChars 10 [n.digitChar] 0 = Nat.ofDigitChars 10 [] (10 * 0 + n) :=
    Nat.ofDigitChars_cons_digitChar_of_lt_ten h'
  rw [hzero] at hvalue
  simp only [Nat.ofDigitChars_cons, Nat.ofDigitChars_nil, Nat.sub_self] at hvalue
  omega

theorem head?_append_of_ne_nil {as : List Char} (h : as ≠ []) (bs : List Char) :
    (as ++ bs).head? = as.head? := by
  cases as with
  | nil => exact absurd rfl h
  | cons a as => rfl

/-- No digits but the ones of zero start with a zero. -/
theorem toDigits_lead {n : Nat} (h : 0 < n) : (Nat.toDigits 10 n).head? ≠ some '0' := by
  induction n using Nat.strongRecOn with
  | ind n ih =>
    rw [Nat.toDigits_eq_if (by decide)]
    split
    · rename_i hlt
      rw [List.head?_cons, ne_eq, Option.some.injEq]
      exact digitChar_ne_zero h hlt
    · rw [head?_append_of_ne_nil Nat.toDigits_ne_nil]
      exact ih (n / 10) (by omega) (by omega)

theorem isDigit_of_replicate {k : Nat} : ∀ c ∈ List.replicate k '0', c.isDigit = true := by
  intro c hc
  rw [List.eq_of_mem_replicate hc]
  rfl

namespace Decimal

/-- The digits of a positive number. -/
structure Spells (digits : List Char) (c : Nat) : Prop where
  all : Digits digits
  lead : digits.head? ≠ some '0'
  value : Nat.ofDigitChars 10 digits 0 = c

theorem spells_toDigits {c : Nat} (h : 0 < c) : Spells (Nat.toDigits 10 c) c :=
  ⟨toDigits_digits c, toDigits_lead h, Nat.ofDigitChars_ten_toDigits⟩

/-! ## Layouts -/

theorem ofDigitChars_zeros_append (k : Nat) (digits : List Char) :
    Nat.ofDigitChars 10 (List.replicate k '0' ++ digits) 0 = Nat.ofDigitChars 10 digits 0 := by
  rw [Nat.ofDigitChars_append, Nat.ofDigitChars_replicate_zero, Nat.mul_zero]

theorem ofDigitChars_append_zeros (digits : List Char) (k : Nat) :
    Nat.ofDigitChars 10 (digits ++ List.replicate k '0') 0 =
      Nat.ofDigitChars 10 digits 0 * Nat.pow 10 k := by
  rw [Nat.ofDigitChars_append, Nat.ofDigitChars_replicate_zero, Nat.mul_comm]
  rfl

section Layouts

variable {digits : List Char} {c : Nat} (h : Spells digits c) (plus : Bool)
include h

/-- Zeros fill up a whole number, and one more may come behind the point. -/
theorem whole_numeral (k : Nat) (wholePoint : Bool) :
    ∃ n : Numeral,
      digits ++ List.replicate k '0' ++ (if wholePoint then ['.', '0'] else []) = n.text plus ∧
        n.WellFormed ∧ n.exponent = none ∧ ∃ j, n.decimal = ⟨c * Nat.pow 10 j, k - j⟩ := by
  obtain ⟨⟨hne, hdigit⟩, hlead, hvalue⟩ := h
  let zeros := if wholePoint then 1 else 0
  refine ⟨⟨digits ++ List.replicate k '0', List.replicate zeros '0', none⟩, ?_, ⟨⟨?_, ?_⟩, ?_, ?_⟩,
    rfl, k + zeros, ?_⟩
  · cases wholePoint <;> simp [Numeral.text, zeros]
  · simp [hne]
  · exact List.forall_mem_append.2 ⟨hdigit, isDigit_of_replicate⟩
  · exact .inr (by rwa [head?_append_of_ne_nil hne])
  · exact isDigit_of_replicate
  · have hexp : (0 : Int) - zeros = k - (k + zeros : Nat) := by omega
    rw [Numeral.decimal, List.append_assoc, List.replicate_append_replicate,
      ofDigitChars_append_zeros, hvalue, List.length_replicate, Option.getD_none, hexp]

/-- The point goes between the digits. -/
theorem split_numeral {whole : Nat} (hpos : 0 < whole) (hlt : whole < digits.length) :
    ∃ n : Numeral, digits.take whole ++ '.' :: digits.drop whole = n.text plus ∧ n.WellFormed ∧
      n.exponent = none ∧ n.decimal = ⟨c, -(digits.length - whole : Nat)⟩ := by
  obtain ⟨⟨hne, hdigit⟩, hlead, hvalue⟩ := h
  refine ⟨⟨digits.take whole, digits.drop whole, none⟩, ?_, ⟨⟨?_, ?_⟩, ?_, ?_⟩, rfl, ?_⟩
  · have hdrop : digits.drop whole ≠ [] := by
      rw [ne_eq, List.drop_eq_nil_iff]
      omega
    simp [Numeral.text, hdrop]
  · rw [ne_eq, List.take_eq_nil_iff, not_or]
    exact ⟨by omega, hne⟩
  · exact fun c hc => hdigit c (List.mem_of_mem_take hc)
  · right
    rwa [List.head?_take, if_neg (by omega)]
  · exact fun c hc => hdigit c (List.mem_of_mem_drop hc)
  · rw [Numeral.decimal, List.take_append_drop, hvalue, List.length_drop, Option.getD_none,
      Int.zero_sub]

/-- Zeros come before the digits, the first of them before the point. -/
theorem small_numeral (k : Nat) :
    ∃ n : Numeral, '0' :: '.' :: (List.replicate k '0' ++ digits) = n.text plus ∧ n.WellFormed ∧
      n.exponent = none ∧ n.decimal = ⟨c, -(k + digits.length : Nat)⟩ := by
  obtain ⟨⟨hne, hdigit⟩, hlead, hvalue⟩ := h
  refine ⟨⟨List.replicate 1 '0', List.replicate k '0' ++ digits, none⟩, ?_, ⟨⟨?_, ?_⟩, ?_, ?_⟩, rfl,
    ?_⟩
  · simp [Numeral.text, hne]
  · exact List.cons_ne_nil _ _
  · exact isDigit_of_replicate
  · exact .inl rfl
  · exact List.forall_mem_append.2 ⟨isDigit_of_replicate, hdigit⟩
  · rw [Numeral.decimal, ofDigitChars_zeros_append, ofDigitChars_zeros_append, hvalue,
      List.length_append, List.length_replicate, Option.getD_none, Int.zero_sub]

/-- A positional layout has no exponent, and it denotes the decimal, perhaps with zeros at the end
of its coefficient. -/
theorem layPositional_numeral (wholePoint : Bool) (e : Int) :
    ∃ n : Numeral, layPositional wholePoint digits e = n.text plus ∧ n.WellFormed ∧
      n.exponent = none ∧ ∃ k, n.decimal = ⟨c * Nat.pow 10 k, e - k⟩ := by
  have hsame : ∀ {n : Numeral} {e' : Int}, n.decimal = ⟨c, e'⟩ → e' = e →
      ∃ k, n.decimal = ⟨c * Nat.pow 10 k, e - k⟩ := by
    rintro n _ hn rfl
    refine ⟨0, ?_⟩
    rw [hn, Int.natCast_zero, Int.sub_zero]
    exact congrArg (Decimal.mk · _) (Nat.mul_one c).symm
  unfold layPositional
  split
  · rename_i he
    obtain ⟨n, htext, hformed, hplain, hdecimal⟩ := whole_numeral h plus e.toNat wholePoint
    rw [Int.toNat_of_nonneg he] at hdecimal
    exact ⟨n, htext, hformed, hplain, hdecimal⟩
  simp only
  split
  · obtain ⟨n, htext, hformed, hplain, hdecimal⟩ := split_numeral h plus ‹_› (by omega)
    exact ⟨n, htext, hformed, hplain, hsame hdecimal (by omega)⟩
  · obtain ⟨n, htext, hformed, hplain, hdecimal⟩ :=
      small_numeral h plus ((-e).toNat - digits.length)
    exact ⟨n, htext, hformed, hplain, hsame hdecimal (by omega)⟩

theorem layScientific_numeral (e : Int) :
    ∃ n : Numeral, layScientific plus digits (e + (digits.length - 1 : Nat)) = n.text plus ∧
      n.WellFormed ∧ n.decimal = ⟨c, e⟩ := by
  obtain ⟨⟨hne, hdigit⟩, hlead, hvalue⟩ := h
  refine ⟨⟨digits.take 1, digits.drop 1, some (e + (digits.length - 1 : Nat))⟩, ?_,
    ⟨⟨?_, ?_⟩, ?_, ?_⟩, ?_⟩
  · simp only [layScientific, Numeral.text, List.drop_eq_nil_iff]
    rfl
  · rw [ne_eq, List.take_eq_nil_iff, not_or]
    exact ⟨by decide, hne⟩
  · exact fun c hc => hdigit c (List.mem_of_mem_take hc)
  · right
    rwa [List.head?_take, if_neg (by decide)]
  · exact fun c hc => hdigit c (List.mem_of_mem_drop hc)
  · rw [Numeral.decimal, List.take_append_drop, hvalue, List.length_drop, Option.getD_some,
      Int.add_sub_cancel]

end Layouts

/-- **The text of a magnitude** is a numeral that is rounded to the magnitude. It has no exponent if
all forms are positional. -/
theorem Style.magnitude_numeral (s : Style) (m : Nat) :
    ∃ n : Numeral, s.magnitude m = n.text s.exponentPlus ∧ n.WellFormed ∧ n.decimal.Rounds m ∧
      ((∀ e, s.positional e = true) → n.exponent = none) := by
  unfold Style.magnitude
  split
  · rename_i hm
    let zeros := if s.wholePoint then 1 else 0
    refine ⟨⟨List.replicate 1 '0', List.replicate zeros '0', none⟩, ?_, ⟨⟨?_, ?_⟩, ?_, ?_⟩, ?_,
      fun _ => rfl⟩
    · cases hpoint : s.wholePoint <;> simp [Numeral.text, zeros, hpoint]
    · exact List.cons_ne_nil _ _
    · exact isDigit_of_replicate
    · exact .inl rfl
    · exact isDigit_of_replicate
    · have hvalue := ofDigitChars_append_zeros [] (1 + zeros)
      rw [Nat.ofDigitChars_nil, Nat.zero_mul, List.nil_append] at hvalue
      rw [hm, Decimal.Rounds, Numeral.decimal, List.replicate_append_replicate, hvalue,
        Decimal.numerator, Nat.zero_mul]
      exact Binary64.rounds_zero _
  · rename_i hm
    have hrounds := rounds_shortest s.tie m
    have hspells := spells_toDigits (coefficient_pos hrounds (Nat.pos_of_ne_zero hm))
    simp only
    split
    · obtain ⟨n, htext, hformed, hplain, k, hdecimal⟩ :=
        layPositional_numeral hspells s.exponentPlus s.wholePoint (shortest s.tie m).exponent
      refine ⟨n, htext, hformed, ?_, fun _ => hplain⟩
      rw [hdecimal]
      exact rounds_shift hrounds k
    · rename_i hscientific
      obtain ⟨n, htext, hformed, hdecimal⟩ :=
        layScientific_numeral hspells s.exponentPlus (shortest s.tie m).exponent
      refine ⟨n, htext, hformed, ?_, fun hall => absurd (hall _) hscientific⟩
      rw [hdecimal]
      exact hrounds

end Decimal
end Lox

import Lox.Json.Number
import Lox.Proofs.Ascii
import Lox.Proofs.Numeral

/-!
# Numerals in JSON

Well-formed numerals are JSON numbers: the reader cuts them into the parts they are made of, if the
text behind them does not go on with more of the number. The parts denote the decimal that the
numeral denotes.

Results:
* `numberParts_numeral`: the parts that the reader finds.
* `decimal_parts`: they denote the decimal of the numeral.
-/
namespace Lox
namespace Json

open Utf8 (ascii encode)
open Piece (Digits)

/-! ## Ends of numbers -/

/-- No digit comes first. -/
def NoDigit (bs : Bytes) : Prop := ∀ b ∈ bs.head?, isDigit b = false

/-- A number is not continued. -/
def Ends (bs : Bytes) : Prop :=
  ∀ b ∈ bs.head?, isDigit b = false ∧ b ≠ ascii '.' ∧ b ≠ ascii 'e' ∧ b ≠ ascii 'E'

theorem ends_nil : Ends [] := by
  intro b hb
  cases hb

theorem Ends.noDigit {bs : Bytes} (h : Ends bs) : NoDigit bs := fun b hb => (h b hb).1

theorem noDigit_cons {b : UInt8} (h : isDigit b = false) (bs : Bytes) : NoDigit (b :: bs) := by
  intro c hc
  cases hc
  exact h

/-! ## Digits -/

theorem digit_range {c : Char} (h : c.isDigit = true) : 0x30 ≤ c.toNat ∧ c.toNat ≤ 0x39 := by
  rw [Char.isDigit, Bool.and_eq_true, decide_eq_true_iff, decide_eq_true_iff] at h
  exact h

theorem encode_digit {c : Char} (h : c.isDigit = true) (cs : List Char) :
    encode (c :: cs) = ascii c :: encode cs := by
  have hrange := digit_range h
  rw [Utf8.encode_cons, Utf8.encodeChar_ascii (by omega)]
  rfl

theorem isDigit_ascii {c : Char} (h : c.isDigit = true) : isDigit (ascii c) = true := by
  have hrange := digit_range h
  have hbyte := Utf8.toNat_ascii (c := c) (by omega)
  rw [isDigit, hbyte, Bool.and_eq_true, decide_eq_true_iff, decide_eq_true_iff]
  exact hrange

theorem isDigit_of_mem_encode {ds : List Char} (h : ∀ d ∈ ds, d.isDigit = true) :
    ∀ b ∈ encode ds, isDigit b = true := by
  induction ds with
  | nil =>
    intro b hb
    cases hb
  | cons d ds ih =>
    obtain ⟨hd, hds⟩ := List.forall_mem_cons.1 h
    rw [encode_digit hd, List.forall_mem_cons]
    exact ⟨isDigit_ascii hd, ih hds⟩

theorem takeDigits {ds : List Char} (h : ∀ d ∈ ds, d.isDigit = true) {rest : Bytes}
    (hrest : NoDigit rest) : (encode ds ++ rest).takeWhile isDigit = encode ds := by
  rw [List.takeWhile_append_of_pos (isDigit_of_mem_encode h)]
  cases rest with
  | nil => exact List.append_nil _
  | cons b rest => rw [List.takeWhile_cons, hrest b rfl]; exact List.append_nil _

theorem dropDigits {ds : List Char} (h : ∀ d ∈ ds, d.isDigit = true) {rest : Bytes}
    (hrest : NoDigit rest) : (encode ds ++ rest).dropWhile isDigit = rest := by
  rw [List.dropWhile_append_of_pos (isDigit_of_mem_encode h)]
  cases rest with
  | nil => rfl
  | cons b rest => rw [List.dropWhile_cons, hrest b rfl]; rfl

/-! ## Parts -/

/-- The parts of a numeral. -/
def partsOf (n : Numeral) : NumberParts where
  whole := encode n.whole
  fraction := if n.fraction = [] then none else some (encode n.fraction)
  exponent := n.exponent.map fun e => (decide (e < 0), encode (Nat.toDigits 10 e.natAbs))

theorem wholePart_digits {whole : List Char} (h : Digits whole)
    (hlead : whole = ['0'] ∨ whole.head? ≠ some '0') (atEnd : Cause) {rest : Bytes}
    (hrest : NoDigit rest) : wholePart atEnd (encode whole ++ rest) = .ok (encode whole, rest) := by
  obtain ⟨hne, hdigit⟩ := h
  cases whole with
  | nil => exact absurd rfl hne
  | cons c cs =>
    obtain ⟨hc, hcs⟩ := List.forall_mem_cons.1 hdigit
    have hbyte := isDigit_ascii hc
    rw [encode_digit hc, List.cons_append]
    simp only [wholePart, hbyte, Bool.not_true, Bool.false_eq_true, if_false]
    by_cases hzero : c = '0'
    · -- A zero is all there is to the whole part.
      subst hzero
      obtain rfl : cs = [] := by
        rcases hlead with h | h
        · exact (List.cons.inj h).2
        · exact absurd rfl h
      rw [if_pos rfl]
      cases rest with
      | nil => rfl
      | cons d ds =>
        have hd := hrest d rfl
        simp [hd]
    · have hne0 : ascii c ≠ ascii '0' := by
        have := digit_range hc
        exact fun he => hzero (Utf8.ascii_injective (by omega) (by decide) he)
      rw [if_neg hne0, takeDigits hcs hrest, dropDigits hcs hrest]

theorem fractionPart_none (atEnd : Cause) {rest : Bytes} (h : ∀ b ∈ rest.head?, b ≠ ascii '.') :
    fractionPart atEnd rest = .ok (none, rest) := by
  cases rest with
  | nil => rfl
  | cons b rest => exact if_pos (h b rfl)

theorem fractionPart_some (atEnd : Cause) {ds : List Char} (h : Digits ds) {rest : Bytes}
    (hrest : NoDigit rest) :
    fractionPart atEnd (encode ('.' :: ds) ++ rest) = .ok (some (encode ds), rest) := by
  obtain ⟨hne, hdigit⟩ := h
  cases ds with
  | nil => exact absurd rfl hne
  | cons c cs =>
    obtain ⟨hc, hcs⟩ := List.forall_mem_cons.1 hdigit
    have hbyte := isDigit_ascii hc
    have hpoint :
        encode ('.' :: c :: cs) ++ rest = ascii '.' :: ascii c :: (encode cs ++ rest) := by
      rw [Utf8.encode_cons, Utf8.encodeChar_ascii (by decide), encode_digit hc]
      rfl
    rw [hpoint]
    simp only [fractionPart, ne_eq, not_true_eq_false, hbyte, if_true, if_false,
      takeDigits hcs hrest, dropDigits hcs hrest, encode_digit hc]

theorem exponentPart_none (atEnd : Cause) {rest : Bytes}
    (h : ∀ b ∈ rest.head?, b ≠ ascii 'e' ∧ b ≠ ascii 'E') :
    exponentPart atEnd rest = .ok (none, rest) := by
  cases rest with
  | nil => rfl
  | cons b rest => rw [exponentPart, if_pos (h b rfl)]

/-- The sign of an exponent: none for a digit. -/
theorem signPart_exponent (plus : Bool) (e : Int) {ds : List Char} (h : Digits ds) (rest : Bytes) :
    signPart (encode ((if e < 0 then ['-'] else if plus then ['+'] else []) ++ ds) ++ rest) =
      (decide (e < 0), encode ds ++ rest) := by
  obtain ⟨hne, hdigit⟩ := h
  cases ds with
  | nil => exact absurd rfl hne
  | cons c cs =>
    obtain ⟨hc, -⟩ := List.forall_mem_cons.1 hdigit
    split
    · rename_i he
      rw [decide_eq_true he]
      rfl
    rename_i he
    rw [decide_eq_false he]
    split
    · rfl
    · have hrange := digit_range hc
      have hplus : ascii c ≠ ascii '+' := by
        intro heq
        rw [Utf8.ascii_injective (by omega) (by decide) heq] at hc
        cases hc
      have hminus : ascii c ≠ ascii '-' := by
        intro heq
        rw [Utf8.ascii_injective (by omega) (by decide) heq] at hc
        cases hc
      rw [List.nil_append, encode_digit hc, List.cons_append, signPart, if_neg hplus, if_neg hminus]

/-- An exponent is its mark, a sign and digits. -/
theorem exponentPart_digits (atEnd : Cause) {mark : Char} (hmark : mark = 'e' ∨ mark = 'E')
    {sign ds : List Char} (h : Digits ds) {below : Bool} {rest : Bytes}
    (hsign : signPart (encode (sign ++ ds) ++ rest) = (below, encode ds ++ rest))
    (hrest : NoDigit rest) :
    exponentPart atEnd (encode (mark :: (sign ++ ds)) ++ rest) =
      .ok (some (below, encode ds), rest) := by
  obtain ⟨hne, hdigit⟩ := h
  have hmarked : encode (mark :: (sign ++ ds)) ++ rest =
      ascii mark :: (encode (sign ++ ds) ++ rest) := by
    rcases hmark with rfl | rfl <;> rfl
  rw [hmarked, exponentPart, if_neg (by rcases hmark with rfl | rfl <;> simp), hsign]
  cases ds with
  | nil => exact absurd rfl hne
  | cons c cs =>
    obtain ⟨hc, hcs⟩ := List.forall_mem_cons.1 hdigit
    have hbyte := isDigit_ascii hc
    simp only [encode_digit hc, List.cons_append, hbyte, if_true, takeDigits hcs hrest,
      dropDigits hcs hrest]

theorem exponentPart_some (atEnd : Cause) (plus : Bool) (e : Int) {rest : Bytes}
    (hrest : NoDigit rest) :
    exponentPart atEnd (encode (Numeral.exponentText plus e) ++ rest) =
      .ok (some (decide (e < 0), encode (Nat.toDigits 10 e.natAbs)), rest) :=
  exponentPart_digits atEnd (.inl rfl) (toDigits_digits e.natAbs)
    (signPart_exponent plus e (toDigits_digits e.natAbs) rest) hrest

/-! ## Numerals -/

/-- Behind the fraction no digit and no point comes. -/
theorem exponent_head (exponent : Option Int) (plus : Bool) {rest : Bytes} (hrest : Ends rest) :
    ∀ b ∈ (encode (exponent.elim [] (Numeral.exponentText plus)) ++ rest).head?,
      isDigit b = false ∧ b ≠ ascii '.' := by
  cases exponent with
  | none => exact fun b hb => ⟨(hrest b hb).1, (hrest b hb).2.1⟩
  | some e =>
    intro b hb
    obtain rfl : ascii 'e' = b := Option.some.inj hb
    decide

/-- **A numeral** is cut into its parts. -/
theorem numberParts_numeral {n : Numeral} (h : n.WellFormed) (atEnd : Cause) (plus : Bool)
    {rest : Bytes} (hrest : Ends rest) :
    numberParts atEnd (encode (n.text plus) ++ rest) = .ok (partsOf n, rest) := by
  have hhead := exponent_head n.exponent plus hrest
  have hexponent : exponentPart atEnd
      (encode (n.exponent.elim [] (Numeral.exponentText plus)) ++ rest) =
        .ok ((partsOf n).exponent, rest) := by
    unfold partsOf
    cases n.exponent with
    | none => exact exponentPart_none atEnd fun b hb => (hrest b hb).2.2
    | some e => exact exponentPart_some atEnd plus e hrest.noDigit
  rw [Numeral.text, Utf8.encode_append, Utf8.encode_append, List.append_assoc, List.append_assoc]
  generalize encode (n.exponent.elim [] (Numeral.exponentText plus)) ++ rest = left at *
  have hfraction : fractionPart atEnd
      (encode (if n.fraction = [] then [] else '.' :: n.fraction) ++ left) =
        .ok ((partsOf n).fraction, left) := by
    unfold partsOf
    by_cases hnone : n.fraction = []
    · rw [if_pos hnone, if_pos hnone]
      exact fractionPart_none atEnd fun b hb => (hhead b hb).2
    · rw [if_neg hnone, if_neg hnone]
      exact fractionPart_some atEnd ⟨hnone, h.fraction⟩ fun b hb => (hhead b hb).1
  have hwhole : NoDigit (encode (if n.fraction = [] then [] else '.' :: n.fraction) ++ left) := by
    by_cases hnone : n.fraction = []
    · rw [if_pos hnone]
      exact fun b hb => (hhead b hb).1
    · rw [if_neg hnone]
      exact noDigit_cons (by decide) _
  rw [numberParts, wholePart_digits h.whole h.lead atEnd hwhole]
  simp only [hfraction, hexponent]
  rfl

/-- The decimal that the parts of a number denote. -/
def NumberParts.decimal (p : NumberParts) : Decimal :=
  let value (bs : Bytes) : Nat := Nat.ofDigitChars 10 (Utf8.decode bs) 0
  let fraction := p.fraction.getD []
  let exponent : Int := p.exponent.elim 0 fun (below, digits) =>
    if below then -(value digits : Int) else value digits
  ⟨value (p.whole ++ fraction), exponent - fraction.length⟩

theorem encode_digits_length {ds : List Char} (h : ∀ d ∈ ds, d.isDigit = true) :
    (encode ds).length = ds.length := by
  have hascii : ∀ d ∈ ds, d.toNat < 0x80 := by
    intro d hd
    have := digit_range (h d hd)
    omega
  rw [Utf8.encode_of_ascii hascii, List.length_map]

theorem decimal_partsOf {n : Numeral} (h : n.WellFormed) : (partsOf n).decimal = n.decimal := by
  have hfraction : (partsOf n).fraction.getD [] = encode n.fraction := by
    unfold partsOf
    by_cases hnone : n.fraction = []
    · rw [if_pos hnone, hnone]
      rfl
    · rw [if_neg hnone]
      rfl
  have hexponent : ((partsOf n).exponent.elim 0 fun (below, digits) =>
      if below then -(Nat.ofDigitChars 10 (Utf8.decode digits) 0 : Int)
      else Nat.ofDigitChars 10 (Utf8.decode digits) 0) = n.exponent.getD 0 := by
    unfold partsOf
    cases n.exponent with
    | none => rfl
    | some e =>
      simp only [Option.map_some, Option.elim_some, Option.getD_some, Utf8.decode_encode,
        Nat.ofDigitChars_ten_toDigits, decide_eq_true_eq]
      split <;> omega
  have hcoefficient :
      Utf8.decode ((partsOf n).whole ++ encode n.fraction) = n.whole ++ n.fraction := by
    rw [partsOf, ← Utf8.encode_append, Utf8.decode_encode]
  unfold NumberParts.decimal Numeral.decimal
  simp only [hfraction, hcoefficient, encode_digits_length h.fraction]
  rw [← hexponent]

end Json
end Lox

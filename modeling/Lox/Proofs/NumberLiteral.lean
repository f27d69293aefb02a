import Lox.Proofs.Lexeme
import Lox.Proofs.Nearest

/-!
# The values of numbers

The text of a number denotes a rational, by the places of its digits. The value of the token is the
binary64 number nearest to that, however many digits there are, so zeros in front of a number and
behind its fraction make no difference, and a number that denotes more has no smaller value.

Results:
* `Positional.whole_add_fraction`: a number with a fraction denotes its digits over a power of ten.
* `Positional.padded_number`: with more zeros the text is that of a number still, and denotes the
  same.
* `roundsTo_ofDigits`: digits are read as the number that what they denote is rounded to.
* `padded_of_scan`: with more zeros a number is scanned to the same value.
* `scan_nearest`: all of it, for every number of every scan.
-/
namespace Lox

open Binary64 (RoundsTo limit ofDigits)

/-! ## What digits denote -/

namespace Positional

def digit (d : Char) : ℚ := (d.toNat - '0'.toNat : Nat)

/-- Digits before the point. Each one makes those in front of it count ten times as much. -/
def whole (ds : List Char) : ℚ := ds.foldl (fun v d => 10 * v + digit d) 0

/-- Digits behind the point. Each one counts a tenth of what it would count one place before. -/
def fraction : List Char → ℚ
  | [] => 0
  | d :: ds => (digit d + fraction ds) / 10

/-- What digits denote, with a point among them or without one. -/
def value (text : List Char) : ℚ :=
  whole (text.takeWhile (· != '.')) + fraction ((text.dropWhile (· != '.')).drop 1)

theorem foldl_eq (ds : List Char) (n : Nat) :
    ds.foldl (fun v d => 10 * v + digit d) (n : ℚ) = Nat.ofDigitChars 10 ds n := by
  induction ds generalizing n with
  | nil => rfl
  | cons d ds ih =>
    have hfirst : (10 * n + digit d : ℚ) = (10 * n + (d.toNat - '0'.toNat) : Nat) := by
      rw [digit, Nat.cast_add, Nat.cast_mul, Nat.cast_ofNat]
    rw [List.foldl_cons, Nat.ofDigitChars_cons, hfirst, ih]

theorem whole_eq (ds : List Char) : whole ds = Nat.ofDigitChars 10 ds 0 := by
  rw [whole, ← foldl_eq, Nat.cast_zero]

/-- What stands before the point goes into the digits behind it. -/
theorem add_fraction (ds : List Char) (n : Nat) :
    n + fraction ds = Nat.ofDigitChars 10 ds n / 10 ^ ds.length := by
  induction ds generalizing n with
  | nil => simp [fraction, Nat.ofDigitChars_nil]
  | cons d ds ih =>
    have hstep := ih (10 * n + (d.toNat - '0'.toNat))
    rw [Nat.cast_add, Nat.cast_mul, Nat.cast_ofNat, ← digit] at hstep
    rw [Nat.ofDigitChars_cons, List.length_cons, pow_succ, ← div_div, ← hstep, fraction]
    ring

theorem whole_add_fraction (ds es : List Char) :
    whole ds + fraction es = Nat.ofDigitChars 10 (ds ++ es) 0 / (Nat.pow 10 es.length : Nat) := by
  rw [whole_eq, add_fraction, Nat.ofDigitChars_append, Nat.pow_eq, Nat.cast_pow, Nat.cast_ofNat]

theorem whole_zeros (k : Nat) (ds : List Char) :
    whole (List.replicate k '0' ++ ds) = whole ds := by
  rw [whole_eq, whole_eq, Decimal.ofDigitChars_zeros_append]

theorem fraction_replicate (k : Nat) : fraction (List.replicate k '0') = 0 := by
  induction k with
  | zero => rfl
  | succ k ih => simp [List.replicate_succ, fraction, digit, ih]

theorem fraction_zeros (ds : List Char) (k : Nat) :
    fraction (ds ++ List.replicate k '0') = fraction ds := by
  induction ds with
  | nil => exact fraction_replicate k
  | cons d ds ih => rw [List.cons_append, fraction, ih, fraction]

/-! ## The text of a number -/

theorem value_number {ds : List Char} {places : Option (List Char)}
    (h : (Piece.number ds places).WellFormed) :
    value (Piece.number ds places).text = whole ds + fraction (places.getD []) := by
  have hdigits : ∀ d ∈ ds, (d != '.') = true := by
    intro d hd
    exact bne_iff_ne.2 (ne_of_test (h.1.2 d hd) (by decide))
  cases places with
  | none =>
    have htake := takeWhile_of_breaks hdigits (breaks_nil _)
    have hdrop := dropWhile_of_breaks hdigits (breaks_nil _)
    rw [List.append_nil] at htake hdrop
    rw [value, Piece.text, htake, hdrop]
    rfl
  | some es =>
    have hpoint : Breaks (· != '.') ('.' :: es) := breaks_cons.2 (by decide)
    rw [value, Piece.text, takeWhile_of_breaks hdigits hpoint, dropWhile_of_breaks hdigits hpoint]
    rfl

/-- The text with `j` zeros in front and `k` zeros behind. A whole number gets a point before the
zeros behind it. -/
def padded (j k : Nat) (text : List Char) : List Char :=
  List.replicate j '0' ++ text ++
    (if '.' ∈ text ∨ k = 0 then [] else ['.']) ++ List.replicate k '0'

/-- With more zeros a number is a number still, and denotes the same. -/
theorem padded_number {ds : List Char} {places : Option (List Char)}
    (h : (Piece.number ds places).WellFormed) (j k : Nat) :
    ∃ ds' places', (Piece.number ds' places').WellFormed ∧
      padded j k (Piece.number ds places).text = (Piece.number ds' places').text ∧
      whole ds' + fraction (places'.getD []) = whole ds + fraction (places.getD []) := by
  obtain ⟨⟨hne, hdigits⟩, hplaces⟩ := h
  have hfront : Piece.Digits (List.replicate j '0' ++ ds) :=
    ⟨List.append_ne_nil_of_right_ne_nil _ hne,
      List.forall_mem_append.2 ⟨isDigit_of_replicate, hdigits⟩⟩
  cases places with
  | some es =>
    obtain ⟨hes, hbehind⟩ := hplaces es rfl
    refine ⟨List.replicate j '0' ++ ds, some (es ++ List.replicate k '0'), ⟨hfront, ?_⟩, ?_, ?_⟩
    · rintro _ ⟨⟩
      exact ⟨List.append_ne_nil_of_left_ne_nil hes _,
        List.forall_mem_append.2 ⟨hbehind, isDigit_of_replicate⟩⟩
    · simp [padded, Piece.text]
    · rw [whole_zeros]
      exact congrArg _ (fraction_zeros es k)
  | none =>
    have hpoint : '.' ∉ ds := fun hmem => absurd (hdigits _ hmem) (by decide)
    rcases Nat.eq_zero_or_pos k with rfl | hk
    · refine ⟨List.replicate j '0' ++ ds, none, ⟨hfront, ?_⟩, ?_, ?_⟩
      · exact fun es hes => absurd hes (Option.not_mem_none es)
      · simp [padded, Piece.text]
      · rw [whole_zeros]
    · refine ⟨List.replicate j '0' ++ ds, some (List.replicate k '0'), ⟨hfront, ?_⟩, ?_, ?_⟩
      · rintro _ ⟨⟩
        exact ⟨by simp [hk.ne'], isDigit_of_replicate⟩
      · simp [padded, Piece.text, hpoint, hk.ne']
      · rw [whole_zeros]
        exact congrArg _ (fraction_replicate k)

end Positional

open Positional (whole fraction padded)

/-! ## What digits are read as -/

theorem roundsTo_ofDigits (ds es : List Char) {x : Binary64} :
    RoundsTo (whole ds + fraction es) x ↔ x = ofDigits (ds ++ es) es.length := by
  rw [Positional.whole_add_fraction]
  exact Binary64.roundsTo_iff _ (Nat.pow_pos (by decide))

/-- Digits that denote the same are read as one number. -/
theorem ofDigits_congr {ds es ds' es' : List Char}
    (h : whole ds' + fraction es' = whole ds + fraction es) :
    ofDigits (ds' ++ es') es'.length = ofDigits (ds ++ es) es.length := by
  rw [← roundsTo_ofDigits, ← h, roundsTo_ofDigits]

/-! ## Numbers of a scan -/

/-- The text of a number gives that number alone. -/
theorem scan_number {ds : List Char} {places : Option (List Char)}
    (h : (Piece.number ds places).WellFormed) :
    (scan (Piece.number ds places).text).findings =
      [.token ⟨.number, (Piece.number ds places).text,
        some (.number (ofDigits (ds ++ places.getD []) (places.getD []).length)), {}⟩] := by
  show findings {} (pieces (Piece.number ds places).text) = _
  rw [pieces_text_of_wellFormed h]
  rfl

section

variable {source : List Char} {t : Token} (ht : t ∈ (scan source).tokens) (hk : t.kind = .number)
include ht hk

/-- A number token comes from a number in the text. -/
theorem number_of_scan :
    ∃ ds places, (Piece.number ds places).WellFormed ∧ t.lexeme = (Piece.number ds places).text ∧
      t.literal = some (.number (ofDigits (ds ++ places.getD []) (places.getD []).length)) := by
  rcases token_cases ht with rfl | ⟨q, p, hq, h⟩
  · cases hk
  · cases q with
    | number ds places =>
      cases h
      exact ⟨ds, places, hq, rfl, rfl⟩
    | word text =>
      cases h
      cases (Munch.kindOf_number_iff (Munch.kindOf_ofWord text)).1 hk
    | string body =>
      cases h
      cases hk
    | symbol s =>
      cases h
      cases hk
    | _ => cases h

theorem nearest_of_scan :
    ∃ x : Binary64, t.literal = some (.number x) ∧ 0 ≤ Positional.value t.lexeme ∧
      ∀ y, RoundsTo (Positional.value t.lexeme) y ↔ y = x := by
  obtain ⟨ds, places, hwell, hlexeme, hliteral⟩ := number_of_scan ht hk
  refine ⟨_, hliteral, ?_⟩
  rw [hlexeme, Positional.value_number hwell]
  refine ⟨?_, fun y => roundsTo_ofDigits ds (places.getD [])⟩
  rw [Positional.whole_add_fraction]
  positivity

/-- With more zeros a number is scanned to the same value. -/
theorem padded_of_scan (j k : Nat) :
    (scan (padded j k t.lexeme)).findings =
      [.token { t with lexeme := padded j k t.lexeme, start := {} }] := by
  obtain ⟨ds, places, hwell, hlexeme, hliteral⟩ := number_of_scan ht hk
  obtain ⟨ds', places', hwell', htext, hsame⟩ := Positional.padded_number hwell j k
  rw [hlexeme, htext, scan_number hwell', ofDigits_congr hsame, hk, hliteral]

end

/-- **Numbers are nearest.** The value of a number is what the rational that its text denotes is
rounded to, and nothing else is: infinity from 2^1024 - 2^970 on, zero up to 2^-1075. Zeros in front
and behind the fraction make no difference to it, and it grows with the rational, whichever scans
are compared. -/
theorem scan_nearest (source : List Char) : ∀ t ∈ (scan source).tokens, t.kind = .number →
    ∃ x : Binary64, t.literal = some (.number x) ∧ Munch.Matches .number t.lexeme ∧
      0 ≤ Positional.value t.lexeme ∧
      (∀ y, RoundsTo (Positional.value t.lexeme) y ↔ y = x) ∧
      (x = ⟨0x7FF0000000000000⟩ ↔ 2 ^ 1024 - 2 ^ 970 ≤ Positional.value t.lexeme) ∧
      (x = ⟨0⟩ ↔ Positional.value t.lexeme ≤ 1 / 2 ^ 1075) ∧
      (∀ j k, (scan (padded j k t.lexeme)).findings =
          [.token { t with lexeme := padded j k t.lexeme, start := {} }] ∧
        ∀ (source' : List Char), ∀ u ∈ (scan source').tokens, u.lexeme = padded j k t.lexeme →
          u.kind = .number ∧ u.literal = t.literal) ∧
      ∀ (source' : List Char), ∀ u ∈ (scan source').tokens, u.kind = .number →
        Positional.value t.lexeme ≤ Positional.value u.lexeme →
        ∃ y, u.literal = some (.number y) ∧ x.bits ≤ y.bits ∧
          (y.isFinite = true → x.isFinite = true ∧ x.value ≤ y.value) := by
  intro t ht hk
  obtain ⟨x, hliteral, hnonneg, hrounds⟩ := nearest_of_scan ht hk
  have hx := (hrounds x).2 rfl
  refine ⟨x, hliteral, (formed_scan source t ht).number.1 hk, hnonneg, hrounds, hx.infinite_iff,
    hx.zero_iff hnonneg, ?zeros, ?order⟩
  case zeros =>
    intro j k
    have hscan := padded_of_scan ht hk j k
    refine ⟨hscan, ?_⟩
    intro source' u hu hlexeme
    have hmem : { t with lexeme := padded j k t.lexeme, start := {} } ∈
        (scan (padded j k t.lexeme)).tokens := by
      rw [Scan.tokens, hscan]
      exact List.mem_cons_self
    obtain ⟨hkind, hvalue⟩ := agree_of_lexeme hu hmem hlexeme
    exact ⟨hkind.trans hk, hvalue⟩
  case order =>
    intro source' u hu hku hle
    obtain ⟨y, hy, -, hyrounds⟩ := nearest_of_scan hu hku
    exact ⟨y, hy, hx.ordered ((hyrounds y).2 rfl) hnonneg hle⟩

/-- 2^53 + 1 is half way between two numbers, and the even one is 2^53. What denotes a little more is
rounded to the other one. -/
theorem scan_nearest_tie :
    ∃ t u : Token, t ∈ (scan "x=9007199254740993;".toList).tokens ∧ t.kind = .number ∧
      u ∈ (scan "9007199254740993.01".toList).tokens ∧ u.kind = .number ∧
      Positional.value t.lexeme = 2 ^ 53 + 1 ∧
      Positional.value t.lexeme ≤ Positional.value u.lexeme ∧
      t.literal = some (.number ⟨0x4340000000000000⟩) ∧
      u.literal = some (.number ⟨0x4340000000000001⟩) ∧
      (∀ y, RoundsTo (2 ^ 53 + 1) y ↔ y = ⟨0x4340000000000000⟩) ∧
      (scan "009007199254740993.000".toList).findings =
        [.token { t with lexeme := "009007199254740993.000".toList, start := {} }] ∧
      (⟨0x4340000000000000⟩ : Binary64).value ≤ (⟨0x4340000000000001⟩ : Binary64).value := by
  have ht : (⟨.number, "9007199254740993".toList, some (.number ⟨0x4340000000000000⟩), ⟨1, 3⟩⟩ :
      Token) ∈ (scan "x=9007199254740993;".toList).tokens := by decide +kernel
  have hu : (⟨.number, "9007199254740993.01".toList, some (.number ⟨0x4340000000000001⟩),
      ⟨1, 1⟩⟩ : Token) ∈ (scan "9007199254740993.01".toList).tokens := by decide +kernel
  have hvalue : Positional.value "9007199254740993".toList = 2 ^ 53 + 1 := by decide +kernel
  have hle : Positional.value "9007199254740993".toList ≤
      Positional.value "9007199254740993.01".toList := by decide +kernel
  obtain ⟨x, hx, -, -, hrounds, -, -, hpadded, horder⟩ := scan_nearest _ _ ht rfl
  cases hx
  obtain ⟨y, hy, -, hvalues⟩ := horder _ _ hu rfl hle
  cases hy
  rw [hvalue] at hrounds
  exact ⟨_, _, ht, rfl, hu, rfl, hvalue, hle, rfl, rfl, hrounds, (hpadded 2 3).1,
    (hvalues (by decide)).2⟩

end Lox

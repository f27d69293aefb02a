import Lox.Decimal.OfText
import Lox.Proofs.Cut

/-!
# Numbers of the source are read

The number pieces of a source text, digits with a fraction or without one, are among the texts that
a number is read from. What is read is what the piece stands for.

Results:
* `decimal?_number`: the digits, and how many of them are behind the point.
* `ofText?_number`: the number that is read from the text of a piece.
-/
namespace Lox
namespace Binary64

theorem toLower_digit {d : Char} (h : d.isDigit = true) : d.toLower = d := by
  have hd : 48 ≤ d.toNat ∧ d.toNat ≤ 57 := Char.isDigit_iff_toNat.1 h
  unfold Char.toLower
  split
  · rename_i hu
    have hupper : 65 ≤ d.toNat := hu.1
    omega
  · rfl

theorem splitSign_digit {d : Char} (h : d.isDigit = true) (cs : List Char) :
    splitSign (d :: cs) = (false, d :: cs) := by
  have hminus : d ≠ '-' := ne_of_test h (by decide)
  have hplus : d ≠ '+' := ne_of_test h (by decide)
  simp [splitSign, hminus, hplus]

/-- A text that starts with a digit is read as a decimal. -/
theorem ofText?_digit {d : Char} (h : d.isDigit = true) (cs : List Char) :
    ofText? (d :: cs) = (decimal? (d :: cs)).map (ofMagnitude false) := by
  have hi : d ≠ 'i' := ne_of_test h (by decide)
  have hn : d ≠ 'n' := ne_of_test h (by decide)
  simp [ofText?, splitSign_digit h, toLower_digit h, hi, hn]

theorem decimal?_number {whole : List Char} {fraction : Option (List Char)}
    (h : (Piece.number whole fraction).WellFormed) :
    decimal? (Piece.number whole fraction).text =
      some (nearest (Nat.ofDigitChars 10 (whole ++ fraction.getD []) 0)
        (Nat.pow 10 (fraction.getD []).length)) := by
  obtain ⟨⟨hne, hw⟩, hf⟩ := h
  cases fraction with
  | none =>
    have htake := takeWhile_of_breaks hw (breaks_nil _)
    have hdrop := dropWhile_of_breaks hw (breaks_nil _)
    rw [List.append_nil] at htake hdrop
    simp [decimal?, Piece.text, htake, hdrop, splitPoint, hne, exponent?]
  | some places =>
    have hp := (hf places rfl).2
    have hdot : Breaks Char.isDigit ('.' :: places) := breaks_cons.2 (by decide)
    have htake := takeWhile_of_breaks hp (breaks_nil _)
    have hdrop := dropWhile_of_breaks hp (breaks_nil _)
    rw [List.append_nil] at htake hdrop
    simp [decimal?, Piece.text, takeWhile_of_breaks hw hdot, dropWhile_of_breaks hw hdot, htake,
      hdrop, splitPoint, hne, exponent?]

/-- The text of a number is read, as the number that it spells. -/
theorem ofText?_number {whole : List Char} {fraction : Option (List Char)}
    (h : (Piece.number whole fraction).WellFormed) :
    ofText? (Piece.number whole fraction).text =
      some (ofDigits (whole ++ fraction.getD []) (fraction.getD []).length) := by
  obtain ⟨d, cs, hcs⟩ := List.exists_cons_of_ne_nil (Piece.text_ne_nil h)
  have hd : d.isDigit = true :=
    @Piece.isDigit_of_number whole fraction [] d cs h.1 (by rw [List.append_nil, hcs])
  have hdecimal := decimal?_number h
  rw [hcs] at hdecimal ⊢
  rw [ofText?_digit hd, hdecimal]
  rfl

end Binary64
end Lox

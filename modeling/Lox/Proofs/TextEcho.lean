import Lox.Proofs.Lexeme

/-!
# The echo as text

The echo as text has a line for each token: its kind, its text and its value. Nothing is escaped. A
string is written as it stands, with its line ends, once between its quotes and once without them,
so a string may look like any number of lines. Still no string can pass for a line behind it. From
the start of a line the kind goes to the first blank. If it is that of a string, then the text goes
to the second quote, since there is none between the two, and the value is what stands between them.
If it is any other, then the text has no blank in it. So a line is told from what comes after it,
whatever that is, and an echo can be read off line by line.

Results:
* `line_cancel`: echoes that start with two lines and are the same have the same token there, and
  the same echo behind it.
* `count_line`: a line has as many line ends as its token makes it have.
* `text_echo_decodes`: echoes tell tokens apart, and how many line ends they have.
-/
namespace Lox

/-! ## Where a text is split -/

/-- What stands before the first `c`, and what stands behind it. -/
theorem split_unique {c : Char} {as bs rest rest' : List Char} (ha : c ∉ as) (hb : c ∉ bs)
    (h : as ++ c :: rest = bs ++ c :: rest') : as = bs ∧ rest = rest' := by
  have hbreaks (xs : List Char) : Breaks (· != c) (c :: xs) := breaks_cons.2 (by simp)
  have hfirst := takeWhile_of_breaks (bne_of_notMem ha) (hbreaks rest)
  rw [h, takeWhile_of_breaks (bne_of_notMem hb) (hbreaks rest')] at hfirst
  subst hfirst
  exact ⟨rfl, (List.cons.inj (List.append_cancel_left h)).2⟩

/-! ## Texts without blanks -/

/-- No character is a blank. -/
def Solid (cs : List Char) : Prop := ∀ c ∈ cs, Piece.isBlank c = false

instance (cs : List Char) : Decidable (Solid cs) := List.decidableBAll _ cs

theorem solid_nil : Solid [] := by decide

theorem Solid.notMem {cs : List Char} (h : Solid cs) {c : Char} (hc : Piece.isBlank c = true) :
    c ∉ cs := by
  intro hm
  rw [h c hm] at hc
  cases hc

theorem solid_append {as bs : List Char} (ha : Solid as) (hb : Solid bs) : Solid (as ++ bs) :=
  List.forall_mem_append.2 ⟨ha, hb⟩

theorem solid_cons {c : Char} {cs : List Char} (hc : Piece.isBlank c = false) (h : Solid cs) :
    Solid (c :: cs) := List.forall_mem_cons.2 ⟨hc, h⟩

theorem solid_digits {ds : List Char} (h : ∀ d ∈ ds, d.isDigit = true) : Solid ds := by
  intro d hd
  cases hb : Piece.isBlank d with
  | false => rfl
  | true =>
    have := Piece.isDigit_of_isBlank hb
    rw [h d hd] at this
    cases this

theorem solid_name (k : Kind) : Solid k.name := by
  have hall : ∀ k ∈ Kind.all, Solid k.name := by decide +kernel
  exact hall k (mem_allKinds k)

theorem solid_numeral {n : Numeral} (h : n.WellFormed) (plus : Bool) : Solid (n.text plus) := by
  obtain ⟨⟨-, hwhole⟩, -, hfraction⟩ := h
  have hpoint : Solid (if n.fraction = [] then [] else '.' :: n.fraction) := by
    split
    · exact solid_nil
    · exact solid_cons rfl (solid_digits hfraction)
  have hexponent : Solid (n.exponent.elim [] (Numeral.exponentText plus)) := by
    cases n.exponent with
    | none => exact solid_nil
    | some e =>
      refine solid_cons rfl (solid_append ?_ (solid_digits (toDigits_digits _).2))
      split
      · decide
      · split <;> decide
  exact solid_append (solid_append (solid_digits hwhole) hpoint) hexponent

theorem solid_write (s : Decimal.Style) (x : Binary64) : Solid (s.write x) := by
  unfold Decimal.Style.write
  split
  · decide
  · refine solid_append ?_ ?_
    · split <;> decide
    · split
      · obtain ⟨n, htext, hformed, -⟩ := s.magnitude_numeral x.magnitude
        rw [htext]
        exact solid_numeral hformed _
      · decide

namespace Munch

/-- Of the texts of tokens only strings have blanks in them. -/
theorem solid_of_matches {k : Class} {text : List Char} (h : Matches k text)
    (hk : k = .number ∨ k = .word ∨ k = .operator) : Solid text := by
  cases h with
  | whole _ hd => exact solid_digits fun d hm => digit_iff.1 (hd d hm)
  | fraction _ hd _ he =>
    refine solid_append (solid_digits fun d hm => digit_iff.1 (hd d hm)) (solid_cons rfl ?_)
    exact solid_digits fun d hm => digit_iff.1 (he d hm)
  | @word c cs hc hcs =>
    have hword : ∀ d ∈ c :: cs, Piece.isWordChar d = true :=
      List.forall_mem_cons.2 ⟨isWordChar_iff.2 (.inl hc), fun d hd => isWordChar_iff.2 (hcs d hd)⟩
    intro d hd
    cases hb : Piece.isBlank d with
    | false => rfl
    | true =>
      have := Piece.isWordChar_of_isBlank hb
      rw [hword d hd] at this
      cases this
  | operator ht =>
    have hall : ∀ t ∈ operators, Solid t := by decide
    exact hall text ht
  | _ => simp at hk

end Munch

/-! ## Lines -/

/-- The value of a string. -/
def Token.string? (t : Token) : Option (List Char) :=
  match t.literal with
  | some (.string v) => some v
  | _ => none

section
variable {t u : Token}

/-- The text of a token that is no string has no blank. -/
theorem solid_lexeme (h : t.Formed) (hs : t.kind ≠ .string) : Solid t.lexeme := by
  by_cases heof : t.kind = .eof
  · rw [h.empty.2 heof]
    exact solid_nil
  by_cases hn : t.kind = .number
  · exact Munch.solid_of_matches (h.number.1 hn) (.inl rfl)
  by_cases hw : Munch.Matches .word t.lexeme
  · exact Munch.solid_of_matches hw (.inr (.inl rfl))
  · exact Munch.solid_of_matches (.operator (h.operator heof hs hn hw).1) (.inr (.inr rfl))

/-- The value of a token that is no string is written without blanks. -/
theorem solid_value (h : t.Valued) (hs : t.kind ≠ .string) :
    Solid ((t.literal.map Literal.echo).getD "null".toList) := by
  cases h with
  | string => exact absurd rfl hs
  | number lexeme hm place => exact solid_write Literal.style _
  | plain lexeme _ _ place =>
    show Solid "null".toList
    decide

/-- **Lines.** The line at the start of an echo determines its token, but for the place, and the
echo behind it. -/
theorem line_cancel {rest rest' : List Char} (ht : t.Scanned) (hu : u.Scanned)
    (h : t.echo ++ '\n' :: rest = u.echo ++ '\n' :: rest') :
    t.content = u.content ∧ rest = rest' := by
  simp only [Token.echo, List.append_assoc, List.cons_append] at h
  obtain ⟨hname, h⟩ := split_unique (blank_notMem_name _) (blank_notMem_name _) h
  have hkind := kindName_injective hname
  suffices hboth : t.lexeme = u.lexeme ∧ rest = rest' by
    obtain ⟨hlexeme, hrest⟩ := hboth
    obtain ⟨source, ht⟩ := ht
    obtain ⟨source', hu⟩ := hu
    have hliteral := (agree_of_lexeme ht hu hlexeme).2
    exact ⟨by simp [Token.content, Token.length, hkind, hlexeme, hliteral], hrest⟩
  by_cases hs : t.kind = .string
  · -- The value has no quote, so the second quote is the one that ends the text.
    obtain ⟨v, hv, htext, hvalue⟩ := ht.formed.quoted hs
    obtain ⟨w, hw, hutext, huvalue⟩ := hu.formed.quoted (hkind ▸ hs)
    simp only [htext, hvalue, hutext, huvalue, List.cons_append, List.append_assoc,
      List.nil_append, Option.map_some, Option.getD_some, Literal.echo] at h ⊢
    obtain ⟨rfl, h⟩ := split_unique hv hw (List.cons.inj h).2
    have h := (List.cons.inj h).2
    exact ⟨rfl, (List.cons.inj (List.append_cancel_left h)).2⟩
  · have hs' : u.kind ≠ .string := hkind ▸ hs
    have hblank {x : Token} (hx : x.Scanned) (hne : x.kind ≠ .string) : ' ' ∉ x.lexeme :=
      (solid_lexeme hx.formed hne).notMem rfl
    have hend {x : Token} (hx : x.Scanned) (hne : x.kind ≠ .string) :=
      (solid_value hx.valued hne).notMem (c := '\n') rfl
    obtain ⟨hlexeme, h⟩ := split_unique (hblank ht hs) (hblank hu hs') h
    exact ⟨hlexeme, (split_unique (hend ht hs) (hend hu hs') h).2⟩

/-- A line has an end, and two line ends for each one in the value of a string. -/
theorem count_line (h : t.Scanned) :
    (t.echo ++ ['\n']).count '\n' = 1 + 2 * (t.string?.getD []).count '\n' := by
  have hname : t.kind.name.count '\n' = 0 :=
    List.count_eq_zero.2 ((solid_name t.kind).notMem rfl)
  by_cases hs : t.kind = .string
  · obtain ⟨v, -, htext, hvalue⟩ := h.formed.quoted hs
    simp [Token.echo, Token.string?, htext, hvalue, Literal.echo, hname]
    omega
  · have hlexeme : t.lexeme.count '\n' = 0 :=
      List.count_eq_zero.2 ((solid_lexeme h.formed hs).notMem rfl)
    have hvalue := List.count_eq_zero.2 ((solid_value h.valued hs).notMem (c := '\n') rfl)
    have hnone : t.string? = none := by
      cases h.valued with
      | string => exact absurd rfl hs
      | number => rfl
      | plain => rfl
    simp only [Token.echo, List.count_append, List.count_cons, hname, hlexeme, hvalue, hnone,
      Option.getD_none]
    rfl

end

/-! ## Echoes -/

theorem echo_cons (t : Token) (ts : List Token) :
    Format.text.echo (t :: ts) = t.echo ++ '\n' :: Format.text.echo ts := by
  simp [Format.echo]

/-- Lists of tokens with one echo have the same tokens, but for their places. -/
theorem content_of_echo {ts us : List Token} (ht : ∀ t ∈ ts, t.Scanned) (hu : ∀ u ∈ us, u.Scanned)
    (h : Format.text.echo ts = Format.text.echo us) :
    ts.map Token.content = us.map Token.content := by
  induction ts generalizing us with
  | nil =>
    cases us with
    | nil => rfl
    | cons u us =>
      rw [echo_cons] at h
      exact absurd h (by simp [Format.echo])
  | cons t ts ih =>
    cases us with
    | nil =>
      rw [echo_cons] at h
      exact absurd h (by simp [Format.echo])
    | cons u us =>
      obtain ⟨ht, hts⟩ := List.forall_mem_cons.1 ht
      obtain ⟨hu, hus⟩ := List.forall_mem_cons.1 hu
      rw [echo_cons, echo_cons] at h
      obtain ⟨hcontent, hrest⟩ := line_cancel ht hu h
      rw [List.map_cons, List.map_cons, hcontent, ih hts hus hrest]

/-- The place of a token is not echoed. -/
theorem line_of_content {t u : Token} (h : t.content = u.content) : t.echo = u.echo := by
  simp only [Token.content, Prod.mk.injEq] at h
  obtain ⟨hkind, hlexeme, hliteral, -⟩ := h
  rw [Token.echo, Token.echo, hkind, hlexeme, hliteral]

theorem echo_of_content {ts us : List Token} (h : ts.map Token.content = us.map Token.content) :
    Format.text.echo ts = Format.text.echo us := by
  induction ts generalizing us with
  | nil => rw [List.map_eq_nil_iff.1 h.symm]
  | cons t ts ih =>
    cases us with
    | nil => cases h
    | cons u us =>
      obtain ⟨hcontent, hrest⟩ := List.cons.inj h
      rw [echo_cons, echo_cons, line_of_content hcontent, ih hrest]

theorem count_echo {ts : List Token} (h : ∀ t ∈ ts, t.Scanned) :
    (Format.text.echo ts).count '\n' =
      ts.length + 2 * (ts.filterMap Token.string?).flatten.count '\n' := by
  induction ts with
  | nil => rfl
  | cons t ts ih =>
    obtain ⟨ht, hts⟩ := List.forall_mem_cons.1 h
    have hline := count_line ht
    have hecho : Format.text.echo (t :: ts) = (t.echo ++ ['\n']) ++ Format.text.echo ts := rfl
    rw [hecho, List.count_append, hline, ih hts, List.length_cons]
    cases hstring : t.string? with
    | none => simp [hstring]; omega
    | some v => simp [hstring]; omega

/-- **The echo as text tells tokens apart.** Two texts have the same echo exactly if their scans have
the same tokens, but for the places. An echo has a line end for each token and two more for each
line feed in the value of a string, so that it has one line for each token exactly if no string goes
over a line end. -/
theorem text_echo_decodes :
    (∀ source source' : List Char,
      Format.text.echo (scan source).tokens = Format.text.echo (scan source').tokens ↔
        (scan source).tokens.map Token.content = (scan source').tokens.map Token.content) ∧
    ∀ source : List Char,
      let echo := Format.text.echo (scan source).tokens
      let strings := (scan source).tokens.filterMap Token.string?
      echo.count '\n' = (scan source).tokens.length + 2 * strings.flatten.count '\n' ∧
        (echo.count '\n' = (scan source).tokens.length ↔ ∀ v ∈ strings, '\n' ∉ v) := by
  have hscanned (source : List Char) : ∀ t ∈ (scan source).tokens, t.Scanned :=
    fun t ht => ⟨source, ht⟩
  refine ⟨fun source source' => ⟨?_, echo_of_content⟩, ?_⟩
  · exact content_of_echo (hscanned source) (hscanned source')
  · intro source echo strings
    have hcount : echo.count '\n' = _ + 2 * strings.flatten.count '\n' :=
      count_echo (hscanned source)
    refine ⟨hcount, ?_⟩
    have hnone : strings.flatten.count '\n' = 0 ↔ ∀ v ∈ strings, '\n' ∉ v := by
      rw [List.count_eq_zero, List.mem_flatten]
      simp
    rw [← hnone, hcount]
    omega

/-- A string that looks like the end of an echo and the start of another, among different blanks. -/
theorem text_echo_imitated :
    let source := "\"x\" \"\nEOF  null\nSTRING \"1".toList
    let source' := "\n\"x\"\"\nEOF  null\nSTRING \"\t1 //\"".toList
    Format.text.echo (scan source).tokens = Format.text.echo (scan source').tokens ∧
      (scan source).tokens.map Token.content = (scan source').tokens.map Token.content ∧
      (Format.text.echo (scan source).tokens).count '\n' = 8 := by
  intro source source'
  obtain ⟨hiff, hcount⟩ := text_echo_decodes
  have hcontent :
      (scan source).tokens.map Token.content = (scan source').tokens.map Token.content := by
    decide +kernel
  refine ⟨(hiff source source').2 hcontent, hcontent, (hcount source).1.trans ?_⟩
  decide +kernel

end Lox

import Lox.Proofs.Content

/-!
# Tokens written out again

The texts of the tokens of a scan, with a separator between each two: a blank, and after it any
number of blanks and of comments that are over at their line ends. A scan of such a text finds the
same tokens again, and nothing else.

Results:
* `cuts_filling`: blanks and ended comments before a text are cut off from it and give nothing.
* `cuts_spaced`: pieces that speak, written out with separators, are cut apart again.
* `scan_spaced`: scanning what was written out gives the same tokens, but for their places.
-/
namespace Lox

/-! ## Separators -/

/-- Blanks, and comments with the line feeds that end them. -/
inductive Filling : List Char → Prop
  | nil : Filling []
  | blank {c : Char} {u : List Char} : c ∈ [' ', '\t', '\r', '\n'] → Filling u → Filling (c :: u)
  | comment {body u : List Char} : '\n' ∉ body → Filling u →
    Filling ('/' :: '/' :: (body ++ '\n' :: u))

inductive Separator : List Char → Prop
  | mk {c : Char} {u : List Char} : c ∈ [' ', '\t', '\r', '\n'] → Filling u → Separator (c :: u)

/-- Texts in their order, with a separator between each two. -/
inductive Spaced : List (List Char) → List Char → Prop
  | nil : Spaced [] []
  | single {t : List Char} : Spaced [t] t
  | cons {t u sep rest : List Char} {us : List (List Char)} : Separator sep →
    Spaced (u :: us) rest → Spaced (t :: u :: us) (t ++ (sep ++ rest))

namespace Piece

/-! ## Pieces that speak -/

/-- The piece gives a token. -/
def Speaks (q : Piece) : Prop := ∃ p t, q.finding? p = some (.token t)

theorem speaks_iff {q : Piece} : q.Speaks ↔ q.content?.isSome = true := by
  constructor
  · rintro ⟨p, t, h⟩
    rw [← content_finding p q, h]
    rfl
  · intro h
    refine ⟨{}, ?_⟩
    cases q <;> first | exact ⟨_, rfl⟩ | cases h

theorem silent_content {q : Piece} (h : q.Silent) : q.content? = none := by
  rw [content?, h]
  rfl

/-- The text of the token is the text of the piece. -/
theorem content_lexeme {q : Piece} {k : Kind} {text : List Char} {v : Option Literal} {n : Nat}
    (h : q.content? = some (k, text, v, n)) : q.text = text := by
  cases q <;> cases h <;> rfl

theorem stops_of_speaks {q : Piece} {c : Char} {cs : List Char} (hq : q.Speaks)
    (hc : isBlank c = true) : q.Stops (c :: cs) := by
  obtain ⟨p, t, h⟩ := hq
  refine stops_of_not_open ?_ hc cs
  cases q <;> first | rfl | cases h

end Piece

/-! ## Cutting what was written out -/

theorem isBlank_of_mem {c : Char} (h : c ∈ [' ', '\t', '\r', '\n']) : Piece.isBlank c = true := by
  simp only [List.mem_cons, List.not_mem_nil, or_false] at h
  rcases h with rfl | rfl | rfl | rfl <;> rfl

/-- Separators vanish: they are cut into silent pieces, and the text after them is cut as if they
were not there. -/
theorem cuts_filling {u rest : List Char} {rs : List Piece} (hu : Filling u)
    (hr : Cuts rest rs) : ∃ qs, Cuts (u ++ rest) (qs ++ rs) ∧ ∀ q ∈ qs, q.Silent := by
  induction hu with
  | nil => exact ⟨[], hr, fun q hq => absurd hq List.not_mem_nil⟩
  | @blank c u hc _ ih =>
    obtain ⟨qs, hqs, hsilent⟩ := ih
    refine ⟨.blank c :: qs, hqs.blank (isBlank_of_mem hc), ?_⟩
    exact List.forall_mem_cons.2 ⟨fun p => rfl, hsilent⟩
  | @comment body u hbody _ ih =>
    obtain ⟨qs, hqs, hsilent⟩ := ih
    have hend : Cuts ('\n' :: (u ++ rest)) (.blank '\n' :: (qs ++ rs)) := hqs.blank rfl
    have hstop : (Piece.comment body).Stops ('\n' :: (u ++ rest)) := breaks_cons.2 rfl
    refine ⟨.comment body :: .blank '\n' :: qs, ?_, ?_⟩
    · have hall := Cuts.cons (q := .comment body) hbody hstop hend
      simpa [Piece.text] using hall
    · exact List.forall_mem_cons.2 ⟨fun p => rfl, List.forall_mem_cons.2 ⟨fun p => rfl, hsilent⟩⟩

theorem cuts_separator {sep rest : List Char} {rs : List Piece} (h : Separator sep)
    (hr : Cuts rest rs) : ∃ qs, Cuts (sep ++ rest) (qs ++ rs) ∧ ∀ q ∈ qs, q.Silent := by
  cases h with
  | mk hc hu => exact cuts_filling (.blank hc hu) hr

/-- Pieces that speak are cut apart again, wherever a separator stands between them. -/
theorem cuts_spaced {ws : List Piece} {text : List Char}
    (hws : ∀ q ∈ ws, q.WellFormed ∧ q.Speaks) (h : Spaced (ws.map Piece.text) text) :
    ∃ qs, Cuts text qs ∧ qs.filterMap Piece.content? = ws.filterMap Piece.content? ∧
      ∀ q ∈ qs, q.Speaks ∨ q.Silent := by
  induction ws generalizing text with
  | nil =>
    cases h
    exact ⟨[], .nil, rfl, fun q hq => absurd hq List.not_mem_nil⟩
  | cons q ws ih =>
    obtain ⟨⟨hq, hspeaks⟩, htail⟩ := List.forall_mem_cons.1 hws
    cases ws with
    | nil =>
      cases h
      have hcut := Cuts.cons hq q.stops_nil .nil
      rw [List.append_nil] at hcut
      exact ⟨[q], hcut, rfl, List.forall_mem_singleton.2 (.inl hspeaks)⟩
    | cons r ws =>
      cases h with
      | @cons _ _ sep rest _ hsep hrest =>
        obtain ⟨rs, hrs, hcontent, hkinds⟩ := ih htail hrest
        obtain ⟨gap, hgap, hsilent⟩ := cuts_separator hsep hrs
        have hstop : q.Stops (sep ++ rest) := by
          cases hsep with
          | mk hc _ => exact Piece.stops_of_speaks hspeaks (isBlank_of_mem hc)
        have hnone : gap.filterMap Piece.content? = [] :=
          List.filterMap_eq_nil_iff.2 fun g hg => Piece.silent_content (hsilent g hg)
        refine ⟨q :: (gap ++ rs), .cons hq hstop hgap, ?_, ?_⟩
        · rw [List.filterMap_cons, List.filterMap_append, hnone, hcontent, List.nil_append]
          rfl
        · refine List.forall_mem_cons.2 ⟨.inl hspeaks, List.forall_mem_append.2 ⟨?_, hkinds⟩⟩
          exact fun g hg => .inr (hsilent g hg)

/-! ## Scanning it -/

/-- Pieces that speak or are silent give no diagnostics. -/
theorem diagnostics_nil {p : Position} {qs : List Piece} (h : ∀ q ∈ qs, q.Speaks ∨ q.Silent) :
    (findings p qs).filterMap Finding.diagnostic? = [] := by
  induction qs generalizing p with
  | nil => rfl
  | cons q qs ih =>
    obtain ⟨hq, htail⟩ := List.forall_mem_cons.1 h
    rw [findings, List.filterMap_append, ih htail, List.append_nil]
    rcases hq with ⟨p', t, ht⟩ | hsilent
    · cases q <;> first | rfl | cases ht
    · rw [hsilent]
      rfl

/-- The pieces of a text that speak are those of its words. -/
theorem words_lexemes (source : List Char) :
    (scan source).words.map Token.lexeme =
      ((pieces source).filter (·.content?.isSome)).map Piece.text := by
  have h : (scan source).words.map Token.lexeme =
      ((scan source).words.map Token.content).map (·.2.1) := by
    rw [List.map_map]
    rfl
  rw [h, words_content]
  induction pieces source with
  | nil => rfl
  | cons q qs ih =>
    cases hq : q.content? with
    | none => rw [List.filterMap_cons_none hq, ih, List.filter_cons_of_neg (by simp [hq])]
    | some c =>
      obtain ⟨k, text, v, n⟩ := c
      rw [List.filterMap_cons_some hq, List.map_cons, ih, List.filter_cons_of_pos (by simp [hq]),
        List.map_cons, Piece.content_lexeme hq]

/-- **Spacing.** The tokens of any text, written out in order with a separator between each two, are
found again with their kinds, texts, values and lengths, then the end of the text, and there is
nothing to report. -/
theorem scan_spaced {source text : List Char}
    (h : Spaced ((scan source).words.map Token.lexeme) text) :
    (scan text).diagnostics = [] ∧
      (scan text).tokens.map Token.content =
        (scan source).words.map Token.content ++ [(.eof, [], none, 0)] := by
  have hws : ∀ q ∈ (pieces source).filter (·.content?.isSome), q.WellFormed ∧ q.Speaks := by
    intro q hq
    obtain ⟨hmem, hsome⟩ := List.mem_filter.1 hq
    exact ⟨wellFormed_of_mem (cuts_pieces source) hmem, Piece.speaks_iff.2 hsome⟩
  rw [words_lexemes] at h
  obtain ⟨qs, hcuts, hcontent, hkinds⟩ := cuts_spaced hws h
  have hpieces := pieces_of_cuts hcuts
  constructor
  · rw [Scan.diagnostics, scan, hpieces]
    exact diagnostics_nil hkinds
  · rw [tokens_scan, List.map_append, words_content, words_content, hpieces, hcontent,
      List.filterMap_filter]
    congr 2
    funext q
    cases q.content? <;> rfl

/-- Two symbols in a row of equal signs, a string with a comment mark and a line end in it, a stray
character, and a number before a point. -/
theorem scan_spaced_mixed :
    Spaced ((scan "a===//c\n\"b\n//\"#1.".toList).words.map Token.lexeme)
        "a\t==\n//c\n =\r\"b\n//\" 1\n.".toList ∧
      (scan "a\t==\n//c\n =\r\"b\n//\" 1\n.".toList).diagnostics = [] ∧
      (scan "a\t==\n//c\n =\r\"b\n//\" 1\n.".toList).tokens.map Token.content =
        (scan "a===//c\n\"b\n//\"#1.".toList).words.map Token.content ++ [(.eof, [], none, 0)] := by
  have hwords : (scan "a===//c\n\"b\n//\"#1.".toList).words.map Token.lexeme =
      ["a".toList, "==".toList, "=".toList, "\"b\n//\"".toList, "1".toList, ".".toList] := by
    decide +kernel
  have hspaced : Spaced ((scan "a===//c\n\"b\n//\"#1.".toList).words.map Token.lexeme)
      "a\t==\n//c\n =\r\"b\n//\" 1\n.".toList := by
    rw [hwords]
    have hcomment : Filling "//c\n ".toList :=
      @Filling.comment ['c'] [' '] (by decide) (.blank (by decide) .nil)
    exact @Spaced.cons ['a'] _ ['\t'] _ _ (.mk (by decide) .nil) <|
      @Spaced.cons "==".toList _ "\n//c\n ".toList _ _ (.mk (by decide) hcomment) <|
      @Spaced.cons ['='] _ ['\r'] _ _ (.mk (by decide) .nil) <|
      @Spaced.cons "\"b\n//\"".toList _ [' '] _ _ (.mk (by decide) .nil) <|
      @Spaced.cons ['1'] _ ['\n'] _ _ (.mk (by decide) .nil) .single
  exact ⟨hspaced, scan_spaced hspaced⟩

end Lox

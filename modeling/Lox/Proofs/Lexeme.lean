import Lox.Proofs.JsonEcho
import Lox.Proofs.Places

/-!
# What the text of a token says

The text of a token says all there is to the token but its place: its kind is told by the class
that the text belongs to, and its value by the characters. So tokens with one text agree, wherever
they were scanned, and the text scanned alone gives the token again.

Results:
* `Token.Formed`: how kind and value go by the text, and `formed_scan`: that they do.
* `agree_of_lexeme`: tokens with the same text have the same kind and value.
* `scan_lexeme`: the text of a token is scanned to that token.
* `scan_formed`: all of it, for every token of every scan.
-/
namespace Lox

open Munch (Matches KindOf)

/-! ## Numbers -/

namespace Binary64

theorem same_self {x : Binary64} (h : x.isNaN = false) : x.same x = true := by
  simp [same, h]

end Binary64

/-! ## Classes of texts -/

namespace Munch

/-- Of all texts of a class only strings start with a quote. -/
theorem head_quote_iff {k : Class} {text : List Char} (h : Matches k text) :
    text.head? = some '"' ↔ k = .string := by
  have hdigits : ∀ ds rest : List Char, ds ≠ [] → (∀ d ∈ ds, Digit d) →
      (ds ++ rest).head? ≠ some '"' := by
    intro ds rest hne hd he
    obtain ⟨c, cs, rfl⟩ := List.exists_cons_of_ne_nil hne
    obtain rfl : c = '"' := Option.some.inj he
    exact absurd (digit_iff.1 (hd _ List.mem_cons_self)) (by decide)
  cases h with
  | blank hc => rcases hc with rfl | rfl | rfl | rfl <;> decide
  | comment _ => simp
  | string _ => simp
  | whole hne hd =>
    have hhead := hdigits text [] hne hd
    rw [List.append_nil] at hhead
    exact iff_of_false hhead Class.noConfusion
  | fraction hne hd _ _ => exact iff_of_false (hdigits _ _ hne hd) Class.noConfusion
  | @word c cs hc _ =>
    refine iff_of_false ?_ Class.noConfusion
    intro he
    obtain rfl : c = '"' := Option.some.inj he
    exact absurd (letter_iff.1 hc) (by decide)
  | operator ht =>
    have hall : ∀ t ∈ operators, t.head? ≠ some '"' := by decide
    exact iff_of_false (hall text ht) Class.noConfusion

theorem quote_notMem_of_matches {body : List Char}
    (h : Matches .string ('"' :: (body ++ ['"']))) : '"' ∉ body := by
  obtain ⟨q, hq, hk, he⟩ := matches_iff.1 h
  cases q with
  | string b =>
    obtain rfl : b = body := List.append_cancel_right (List.cons.inj he).2
    exact hq
  | _ => cases hk

/-! ## Kinds of segments -/

theorem kindOf_string_iff {k : Class} {text : List Char} {kind : Kind}
    (h : KindOf (.matched k text) kind) : kind = .string ↔ k = .string := by
  cases h <;> simp

theorem kindOf_number_iff {k : Class} {text : List Char} {kind : Kind}
    (h : KindOf (.matched k text) kind) : kind = .number ↔ k = .number := by
  cases h <;> simp

end Munch

/-! ## Well-formed tokens -/

/-- How the kind and the value of a token go by its text. -/
structure Token.Formed (t : Token) : Prop where
  length : t.length = t.lexeme.length
  empty : t.lexeme = [] ↔ t.kind = .eof
  string : t.kind = .string ↔ t.lexeme.head? = some '"'
  quoted : t.kind = .string → ∃ v, '"' ∉ v ∧ t.lexeme = '"' :: (v ++ ['"']) ∧
    t.literal = some (.string v)
  number : t.kind = .number ↔ Matches .number t.lexeme
  value : t.kind = .number → ∃ x, t.literal = some (.number x) ∧ x.isNaN = false ∧
    x.isNegative = false
  word : Matches .word t.lexeme →
    (t.lexeme ∈ Munch.reservedWords ∧ ∃ w, t.kind = .keyword w ∧ w.spelling = t.lexeme) ∨
    (t.lexeme ∉ Munch.reservedWords ∧ t.kind = .identifier)
  operator : t.kind ≠ .eof → t.kind ≠ .string → t.kind ≠ .number → ¬ Matches .word t.lexeme →
    t.lexeme ∈ Munch.operators ∧ ∃ s, t.kind = .symbol s ∧ s.spelling = t.lexeme
  plain : t.kind ≠ .string → t.kind ≠ .number → t.literal = none

/-- A token is well formed if its text is of a class, its kind is one of that class, and its value
goes by its kind. -/
theorem formed_of_class {t : Token} {k : Munch.Class} (hm : Matches k t.lexeme)
    (hk : KindOf (.matched k t.lexeme) t.kind) (hv : t.Valued) : t.Formed where
  length := rfl
  empty := iff_of_false (Munch.matches_ne_nil hm) (Munch.kindOf_ne_eof hk)
  string := (Munch.kindOf_string_iff hk).trans (Munch.head_quote_iff hm).symm
  quoted hs := by
    obtain rfl := (Munch.kindOf_string_iff hk).1 hs
    cases hv with
    | string body place => exact ⟨body, Munch.quote_notMem_of_matches hm, rfl, rfl⟩
    | number => cases hs
    | plain _ hstring _ _ => exact absurd hs hstring
  number := by
    refine (Munch.kindOf_number_iff hk).trans ⟨?_, fun h => Munch.class_unique hm h⟩
    rintro rfl
    exact hm
  value hn := by
    cases hv with
    | string => cases hn
    | number lexeme hle place =>
      exact ⟨_, rfl, Binary64.isNaN_ofMagnitude hle, Binary64.isNegative_ofMagnitude hle⟩
    | plain _ _ hnumber _ => exact absurd hn hnumber
  word hw := by
    obtain rfl := Munch.class_unique hm hw
    generalize t.kind = kind at hk
    cases hk with
    | reserved w hmem hspell => exact .inl ⟨hmem, w, rfl, hspell⟩
    | identifier hnot => exact .inr ⟨hnot, rfl⟩
  operator _ hs hn hw := by
    generalize t.kind = kind at hk hs hn
    cases hk with
    | string => exact absurd rfl hs
    | number => exact absurd rfl hn
    | reserved _ _ _ => exact absurd hm hw
    | identifier _ => exact absurd hm hw
    | operator s hspell => exact ⟨Munch.mem_operators_iff.2 ⟨s, hspell⟩, s, rfl, hspell⟩
  plain hs hn := by
    cases hv with
    | string => exact absurd rfl hs
    | number => exact absurd rfl hn
    | plain => rfl

theorem formed_endOfText (place : Position) : (Token.endOfText place).Formed where
  length := rfl
  empty := iff_of_true rfl rfl
  string := iff_of_false Kind.noConfusion (by simp [Token.endOfText])
  quoted := Kind.noConfusion
  number := iff_of_false Kind.noConfusion fun h => Munch.matches_ne_nil h rfl
  value := Kind.noConfusion
  word h := absurd rfl (Munch.matches_ne_nil h)
  operator h := absurd rfl h
  plain _ _ := rfl

/-! ## The tokens of a scan -/

/-- The token of some scan. -/
def Token.Scanned (t : Token) : Prop := ∃ source, t ∈ (scan source).tokens

section
variable {q : Piece} {p : Position} {t u : Token}

theorem lexeme_of_finding (h : q.finding? p = some (.token t)) : t.lexeme = q.text := by
  cases q <;> cases h <;> rfl

theorem class_of_finding (h : q.finding? p = some (.token t)) : ∃ k, Munch.class? q = some k := by
  cases q <;> first | exact ⟨_, rfl⟩ | cases h

/-- Elsewhere a piece gives the same token, but for the place. -/
theorem finding_moved (h : q.finding? p = some (.token t)) (p' : Position) :
    q.finding? p' = some (.token { t with start := p' }) := by
  cases q <;> cases h <;> rfl

theorem formed_of_finding (hq : q.WellFormed) (h : q.finding? p = some (.token t)) :
    t.Formed := by
  have hlexeme := lexeme_of_finding h
  rcases Munch.finding_token p q with ⟨u, hu, hspeaks, -, hkind⟩ | ⟨hnone, -⟩
  · obtain rfl : u = t := Finding.token.inj (Option.some.inj (hu.symm.trans h))
    obtain ⟨k, hclass⟩ := class_of_finding h
    rw [Munch.segment_of_class hclass, ← hlexeme] at hkind
    exact formed_of_class (hlexeme ▸ Munch.matches_of_piece hq hclass) hkind (valued_finding h)
  · rw [h] at hnone
    cases hnone

theorem formed_scan (source : List Char) : ∀ t ∈ (scan source).tokens, t.Formed := by
  intro t ht
  rcases token_cases ht with rfl | ⟨q, p, hq, h⟩
  · exact formed_endOfText _
  · exact formed_of_finding hq h

theorem Token.Scanned.formed (h : t.Scanned) : t.Formed := by
  obtain ⟨source, ht⟩ := h
  exact formed_scan source t ht

theorem Token.Scanned.valued (h : t.Scanned) : t.Valued := by
  obtain ⟨source, ht⟩ := h
  exact valued_scan source t ht

theorem same_self (h : t.Valued) : t.same t = true := by
  cases h with
  | string body place => simp [Token.same, Literal.same]
  | number lexeme hm place =>
    simp [Token.same, Literal.same, Binary64.same_self (Binary64.isNaN_ofMagnitude hm)]
  | plain lexeme _ _ place => simp [Token.same]

/-- Tokens with one text agree, whatever texts they were scanned from. -/
theorem agree_of_lexeme {source source' : List Char} (ht : t ∈ (scan source).tokens)
    (hu : u ∈ (scan source').tokens) (h : t.lexeme = u.lexeme) :
    t.kind = u.kind ∧ t.literal = u.literal := by
  rcases token_cases ht with rfl | ⟨q, p, hq, hqt⟩ <;>
    rcases token_cases hu with rfl | ⟨r, p', hr, hru⟩
  · exact ⟨rfl, rfl⟩
  · exact absurd ((lexeme_of_finding hru).symm.trans h.symm) (Piece.text_ne_nil hr)
  · exact absurd ((lexeme_of_finding hqt).symm.trans h) (Piece.text_ne_nil hq)
  · have htext : q.text = r.text := by rw [← lexeme_of_finding hqt, h, lexeme_of_finding hru]
    obtain rfl := eq_of_text_eq hq hr htext
    have hsame := (finding_moved hqt p').symm.trans hru
    cases hsame
    exact ⟨rfl, rfl⟩

/-- The text of a token is scanned to that token. -/
theorem scan_lexeme {source : List Char} (ht : t ∈ (scan source).tokens) (hne : t.kind ≠ .eof) :
    (scan t.lexeme).findings = [.token { t with start := {} }] := by
  rcases token_cases ht with rfl | ⟨q, p, hq, h⟩
  · exact absurd rfl hne
  · have hfinding := finding_moved h {}
    have hpieces : pieces t.lexeme = [q] := by
      rw [lexeme_of_finding h, pieces_text_of_wellFormed hq]
    show findings {} (pieces t.lexeme) = _
    rw [hpieces, findings, hfinding]
    rfl

end

/-- **Well-formed tokens.** Every token of every scan is well formed and equal to itself. Its text
determines its kind and its value, whichever scans are compared, and scanned alone it gives that
token at the start of the text, the end of the text, and nothing to report. -/
theorem scan_formed (source : List Char) : ∀ t ∈ (scan source).tokens,
    t.Formed ∧ t.same t = true ∧
    (∀ (source' : List Char), ∀ u ∈ (scan source').tokens, t.lexeme = u.lexeme →
      t.kind = u.kind ∧ t.literal = u.literal) ∧
    (t.kind ≠ .eof →
      (scan t.lexeme).tokens =
        [{ t with start := ⟨1, 1⟩ }, Token.endOfText (placeAt t.lexeme t.lexeme.length)] ∧
      (scan t.lexeme).diagnostics = []) := by
  intro t ht
  refine ⟨formed_scan source t ht, same_self (valued_scan source t ht), ?_, ?_⟩
  · intro source' u hu h
    exact agree_of_lexeme ht hu h
  · intro hne
    have hfindings := scan_lexeme ht hne
    refine ⟨?_, ?_⟩
    · rw [Scan.tokens, hfindings, stop_eq]
      rfl
    · rw [Scan.diagnostics, hfindings]
      rfl

/-- A number with zeros at both ends, between a symbol and a point, and on a line of its own. -/
theorem scan_formed_number :
    ∃ t u : Token, t ∈ (scan "a=00.50.".toList).tokens ∧ u ∈ (scan "#\n00.50".toList).tokens ∧
      t.lexeme = "00.50".toList ∧ t.lexeme = u.lexeme ∧ t.kind ≠ .eof ∧ t.start ≠ u.start ∧
      t.Formed ∧ t.same t = true ∧ t.kind = u.kind ∧ t.literal = u.literal ∧
      (scan "00.50".toList).tokens =
        [{ t with start := ⟨1, 1⟩ }, Token.endOfText (placeAt "00.50".toList 5)] ∧
      (scan "00.50".toList).diagnostics = [] := by
  have ht : (⟨.number, "00.50".toList, some (.number ⟨0x3FE0000000000000⟩), ⟨1, 3⟩⟩ : Token) ∈
      (scan "a=00.50.".toList).tokens := by decide +kernel
  have hu : (⟨.number, "00.50".toList, some (.number ⟨0x3FE0000000000000⟩), ⟨2, 1⟩⟩ : Token) ∈
      (scan "#\n00.50".toList).tokens := by decide +kernel
  obtain ⟨hformed, hsame, hagree, halone⟩ := scan_formed _ _ ht
  obtain ⟨hkind, hliteral⟩ := hagree _ _ hu rfl
  obtain ⟨htokens, hnone⟩ := halone Kind.noConfusion
  exact ⟨_, _, ht, hu, rfl, rfl, Kind.noConfusion, by decide, hformed, hsame, hkind, hliteral,
    htokens, hnone⟩

end Lox

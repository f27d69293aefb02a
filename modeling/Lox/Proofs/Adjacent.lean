import Mathlib.Data.List.Flatten
import Mathlib.Data.List.Infix
import Lox.Proofs.Lexeme
import Lox.Proofs.Spacing

/-!
# Tokens written with nothing in between

Tokens of any scans, written one right behind the other, are found again if none of them merges with
what stands behind it: two words, a word and a number, two numbers, a symbol and an equal sign, two
slashes, or a number, a point and a number. If one does, then something else is found, whatever
stands around it: the text has as many characters as the tokens have together, so a scan that finds
them all again has to cut each of them off.

Results:
* `first_spec`: what a token can start with.
* `stops_iff`: a piece stops at the tokens behind it exactly if it does not merge with them.
* `cuts_iff`: tokens are cut off one by one exactly if none of them merges.
* `scan_adjacent`: tokens are found again exactly if none of them merges.
-/
namespace Lox

/-- A reserved word or an identifier. -/
def Kind.isWord : Kind → Bool
  | .identifier => true
  | .keyword _ => true
  | _ => false

theorem Kind.plain_of_isWord {k : Kind} (h : k.isWord = true) :
    k ≠ .number ∧ ∀ s, k ≠ .symbol s := by
  cases k <;> simp_all [isWord]

theorem Kind.isWord_ofWord (text : List Char) : (Kind.ofWord text).isWord = true := by
  unfold ofWord
  cases Keyword.ofWord? text <;> rfl

/-- The first token of a list does not stay apart from the tokens behind it. -/
def Merging : List Token → Prop
  | t :: u :: ts =>
    (t.kind.isWord ∧ (u.kind.isWord ∨ u.kind = .number)) ∨
    (t.kind = .number ∧ u.kind = .number) ∨
    (t.kind ∈ [.symbol .bang, .symbol .equal, .symbol .less, .symbol .greater] ∧
      u.kind ∈ [.symbol .equal, .symbol .equalEqual]) ∨
    (t.kind = .symbol .slash ∧ u.kind = .symbol .slash) ∨
    (t.kind = .number ∧ '.' ∉ t.lexeme ∧ u.kind = .symbol .dot ∧ ∃ v ∈ ts.head?, v.kind = .number)
  | _ => False

instance : DecidablePred Merging
  | [] => .isFalse id
  | [_] => .isFalse id
  | _ :: _ :: _ => inferInstanceAs (Decidable (_ ∨ _))

/-! ## First characters -/

/-- The characters that a token of a kind can start with. -/
inductive Kind.First : Kind → Char → Prop
  | string : First .string '"'
  | number {c : Char} : c.isDigit = true → First .number c
  | word {k : Kind} {c : Char} : k.isWord = true → Piece.isWordStart c = true → First k c
  | symbol {s : Symbol} {c : Char} : s.spelling.head? = some c → First (.symbol s) c

theorem first_spec {k : Kind} {c : Char} (h : k.First c) :
    (c.isDigit = true ↔ k = .number) ∧
    (Piece.isWordChar c = true ↔ k.isWord = true ∨ k = .number) ∧
    (c = '=' ↔ k ∈ [.symbol .equal, .symbol .equalEqual]) ∧
    (c = '/' ↔ k = .symbol .slash) ∧ (c = '.' ↔ k = .symbol .dot) := by
  have hne {p : Char → Bool} {d : Char} (hc : p c = true) (hd : p d = false) : c ≠ d :=
    ne_of_test hc hd
  cases h with
  | string => decide
  | number hc =>
    have hword : Piece.isWordChar c = true := by simp [Piece.isWordChar, hc]
    simp [hc, hword, hne hc (d := '=') rfl, hne hc (d := '/') rfl, hne hc (d := '.') rfl]
  | word hk hc =>
    have hword : Piece.isWordChar c = true := by simp [Piece.isWordChar, hc]
    have hdigit : c.isDigit = false := by
      cases hd : c.isDigit with
      | false => rfl
      | true => rw [Piece.isWordStart_of_isDigit hd] at hc; cases hc
    simp [hk, hword, hdigit, k.plain_of_isWord hk, hne hc (d := '=') rfl, hne hc (d := '/') rfl,
      hne hc (d := '.') rfl]
  | @symbol s _ hs =>
    cases s <;> (cases hs; decide)

/-! ## Pieces of given tokens -/

/-- The piece gives the token, at some place. -/
def Piece.Gives (q : Piece) (t : Token) : Prop := q.WellFormed ∧ q.content? = some t.content

theorem gives_of_scanned {t : Token} (h : t.Scanned) (hne : t.kind ≠ .eof) :
    ∃ q : Piece, q.Gives t := by
  obtain ⟨source, ht⟩ := h
  rcases token_cases ht with rfl | ⟨q, p, hq, hfinding⟩
  · exact absurd rfl hne
  · refine ⟨q, hq, ?_⟩
    rw [← content_finding p q, hfinding]
    rfl

theorem first_of_content {q : Piece} {k : Kind} {text : List Char} {v : Option Literal} {n : Nat}
    (hq : q.WellFormed) (h : q.content? = some (k, text, v, n)) :
    ∃ c cs, q.text = c :: cs ∧ k.First c := by
  cases q with
  | string body => cases h; exact ⟨'"', _, rfl, .string⟩
  | number whole fraction =>
    cases h
    obtain ⟨c, cs, hc⟩ := List.exists_cons_of_ne_nil (Piece.text_ne_nil hq)
    refine ⟨c, cs, hc, .number ?_⟩
    exact Piece.isDigit_of_number hq.1 ((List.append_nil _).trans hc)
  | word text =>
    cases h
    obtain ⟨c, cs, rfl, hc, -⟩ := hq
    exact ⟨c, cs, rfl, .word (Kind.isWord_ofWord _) hc⟩
  | symbol s =>
    cases h
    obtain ⟨c, cs, hc⟩ := List.exists_cons_of_ne_nil (Piece.text_ne_nil hq)
    exact ⟨c, cs, hc, .symbol (List.head?_eq_some_iff.2 ⟨cs, hc⟩)⟩
  | _ => cases h

section
variable {q : Piece} {t : Token} {qs : List Piece} {ts : List Token}

theorem Piece.Gives.lexeme (h : q.Gives t) : q.text = t.lexeme := Piece.content_lexeme h.2

theorem Piece.Gives.kind (h : q.Gives t) : q.content?.map (·.1) = some t.kind := by
  rw [h.2]
  rfl

theorem Piece.Gives.speaks (h : q.Gives t) : q.Speaks := by
  rw [speaks_iff, h.2]
  rfl

theorem map_lexeme (hs : List.Forall₂ Piece.Gives qs ts) :
    ts.map Token.lexeme = qs.map Piece.text := by
  induction hs with
  | nil => rfl
  | cons h _ ih => rw [List.map_cons, List.map_cons, ih, h.lexeme]

theorem filterMap_content (hs : List.Forall₂ Piece.Gives qs ts) :
    qs.filterMap Piece.content? = ts.map Token.content := by
  induction hs with
  | nil => rfl
  | cons h _ ih => rw [List.filterMap_cons_some h.2, ih, List.map_cons]

theorem gives_of_mem (hs : List.Forall₂ Piece.Gives qs ts) : ∀ q ∈ qs, ∃ t, q.Gives t := by
  induction hs with
  | nil => simp
  | cons h _ ih => exact List.forall_mem_cons.2 ⟨⟨_, h⟩, ih⟩

/-- A test on the first character behind a piece is a test on the kind of the token there. -/
theorem breaks_iff {p : Char → Bool} {P : Kind → Prop}
    (hp : ∀ {k : Kind} {c : Char}, k.First c → (p c = true ↔ P k))
    (hs : List.Forall₂ Piece.Gives qs ts) :
    Breaks p (qs.flatMap Piece.text) ↔ ∀ u ∈ ts.head?, ¬ P u.kind := by
  cases hs with
  | nil => simp [breaks_nil]
  | cons h hs =>
    obtain ⟨c, cs, htext, hfirst⟩ := first_of_content h.1 h.2
    rw [List.flatMap_cons, htext, List.cons_append, breaks_cons, ← Bool.not_eq_true, hp hfirst]
    simp

/-- What may not stand behind a token, by its kind. -/
theorem merging_iff : Merging (t :: ts) ↔ ∃ u ∈ ts.head?,
    (t.kind.isWord ∧ (u.kind.isWord ∨ u.kind = .number)) ∨
    (t.kind = .number ∧ u.kind = .number) ∨
    (t.kind ∈ [.symbol .bang, .symbol .equal, .symbol .less, .symbol .greater] ∧
      u.kind ∈ [.symbol .equal, .symbol .equalEqual]) ∨
    (t.kind = .symbol .slash ∧ u.kind = .symbol .slash) ∨
    (t.kind = .number ∧ '.' ∉ t.lexeme ∧ u.kind = .symbol .dot ∧
      ∃ v ∈ ts.tail.head?, v.kind = .number) := by
  cases ts with
  | nil => simp [Merging]
  | cons u ts => simp [Merging]

/-- Behind a point the text goes on with the next token. -/
theorem text_of_dot (h : q.Gives t) (hk : t.kind = .symbol .dot) : q.text = ['.'] := by
  have hkind := h.kind
  rw [hk] at hkind
  cases q with
  | symbol s => cases hkind; rfl
  | word text =>
    have hword := Kind.plain_of_isWord (Kind.isWord_ofWord text)
    exact absurd (Option.some.inj hkind) (hword.2 _)
  | _ => cases hkind

theorem notMem_digits {whole : List Char} (h : Piece.Digits whole) : '.' ∉ whole := by
  intro hm
  exact absurd (h.2 _ hm) (by decide)

theorem stops_whole_iff {whole : List Char} (hs : List.Forall₂ Piece.Gives qs ts) :
    (Piece.number whole none).Stops (qs.flatMap Piece.text) ↔ ∀ u ∈ ts.head?,
      u.kind ≠ .number ∧ (u.kind = .symbol .dot → ∀ v ∈ ts.tail.head?, v.kind ≠ .number) := by
  have hdigit {qs : List Piece} {ts : List Token} (hs : List.Forall₂ Piece.Gives qs ts) :
      Breaks Char.isDigit (qs.flatMap Piece.text) ↔ ∀ u ∈ ts.head?, u.kind ≠ .number :=
    breaks_iff (fun h => (first_spec h).1) hs
  rw [Piece.Stops, hdigit hs]
  cases hs with
  | nil => simp
  | @cons r u rs us h hs =>
    obtain ⟨c, cs, htext, hfirst⟩ := first_of_content h.1 h.2
    have hpoint : c = '.' ↔ u.kind = .symbol .dot := (first_spec hfirst).2.2.2.2
    have hbehind (hk : u.kind = .symbol .dot) :
        Breaks Char.isDigit (cs ++ rs.flatMap Piece.text) ↔ ∀ v ∈ us.head?, v.kind ≠ .number := by
      obtain ⟨-, rfl⟩ := List.cons.inj (htext.symm.trans (text_of_dot h hk))
      exact hdigit hs
    simpa [htext, hpoint] using fun _ => forall_congr' hbehind

theorem withEqual?_isSome_iff {s : Symbol} :
    s.withEqual?.isSome = true ↔ s ∈ [.bang, .equal, .less, .greater] := by
  cases s <;> decide

theorem stops_symbol_iff {s : Symbol} (hs : List.Forall₂ Piece.Gives qs ts) :
    (Piece.symbol s).Stops (qs.flatMap Piece.text) ↔ ∀ u ∈ ts.head?,
      (s ∈ [.bang, .equal, .less, .greater] → u.kind ∉ [.symbol .equal, .symbol .equalEqual]) ∧
      (s = .slash → u.kind ≠ .symbol .slash) := by
  have hequal : Breaks (· == '=') (qs.flatMap Piece.text) ↔
      ∀ u ∈ ts.head?, u.kind ∉ [.symbol .equal, .symbol .equalEqual] :=
    breaks_iff (fun h => beq_iff_eq.trans (first_spec h).2.2.1) hs
  have hslash : Breaks (· == '/') (qs.flatMap Piece.text) ↔
      ∀ u ∈ ts.head?, u.kind ≠ .symbol .slash :=
    breaks_iff (fun h => beq_iff_eq.trans (first_spec h).2.2.2.1) hs
  rw [Piece.Stops, withEqual?_isSome_iff, hequal, hslash]
  exact ⟨fun h u hu => ⟨fun hm => h.1 hm u hu, fun he => h.2 he u hu⟩,
    fun h => ⟨fun hm u hu => (h u hu).1 hm, fun he u hu => (h u hu).2 he⟩⟩

/-- **Stopping.** A piece stops at the texts of the tokens behind it exactly if it does not merge
with them. -/
theorem stops_iff (h : q.Gives t) (hs : List.Forall₂ Piece.Gives qs ts) :
    q.Stops (qs.flatMap Piece.text) ↔ ¬ Merging (t :: ts) := by
  have hkind := h.kind
  rw [merging_iff, ← h.lexeme]
  cases q with
  | string body =>
    obtain hk : Kind.string = t.kind := Option.some.inj hkind
    simp [← hk, Kind.isWord, Piece.Stops]
  | number whole fraction =>
    obtain hk : Kind.number = t.kind := Option.some.inj hkind
    cases fraction with
    | none => simp [← hk, Kind.isWord, Piece.text, stops_whole_iff hs, notMem_digits h.1.1]
    | some places =>
      simp [← hk, Kind.isWord, Piece.text, Piece.Stops, breaks_iff (fun h => (first_spec h).1) hs]
  | word text =>
    obtain hk : Kind.ofWord text = t.kind := Option.some.inj hkind
    have hword := Kind.isWord_ofWord text
    simp [← hk, hword, Kind.plain_of_isWord hword, Piece.Stops,
      breaks_iff (fun h => (first_spec h).2.1) hs]
  | symbol s =>
    obtain hk : Kind.symbol s = t.kind := Option.some.inj hkind
    simp [← hk, Kind.isWord, stops_symbol_iff hs]
  | _ => cases hkind

/-! ## Cutting -/

theorem cuts_cons_iff : Cuts ((q :: qs).flatMap Piece.text) (q :: qs) ↔
    q.WellFormed ∧ q.Stops (qs.flatMap Piece.text) ∧ Cuts (qs.flatMap Piece.text) qs := by
  constructor
  · intro h
    generalize htext : (q :: qs).flatMap Piece.text = source at h
    cases h with
    | cons hq hstops hcuts =>
      obtain rfl := List.append_cancel_left htext
      exact ⟨hq, hstops, hcuts⟩
  · intro h
    exact .cons h.1 h.2.1 h.2.2

/-- **Cutting.** The texts of tokens are cut apart exactly if none of them merges. -/
theorem cuts_iff (hs : List.Forall₂ Piece.Gives qs ts) :
    Cuts (qs.flatMap Piece.text) qs ↔ ∀ us, us <:+ ts → ¬ Merging us := by
  induction hs with
  | nil => simp [Cuts.nil, Merging]
  | @cons q t qs ts h hs ih =>
    rw [cuts_cons_iff, stops_iff h hs, ih]
    simp only [List.suffix_cons_iff, forall_eq_or_imp]
    exact and_iff_right h.1

/-! ## Counting characters -/

/-- Without some of its pieces a text is shorter. -/
theorem all_of_flatMap_filter {p : Piece → Bool} (hq : ∀ q ∈ qs, q.WellFormed)
    (h : (qs.filter p).flatMap Piece.text = qs.flatMap Piece.text) : ∀ q ∈ qs, p q = true := by
  induction qs with
  | nil => simp
  | cons q qs ih =>
    obtain ⟨hhead, htail⟩ := List.forall_mem_cons.1 hq
    cases hp : p q with
    | true =>
      rw [List.filter_cons_of_pos hp, List.flatMap_cons, List.flatMap_cons] at h
      exact List.forall_mem_cons.2 ⟨hp, ih htail (List.append_cancel_left h)⟩
    | false =>
      have hfewer : (qs.filter p).Sublist qs := List.filter_sublist
      have hle := (hfewer.flatMap Piece.text).length_le
      have hpos := List.length_pos_of_ne_nil (Piece.text_ne_nil hhead)
      have hlength := congrArg List.length h
      rw [List.filter_cons_of_neg (by simp [hp]), List.flatMap_cons, List.length_append] at hlength
      omega

theorem eq_of_map_text {rs : List Piece} (hq : ∀ q ∈ qs, q.WellFormed)
    (hr : ∀ r ∈ rs, r.WellFormed) (h : qs.map Piece.text = rs.map Piece.text) : qs = rs := by
  induction qs generalizing rs with
  | nil => exact (List.map_eq_nil_iff.1 h.symm).symm
  | cons q qs ih =>
    cases rs with
    | nil => cases h
    | cons r rs =>
      obtain ⟨hhead, htail⟩ := List.cons.inj h
      rw [List.forall_mem_cons] at hq hr
      rw [eq_of_text_eq hq.1 hr.1 hhead, ih hq.2 hr.2 htail]

/-- If the words of a text are the texts of given pieces, then it is cut into these, since there are
no characters left for other pieces. -/
theorem cuts_of_words (hq : ∀ q ∈ qs, q.WellFormed)
    (h : (scan (qs.flatMap Piece.text)).words.map Token.lexeme = qs.map Piece.text) :
    Cuts (qs.flatMap Piece.text) qs := by
  generalize hsource : qs.flatMap Piece.text = source at h ⊢
  have hcuts := cuts_pieces source
  have hformed : ∀ r ∈ pieces source, r.WellFormed := fun r => wellFormed_of_mem hcuts
  rw [words_lexemes] at h
  have hfull : ((pieces source).filter (·.content?.isSome)).flatMap Piece.text =
      (pieces source).flatMap Piece.text := by
    rw [pieces_text, List.flatMap_def, h, ← List.flatMap_def, hsource]
  rw [List.filter_eq_self.2 (all_of_flatMap_filter hformed hfull)] at h
  rwa [eq_of_map_text hformed hq h] at hcuts

end

theorem gives_of_forall {ts : List Token} (h : ∀ t ∈ ts, t.Scanned ∧ t.kind ≠ .eof) :
    ∃ qs, List.Forall₂ Piece.Gives qs ts := by
  induction ts with
  | nil => exact ⟨[], .nil⟩
  | cons t ts ih =>
    obtain ⟨⟨hscanned, hne⟩, htail⟩ := List.forall_mem_cons.1 h
    obtain ⟨q, hq⟩ := gives_of_scanned hscanned hne
    obtain ⟨qs, hqs⟩ := ih htail
    exact ⟨q :: qs, .cons hq hqs⟩

theorem scanned_words (source : List Char) :
    ∀ t ∈ (scan source).words, t.Scanned ∧ t.kind ≠ .eof := by
  intro t ht
  obtain ⟨hmem, hkind⟩ := List.mem_filter.1 ht
  exact ⟨⟨source, hmem⟩, of_decide_eq_true hkind⟩

/-- **Adjacency.** Tokens of any scans, written with nothing in between, are found again with their
kinds, texts and values, then the end of the text, and with nothing to report, exactly if none of
them merges with those behind it. -/
theorem scan_adjacent {ts : List Token} (h : ∀ t ∈ ts, t.Scanned ∧ t.kind ≠ .eof) :
    ((scan (ts.flatMap Token.lexeme)).tokens.map Token.content =
        ts.map Token.content ++ [(.eof, [], none, 0)] ∧
      (scan (ts.flatMap Token.lexeme)).diagnostics = []) ↔
    ∀ us, us <:+ ts → ¬ Merging us := by
  obtain ⟨qs, hs⟩ := gives_of_forall h
  have htext : ts.flatMap Token.lexeme = qs.flatMap Piece.text := by
    rw [List.flatMap_def, map_lexeme hs, ← List.flatMap_def]
  rw [← cuts_iff hs, htext, tokens_scan, List.map_append]
  constructor
  · intro ⟨htokens, _⟩
    have hlexemes := congrArg (List.map (·.2.1)) (List.append_cancel_right htokens)
    rw [List.map_map, List.map_map] at hlexemes
    apply cuts_of_words _ (hlexemes.trans (map_lexeme hs))
    intro q hq
    obtain ⟨t, ht⟩ := gives_of_mem hs q hq
    exact ht.1
  · intro hcuts
    have hpieces := pieces_of_cuts hcuts
    constructor
    · rw [words_content, hpieces, filterMap_content hs]
      rfl
    · rw [Scan.diagnostics, scan, hpieces]
      apply diagnostics_nil
      intro q hq
      obtain ⟨t, ht⟩ := gives_of_mem hs q hq
      exact .inl ht.speaks

/-- Numbers and points in two orders: behind a number with a fraction a point stays apart, behind
one without it does not. -/
theorem scan_adjacent_points :
    let ts := (scan "1.5 . 2 print == = / \"//\"".toList).words
    let us := (scan "2 . 1.5".toList).words
    (∀ t ∈ ts ++ us, t.Scanned ∧ t.kind ≠ .eof) ∧
    ((scan "1.5.2print===/\"//\"".toList).tokens.map Token.content =
        ts.map Token.content ++ [(.eof, [], none, 0)] ∧
      (scan "1.5.2print===/\"//\"".toList).diagnostics = []) ∧
    ¬ ((scan "2.1.5".toList).tokens.map Token.content =
        us.map Token.content ++ [(.eof, [], none, 0)] ∧
      (scan "2.1.5".toList).diagnostics = []) := by
  intro ts us
  have hts : ∀ t ∈ ts, t.Scanned ∧ t.kind ≠ .eof := scanned_words _
  have hus : ∀ t ∈ us, t.Scanned ∧ t.kind ≠ .eof := scanned_words _
  refine ⟨List.forall_mem_append.2 ⟨hts, hus⟩, ?_, ?_⟩
  · have hapart : ∀ vs ∈ ts.tails, ¬ Merging vs := by decide +kernel
    have htext : ts.flatMap Token.lexeme = "1.5.2print===/\"//\"".toList := by decide +kernel
    rw [← htext]
    apply (scan_adjacent hts).2
    intro vs hvs
    exact hapart vs ((List.mem_tails vs ts).2 hvs)
  · have hmerging : Merging us := by decide +kernel
    have htext : us.flatMap Token.lexeme = "2.1.5".toList := by decide +kernel
    rw [← htext, scan_adjacent hus]
    intro hapart
    exact hapart us List.suffix_rfl hmerging

end Lox

import Mathlib.Data.List.Forall2
import Lox.Proofs.Cut

/-!
# The longest match

The lexical grammar, written down without the scanner: classes of texts, and the cutting of a
source text into the longest segments that belong to a class. A text that starts with nothing of
any class gives up one character, or all that is left of it if that character is a quote.

Results:
* `matches_iff`: the texts of a class are those of the well-formed pieces of that class.
* `segmented_unique`: a text can be cut in one way only.
* `scan_maximal_munch`: the tokens of a scan are the segments of this cutting that are strings,
  numbers, words and operators, followed by the end of the text.
-/
namespace Lox
namespace Munch

/-! ## The grammar -/

inductive Class
  | blank | comment | string | number | word | operator
  deriving DecidableEq, Repr

def Digit (c : Char) : Prop := '0' ≤ c ∧ c ≤ '9'

def Letter (c : Char) : Prop := ('a' ≤ c ∧ c ≤ 'z') ∨ ('A' ≤ c ∧ c ≤ 'Z') ∨ c = '_'

def operators : List (List Char) :=
  ["(", ")", "\x7b", "\x7d", ",", ".", "-", "+", ";", "*", "/", "!", "!=", "=", "==", "<", "<=",
    ">", ">="].map String.toList

def reservedWords : List (List Char) :=
  ["and", "class", "else", "false", "for", "fun", "if", "nil", "or", "print", "return", "super",
    "this", "true", "var", "while"].map String.toList

/-- The texts of a class. -/
inductive Matches : Class → List Char → Prop
  | blank {c : Char} : c = ' ' ∨ c = '\r' ∨ c = '\t' ∨ c = '\n' → Matches .blank [c]
  | comment {body : List Char} : '\n' ∉ body → Matches .comment ('/' :: '/' :: body)
  | string {body : List Char} : '"' ∉ body → Matches .string ('"' :: (body ++ ['"']))
  | whole {ds : List Char} : ds ≠ [] → (∀ d ∈ ds, Digit d) → Matches .number ds
  | fraction {ds es : List Char} : ds ≠ [] → (∀ d ∈ ds, Digit d) → es ≠ [] →
    (∀ e ∈ es, Digit e) → Matches .number (ds ++ '.' :: es)
  | word {c : Char} {cs : List Char} : Letter c → (∀ d ∈ cs, Letter d ∨ Digit d) →
    Matches .word (c :: cs)
  | operator {t : List Char} : t ∈ operators → Matches .operator t

/-- Of all prefixes of a text that belong to a class, the longest. -/
structure Longest (s : List Char) (k : Class) (t : List Char) : Prop where
  isPrefix : t <+: s
  matched : Matches k t
  longest : ∀ k' u, u <+: s → Matches k' u → u.length ≤ t.length

def NoMatch (s : List Char) : Prop := ∀ k u, u <+: s → ¬ Matches k u

inductive Segment
  | matched (k : Class) (text : List Char)
  | unclosed (text : List Char)
  | other (c : Char)
  deriving DecidableEq, Repr

def Segment.text : Segment → List Char
  | matched _ text => text
  | unclosed text => text
  | other c => [c]

/-- A text, and the segments it is cut into from left to right. -/
inductive Segmented : List Char → List Segment → Prop
  | nil : Segmented [] []
  | matched {s rest t : List Char} {k : Class} {segs : List Segment} : Longest s k t →
    s = t ++ rest → Segmented rest segs → Segmented s (.matched k t :: segs)
  | unclosed {cs : List Char} : NoMatch ('"' :: cs) → Segmented ('"' :: cs) [.unclosed ('"' :: cs)]
  | other {c : Char} {cs : List Char} {segs : List Segment} : NoMatch (c :: cs) → c ≠ '"' →
    Segmented cs segs → Segmented (c :: cs) (.other c :: segs)

/-- Segments that give a token. -/
def Segment.speaks : Segment → Bool
  | matched .string _ => true
  | matched .number _ => true
  | matched .word _ => true
  | matched .operator _ => true
  | _ => false

/-- The kind of the token that a segment gives. -/
inductive KindOf : Segment → Kind → Prop
  | string {t : List Char} : KindOf (.matched .string t) .string
  | number {t : List Char} : KindOf (.matched .number t) .number
  | reserved {t : List Char} (w : Keyword) : t ∈ reservedWords → w.spelling = t →
    KindOf (.matched .word t) (.keyword w)
  | identifier {t : List Char} : t ∉ reservedWords → KindOf (.matched .word t) .identifier
  | operator {t : List Char} (s : Symbol) : s.spelling = t →
    KindOf (.matched .operator t) (.symbol s)

/-! ## One way to cut -/

theorem matches_ne_nil {k : Class} {t : List Char} (h : Matches k t) : t ≠ [] := by
  cases h with
  | whole hne _ => exact hne
  | operator ht => rintro rfl; exact absurd ht (by decide)
  | _ => simp

theorem longest_text_unique {s t u : List Char} {k k' : Class} (h : Longest s k t)
    (h' : Longest s k' u) : t = u := by
  have h1 := h.longest k' u h'.isPrefix h'.matched
  have h2 := h'.longest k t h.isPrefix h.matched
  rcases List.prefix_or_prefix_of_prefix h.isPrefix h'.isPrefix with hp | hp
  · exact hp.eq_of_length (by omega)
  · exact (hp.eq_of_length (by omega)).symm

/-! ## Classes and pieces -/

theorem digit_iff {c : Char} : Digit c ↔ c.isDigit = true := by
  simp [Digit, Char.isDigit, Char.le_def]

theorem letter_iff {c : Char} : Letter c ↔ Piece.isWordStart c = true := by
  rw [Piece.isWordStart_iff]
  exact or_left_comm

theorem mem_operators_iff {t : List Char} : t ∈ operators ↔ ∃ s : Symbol, s.spelling = t := by
  constructor
  · have h : ∀ t ∈ operators, ∃ s ∈ Symbol.all, s.spelling = t := by decide
    intro ht
    obtain ⟨s, -, hs⟩ := h t ht
    exact ⟨s, hs⟩
  · rintro ⟨s, rfl⟩
    cases s <;> decide

theorem mem_reservedWords_iff {t : List Char} :
    t ∈ reservedWords ↔ ∃ w : Keyword, w.spelling = t := by
  constructor
  · have h : ∀ t ∈ reservedWords, ∃ w ∈ Keyword.all, w.spelling = t := by decide
    intro ht
    obtain ⟨w, -, hw⟩ := h t ht
    exact ⟨w, hw⟩
  · rintro ⟨w, rfl⟩
    cases w <;> decide

/-- The class of a piece, if it is a match at all. -/
def class? : Piece → Option Class
  | .blank _ => some .blank
  | .comment _ => some .comment
  | .string _ => some .string
  | .number .. => some .number
  | .word _ => some .word
  | .symbol _ => some .operator
  | .unclosed _ => none
  | .stray _ => none

theorem digits_iff {ds : List Char} :
    Piece.Digits ds ↔ ds ≠ [] ∧ ∀ d ∈ ds, Digit d := by
  simp only [Piece.Digits, digit_iff]

theorem isWordChar_iff {c : Char} : Piece.isWordChar c = true ↔ Letter c ∨ Digit c := by
  rw [Piece.isWordChar, Bool.or_eq_true, letter_iff, digit_iff]

theorem piece_of_matches {k : Class} {t : List Char} (h : Matches k t) :
    ∃ q : Piece, q.WellFormed ∧ class? q = some k ∧ q.text = t := by
  cases h with
  | @blank c hc =>
    refine ⟨.blank c, ?_, rfl, rfl⟩
    simpa [Piece.WellFormed, Piece.isBlank, or_assoc] using hc
  | @comment body hb => exact ⟨.comment body, hb, rfl, rfl⟩
  | @string body hb => exact ⟨.string body, hb, rfl, rfl⟩
  | whole hne hd =>
    refine ⟨.number t none, ⟨digits_iff.2 ⟨hne, hd⟩, ?_⟩, rfl, rfl⟩
    intro places hp
    cases hp
  | @fraction ds es hne hd hne' he =>
    refine ⟨.number ds (some es), ⟨digits_iff.2 ⟨hne, hd⟩, ?_⟩, rfl, rfl⟩
    intro places hp
    obtain rfl := Option.some.inj hp
    exact digits_iff.2 ⟨hne', he⟩
  | @word c cs hc hcs =>
    refine ⟨.word (c :: cs), ⟨c, cs, rfl, letter_iff.1 hc, ?_⟩, rfl, rfl⟩
    exact fun d hd => isWordChar_iff.2 (hcs d hd)
  | operator ht =>
    obtain ⟨s, rfl⟩ := mem_operators_iff.1 ht
    exact ⟨.symbol s, trivial, rfl, rfl⟩

theorem matches_of_piece {k : Class} {q : Piece} (hq : q.WellFormed) (hk : class? q = some k) :
    Matches k q.text := by
  cases q with
  | blank c =>
    cases hk
    refine .blank ?_
    simpa [Piece.WellFormed, Piece.isBlank, or_assoc] using hq
  | comment body => cases hk; exact .comment hq
  | string body => cases hk; exact .string hq
  | number whole fraction =>
    cases hk
    obtain ⟨hw, hf⟩ := hq
    obtain ⟨hne, hd⟩ := digits_iff.1 hw
    cases fraction with
    | none => exact .whole hne hd
    | some places =>
      obtain ⟨hne', he⟩ := digits_iff.1 (hf places rfl)
      exact .fraction hne hd hne' he
  | word text =>
    cases hk
    obtain ⟨c, cs, rfl, hc, hcs⟩ := hq
    exact .word (letter_iff.2 hc) fun d hd => isWordChar_iff.1 (hcs d hd)
  | symbol s => cases hk; exact .operator (mem_operators_iff.2 ⟨s, rfl⟩)
  | unclosed body => cases hk
  | stray c => cases hk

/-- The texts of a class are the texts of its well-formed pieces. -/
theorem matches_iff {k : Class} {t : List Char} :
    Matches k t ↔ ∃ q : Piece, q.WellFormed ∧ class? q = some k ∧ q.text = t := by
  constructor
  · exact piece_of_matches
  · rintro ⟨q, hq, hk, rfl⟩
    exact matches_of_piece hq hk

theorem class_unique {k k' : Class} {t : List Char} (h : Matches k t) (h' : Matches k' t) :
    k = k' := by
  obtain ⟨q, hq, hk, rfl⟩ := matches_iff.1 h
  obtain ⟨r, hr, hk', he⟩ := matches_iff.1 h'
  obtain rfl := eq_of_text_eq hr hq he
  exact Option.some.inj (hk.symm.trans hk')

/-- A text can be cut into longest matches in one way only. -/
theorem segmented_unique {s : List Char} {as bs : List Segment} (ha : Segmented s as)
    (hb : Segmented s bs) : as = bs := by
  induction ha generalizing bs with
  | nil =>
    cases hb with
    | nil => rfl
    | matched h he _ => exact absurd (List.append_eq_nil_iff.1 he.symm).1 (matches_ne_nil h.matched)
  | @matched s rest t k segs h he _ ih =>
    cases hb with
    | nil => exact absurd (List.append_eq_nil_iff.1 he.symm).1 (matches_ne_nil h.matched)
    | matched h' he' hr =>
      obtain rfl := longest_text_unique h h'
      obtain rfl := class_unique h.matched h'.matched
      obtain rfl := List.append_cancel_left (he.symm.trans he')
      rw [ih hr]
    | unclosed hn => exact absurd h.matched (hn k t h.isPrefix)
    | other hn _ _ => exact absurd h.matched (hn k t h.isPrefix)
  | unclosed hn =>
    cases hb with
    | matched h' _ _ => exact absurd h'.matched (hn _ _ h'.isPrefix)
    | unclosed _ => rfl
    | other _ hc _ => exact absurd rfl hc
  | other hn hc _ ih =>
    cases hb with
    | matched h' _ _ => exact absurd h'.matched (hn _ _ h'.isPrefix)
    | unclosed _ => exact absurd rfl hc
    | other _ _ hr => rw [ih hr]

/-! ## The cutting of the scanner -/

def segment (q : Piece) : Segment :=
  match q with
  | .unclosed _ => .unclosed q.text
  | .stray c => .other c
  | .blank _ => .matched .blank q.text
  | .comment _ => .matched .comment q.text
  | .string _ => .matched .string q.text
  | .number .. => .matched .number q.text
  | .word _ => .matched .word q.text
  | .symbol _ => .matched .operator q.text

theorem segment_of_class {q : Piece} {k : Class} (h : class? q = some k) :
    segment q = .matched k q.text := by
  cases q <;> cases h <;> rfl

theorem segment_text (q : Piece) : (segment q).text = q.text := by cases q <;> rfl

theorem longest_of_stops {q : Piece} {rest : List Char} {k : Class} (hq : q.WellFormed)
    (hs : q.Stops rest) (hk : class? q = some k) : Longest (q.text ++ rest) k q.text where
  isPrefix := List.prefix_append _ _
  matched := matches_of_piece hq hk
  longest k' u hu hm := by
    obtain ⟨r, hr, -, rfl⟩ := matches_iff.1 hm
    exact (text_prefix_of_stops hq hs hr hu).length_le

/-- An unclosed string or a stray character stands where nothing matches. -/
theorem noMatch_of_stops {q : Piece} {rest : List Char} (hq : q.WellFormed) (hs : q.Stops rest)
    (hk : class? q = none) : NoMatch (q.text ++ rest) := by
  intro k u hu hm
  obtain ⟨r, hr, hr', rfl⟩ := matches_iff.1 hm
  obtain ⟨more, he⟩ := text_prefix_of_stops hq hs hr hu
  obtain ⟨c, cs, hc⟩ := List.exists_cons_of_ne_nil (Piece.text_ne_nil hr)
  rw [hc, List.cons_append] at he
  suffices h : ∃ p : Piece, p.WellFormed ∧ class? p = none ∧ p.text = r.text by
    obtain ⟨p, hp, hp', ht⟩ := h
    obtain rfl := eq_of_text_eq hp hr ht
    rw [hp'] at hr'
    cases hr'
  cases q with
  | unclosed body =>
    obtain ⟨rfl, hb⟩ := List.cons.inj he
    refine ⟨.unclosed cs, ?_, rfl, hc.symm⟩
    intro hm
    refine hq ?_
    rw [← hb]
    exact List.mem_append_left more hm
  | stray d =>
    obtain ⟨rfl, hb⟩ := List.cons.inj he
    refine ⟨.stray c, hq, rfl, ?_⟩
    rw [hc, (List.append_eq_nil_iff.1 hb).1]
    rfl
  | _ => cases hk

theorem segmented_of_cuts {s : List Char} {qs : List Piece} (h : Cuts s qs) :
    Segmented s (qs.map segment) := by
  induction h with
  | nil => exact .nil
  | @cons q rest qs hq hs hc ih =>
    rw [List.map_cons]
    cases hk : class? q with
    | some k =>
      rw [segment_of_class hk]
      exact .matched (longest_of_stops hq hs hk) rfl ih
    | none =>
      have hn := noMatch_of_stops hq hs hk
      cases q with
      | unclosed body =>
        obtain rfl : rest = [] := hs
        obtain rfl : qs = [] := (pieces_of_cuts hc).symm.trans pieces_nil
        rw [List.append_nil] at hn ⊢
        exact .unclosed hn
      | stray c =>
        refine .other hn ?_ ih
        rintro rfl
        have hquote : Piece.isStray '"' = true := hq
        exact absurd hquote (by decide)
      | _ => cases hk

/-! ## The tokens of the segments -/

/-- A token is the text of a segment, with a kind that the segment has. -/
def Yields (g : Segment) (t : Token) : Prop := t.lexeme = g.text ∧ KindOf g t.kind

theorem kindOf_ofWord (text : List Char) : KindOf (.matched .word text) (Kind.ofWord text) := by
  unfold Kind.ofWord
  cases h : Keyword.ofWord? text with
  | some w =>
    have hw := Keyword.ofWord?_eq_some_iff.1 h
    exact .reserved w (mem_reservedWords_iff.2 ⟨w, hw⟩) hw
  | none =>
    refine .identifier ?_
    intro ht
    obtain ⟨w, hw⟩ := mem_reservedWords_iff.1 ht
    rw [Keyword.ofWord?_eq_some_iff.2 hw] at h
    cases h

/-- A piece gives a token exactly if its segment speaks, and that segment's token. -/
theorem finding_token (p : Position) (q : Piece) :
    (∃ t, q.finding? p = some (.token t) ∧ (segment q).speaks = true ∧ Yields (segment q) t) ∨
      ((q.finding? p).bind Finding.token? = none ∧ (segment q).speaks = false) := by
  cases q with
  | string body => exact .inl ⟨_, rfl, rfl, rfl, .string⟩
  | number whole fraction => exact .inl ⟨_, rfl, rfl, rfl, .number⟩
  | word text => exact .inl ⟨_, rfl, rfl, rfl, kindOf_ofWord text⟩
  | symbol s => exact .inl ⟨_, rfl, rfl, rfl, .operator s rfl⟩
  | _ => exact .inr ⟨rfl, rfl⟩

theorem kindOf_ne_eof {g : Segment} {k : Kind} (h : KindOf g k) : k ≠ .eof := by
  cases h <;> intro he <;> cases he

theorem yields_ne_eof {gs : List Segment} {ts : List Token} (h : List.Forall₂ Yields gs ts) :
    ∀ t ∈ ts, t.kind ≠ .eof := by
  induction h with
  | nil => intro t ht; cases ht
  | cons hy _ ih =>
    intro t ht
    rcases List.mem_cons.1 ht with rfl | ht
    · exact kindOf_ne_eof hy.2
    · exact ih t ht

theorem findings_yield (p : Position) (qs : List Piece) :
    List.Forall₂ Yields ((qs.map segment).filter Segment.speaks)
      ((findings p qs).filterMap Finding.token?) := by
  induction qs generalizing p with
  | nil => exact .nil
  | cons q qs ih =>
    rw [List.map_cons, findings, List.filterMap_append]
    rcases finding_token p q with ⟨t, ht, hs, hy⟩ | ⟨hn, hs⟩
    · rw [ht, List.filter_cons_of_pos hs]
      exact .cons hy (ih _)
    · rw [List.filter_cons_of_neg (by simp [hs])]
      have he : (q.finding? p).toList.filterMap Finding.token? = [] := by
        cases hq : q.finding? p with
        | none => rfl
        | some f =>
          rw [hq, Option.bind_some] at hn
          simp [hn]
      rw [he]
      exact ih _

/-- **Longest match.** Every text is cut into longest matches in exactly one way, nothing of it is
lost, and the tokens of a scan are those of the segments that speak, one for each and in order,
and a last one for the end of the text. -/
theorem scan_maximal_munch (source : List Char) :
    ∃ segs, Segmented source segs ∧ (∀ segs', Segmented source segs' → segs' = segs) ∧
      segs.flatMap Segment.text = source ∧ (∀ g ∈ segs, g.text ≠ []) ∧
      ∃ tokens last, (scan source).tokens = tokens ++ [last] ∧
        List.Forall₂ Yields (segs.filter Segment.speaks) tokens ∧ (∀ t ∈ tokens, t.kind ≠ .eof) ∧
        last.kind = .eof ∧ last.lexeme = [] := by
  have hcuts := cuts_pieces source
  have hsegs := segmented_of_cuts hcuts
  refine ⟨(pieces source).map segment, hsegs, fun segs' h => segmented_unique h hsegs, ?_, ?_, ?_⟩
  · rw [List.flatMap_map]
    simp only [segment_text, pieces_text]
  · intro g hg
    obtain ⟨q, hq, rfl⟩ := List.mem_map.1 hg
    rw [segment_text]
    exact Piece.text_ne_nil (wellFormed_of_mem hcuts hq)
  · have hy := findings_yield {} (pieces source)
    exact ⟨_, _, rfl, hy, yields_ne_eof hy, rfl, rfl⟩

end Munch
end Lox

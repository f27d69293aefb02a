import Lox.Proofs.Adjacent
import Lox.Proofs.ExprText

/-!
# Scanning the text of an expression

The text of an expression is scanned as its prefix form: parentheses around every compound
expression, the operator or the word `group`, and the operands. Whatever is written stands before a
space, before a closing parenthesis or at the end, and there every token stops.

Results:
* `says_spaced`, `says_enclosed`: what is cut off parts that are put together.
* `says_value`, `says_write`: values, and expressions of any depth.
* `scan_write`: the scan of the whole text.
-/
namespace Lox

/-! ## Prefix forms -/

def Token.ofSymbol (s : Symbol) : Token := { kind := .symbol s, lexeme := s.spelling }

def Token.ofKeyword (w : Keyword) : Token := { kind := .keyword w, lexeme := w.spelling }

def Token.ofName (name : List Char) : Token := { kind := .identifier, lexeme := name }

/-- Numbers and reserved words; a string stands bare, so that its text is no one token. -/
def Value.tokens : Value → List Token
  | nil => [.ofKeyword .nilWord]
  | bool true => [.ofKeyword .trueWord]
  | bool false => [.ofKeyword .falseWord]
  | number x => [{ kind := .number, lexeme := style.write x, literal := some (.number x) }]
  | string _ => []

/-- Operators before operands, and parentheses around both. -/
def Expr.tokens : Expr → List Token
  | literal v => v.tokens
  | grouping e =>
    .ofSymbol .leftParen :: .ofName "group".toList :: (e.tokens ++ [.ofSymbol .rightParen])
  | unary operator right =>
    .ofSymbol .leftParen :: operator :: (right.tokens ++ [.ofSymbol .rightParen])
  | binary left operator right =>
    .ofSymbol .leftParen :: operator :: (left.tokens ++ right.tokens ++ [.ofSymbol .rightParen])

/-- Values that are written as one token: no strings, and only finite numbers with a clear sign
bit. -/
def Value.Single : Value → Prop
  | number x => x.isFinite = true ∧ x.isNegative = false
  | string _ => False
  | _ => True

/-- An operator token of a scan. -/
def Token.Operates (t : Token) : Prop := t.Scanned ∧ t.kind ∈ Expr.operators.map Kind.symbol

/-! ## Where tokens stop -/

theorem stops_closing {q : Piece} {rest : List Char} (hq : q.Speaks) (hrest : Closing rest) :
    q.Stops rest := by
  cases rest with
  | nil => exact q.stops_nil
  | cons c cs =>
    have hc := isInner_eq_false_iff.1 (breaks_cons.1 hrest)
    have htests : c.isDigit = false ∧ Piece.isWordChar c = false ∧ (c == '=') = false ∧
        (c == '/') = false ∧ c ≠ '.' := by
      rcases hc with rfl | rfl | rfl <;> decide
    obtain ⟨hdigit, hword, hequal, hslash, hdot⟩ := htests
    obtain ⟨p, t, hfinding⟩ := hq
    cases q with
    | string body => trivial
    | number whole fraction =>
      cases fraction with
      | none => exact ⟨breaks_cons.2 hdigit, fun he => absurd (Option.some.inj he) hdot⟩
      | some places => exact breaks_cons.2 hdigit
    | word text => exact breaks_cons.2 hword
    | symbol s => exact ⟨fun _ => breaks_cons.2 hequal, fun _ => breaks_cons.2 hslash⟩
    | _ => cases hfinding

/-- A symbol that nothing goes on with. -/
theorem stops_alone {s : Symbol} (h : s.withEqual? = none) (hslash : s ≠ .slash)
    (rest : List Char) : (Piece.symbol s).Stops rest :=
  ⟨fun he => absurd he (by simp [h]), fun he => absurd he hslash⟩

/-! ## What is cut off a part -/

/-- Before anything that may stand behind it the text is cut into pieces that give these tokens. -/
def Says (text : List Char) (ts : List Token) : Prop :=
  ∀ rest rs, Closing rest → Cuts rest rs → ∃ qs, Cuts (text ++ rest) (qs ++ rs) ∧
    qs.filterMap Piece.content? = ts.map Token.content ∧ ∀ q ∈ qs, q.Speaks ∨ q.Silent

section
variable {q : Piece} {t : Token} {text more : List Char} {ts us : List Token}

theorem says_piece (h : q.Gives t) : Says q.text [t] := by
  intro rest rs hrest hc
  refine ⟨[q], .cons h.1 (stops_closing h.speaks hrest) hc, ?_, ?_⟩
  · rw [List.filterMap_cons_some h.2]
    rfl
  · intro r hr
    obtain rfl := List.mem_singleton.1 hr
    exact .inl h.speaks

/-- Two parts with a space in between. -/
theorem says_spaced (h : Says text ts) (h' : Says more us) :
    Says (text ++ ' ' :: more) (ts ++ us) := by
  intro rest rs hrest hc
  obtain ⟨qs', hcuts', hcontent', hkinds'⟩ := h' rest rs hrest hc
  obtain ⟨qs, hcuts, hcontent, hkinds⟩ := h _ _ (closing_space _) (hcuts'.blank (c := ' ') rfl)
  have hsilent : (Piece.blank ' ').Silent := fun _ => rfl
  refine ⟨qs ++ .blank ' ' :: qs', ?_, ?_, ?_⟩
  · simpa using hcuts
  · rw [List.filterMap_append, List.filterMap_cons_none (Piece.silent_content hsilent), hcontent,
      hcontent', List.map_append]
  · exact List.forall_mem_append.2 ⟨hkinds, List.forall_mem_cons.2 ⟨.inr hsilent, hkinds'⟩⟩

/-- A part in parentheses. -/
theorem says_enclosed (h : Says text ts) :
    Says ('(' :: (text ++ [')'])) (.ofSymbol .leftParen :: (ts ++ [.ofSymbol .rightParen])) := by
  intro rest rs hrest hc
  have hclose : Cuts (')' :: rest) (.symbol .rightParen :: rs) :=
    .cons (q := .symbol .rightParen) trivial (stops_alone (by decide) (by decide) rest) hc
  obtain ⟨qs, hcuts, hcontent, hkinds⟩ := h _ _ (closing_parenthesis rest) hclose
  have hspeaks (s : Symbol) : (Piece.symbol s).Speaks := Piece.speaks_iff.2 rfl
  refine ⟨.symbol .leftParen :: (qs ++ [.symbol .rightParen]), ?_, ?_, ?_⟩
  · have hopen : (Piece.symbol .leftParen).Stops (text ++ ')' :: rest) :=
      stops_alone (by decide) (by decide) _
    simpa [Piece.text, Symbol.spelling] using
      Cuts.cons (q := .symbol .leftParen) trivial hopen hcuts
  · rw [List.filterMap_cons, List.filterMap_append, hcontent, List.map_cons, List.map_append]
    rfl
  · refine List.forall_mem_cons.2 ⟨.inl (hspeaks _), List.forall_mem_append.2 ⟨hkinds, ?_⟩⟩
    intro q hq
    obtain rfl := List.mem_singleton.1 hq
    exact .inl (hspeaks _)

theorem says_word {k : Kind} (h : (Piece.word text).WellFormed) (hk : Kind.ofWord text = k) :
    Says text [{ kind := k, lexeme := text }] :=
  says_piece (q := .word text) ⟨h, by rw [← hk]; rfl⟩

theorem says_value {v : Value} (h : v.Single) : Says v.write v.tokens := by
  cases v with
  | nil => exact says_word ⟨'n', ['i', 'l'], rfl, rfl, List.all_eq_true.1 rfl⟩ rfl
  | bool b =>
    cases b with
    | false => exact says_word ⟨'f', ['a', 'l', 's', 'e'], rfl, rfl, List.all_eq_true.1 rfl⟩ rfl
    | true => exact says_word ⟨'t', ['r', 'u', 'e'], rfl, rfl, List.all_eq_true.1 rfl⟩ rfl
  | number x =>
    obtain ⟨whole, fraction, htext, hformed, hvalue⟩ := Value.write_piece h.1 h.2
    have hgives : (Piece.number whole fraction).Gives
        { kind := .number, lexeme := Value.style.write x, literal := some (.number x) } := by
      refine ⟨hformed, ?_⟩
      rw [htext, ← hvalue]
      rfl
    rw [Value.write, htext]
    exact says_piece hgives
  | string s => exact h.elim

theorem says_operator (h : t.Operates) : Says t.lexeme [t] := by
  have hne : t.kind ≠ .eof := by
    intro he
    have hkind := h.2
    rw [he] at hkind
    exact absurd hkind (by decide)
  obtain ⟨q, hq⟩ := gives_of_scanned h.1 hne
  rw [← hq.lexeme]
  exact says_piece hq

/-- The text of an expression is cut into its prefix form. -/
theorem says_write {e : Expr} (h : e.All Value.Single Token.Operates) : Says e.write e.tokens := by
  induction e with
  | literal v => exact says_value h
  | grouping e ih =>
    have hgroup : Says "group".toList [.ofName "group".toList] :=
      says_word ⟨'g', ['r', 'o', 'u', 'p'], rfl, rfl, List.all_eq_true.1 rfl⟩ rfl
    have hbody := says_enclosed (says_spaced hgroup (ih h))
    simpa [Expr.write_grouping, Expr.tokens] using hbody
  | unary operator right ih =>
    have hbody := says_enclosed (says_spaced (says_operator h.1) (ih h.2))
    simpa [Expr.write_unary, Expr.tokens] using hbody
  | binary left operator right ihl ihr =>
    have hoperands := says_spaced (ihl h.2.1) (ihr h.2.2)
    have hbody := says_enclosed (says_spaced (says_operator h.1) hoperands)
    simpa [Expr.write_binary, Expr.tokens] using hbody

end

/-- **Prefix form.** An expression without strings, all numbers of which are finite with a clear
sign bit, is written as a text that is scanned without a problem, and what is found is the prefix
form of the expression, and the end of the text. -/
theorem scan_write {e : Expr} (h : e.All Value.Single Token.Operates) :
    (scan e.write).diagnostics = [] ∧
      (scan e.write).tokens.map Token.content =
        e.tokens.map Token.content ++ [(.eof, [], none, 0)] := by
  obtain ⟨qs, hcuts, hcontent, hkinds⟩ := says_write h [] [] closing_nil .nil
  rw [List.append_nil, List.append_nil] at hcuts
  have hpieces := pieces_of_cuts hcuts
  constructor
  · rw [Scan.diagnostics, scan, hpieces]
    exact diagnostics_nil hkinds
  · rw [tokens_scan, List.map_append, words_content, hpieces, hcontent]
    rfl

/-- A slash before a sign, a small number and a grouping. -/
theorem scan_write_nested :
    let e : Expr := .binary (.unary (.ofSymbol .minus) (.literal (.number ⟨0x3E7AD7F29ABCAF48⟩)))
      (.ofSymbol .slash) (.grouping (.literal (.bool true)))
    e.All Value.Single Token.Operates ∧ (scan e.write).diagnostics = [] ∧
      (scan e.write).tokens.map Token.content =
        e.tokens.map Token.content ++ [(.eof, [], none, 0)] := by
  intro e
  have hminus : (Token.ofSymbol .minus).Operates := ⟨⟨"-".toList, by decide +kernel⟩, by decide⟩
  have hslash : (Token.ofSymbol .slash).Operates := ⟨⟨"/".toList, by decide +kernel⟩, by decide⟩
  have he : e.All Value.Single Token.Operates :=
    ⟨hslash, ⟨hminus, by decide, by decide⟩, trivial⟩
  exact ⟨he, scan_write he⟩

end Lox

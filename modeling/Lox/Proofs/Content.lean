import Lox.Proofs.Munch

/-!
# What is said, and where

What a token says is its kind, its text, its value and its length; the rest of it is the place. What
a piece says does not depend on where it stands, and if a text starts so many lines further down,
then everything that is found in it is found so many lines further down.

Results:
* `content_findings`: the tokens of pieces say what the pieces say, wherever these stand.
* `piece_of_mem_findings`, `token_cases`: every finding is that of a piece, and so is every token but
  the last.
* `words_scan`: the words of a scan are all of its tokens but the last.
* `findings_down`: findings move along with the place that a text starts at.
* `closed_iff`: a scan reports no unclosed string exactly if there is no such piece.
-/
namespace Lox

/-! ## Content -/

/-- Kind, text, value and length. -/
def Token.content (t : Token) : Kind × List Char × Option Literal × Nat :=
  (t.kind, t.lexeme, t.literal, t.length)

/-- The content of the token that a piece gives. -/
def Piece.content? (q : Piece) : Option (Kind × List Char × Option Literal × Nat) :=
  ((q.finding? {}).bind Finding.token?).map Token.content

theorem content_finding (p : Position) (q : Piece) :
    ((q.finding? p).bind Finding.token?).map Token.content = q.content? := by
  cases q <;> rfl

theorem content_findings (p : Position) (qs : List Piece) :
    ((findings p qs).filterMap Finding.token?).map Token.content = qs.filterMap Piece.content? := by
  induction qs generalizing p with
  | nil => rfl
  | cons q qs ih =>
    rw [findings, List.filterMap_append, List.map_append, ih, List.filterMap_cons,
      ← content_finding p q]
    cases q <;> rfl

/-- Every finding is that of a piece. -/
theorem piece_of_mem_findings {p : Position} {qs : List Piece} {f : Finding}
    (h : f ∈ findings p qs) : ∃ q ∈ qs, ∃ place, q.finding? place = some f := by
  induction qs generalizing p with
  | nil => cases h
  | cons q qs ih =>
    rcases List.mem_append.1 h with hq | htail
    · exact ⟨q, List.mem_cons_self, p, Option.mem_toList.1 hq⟩
    · obtain ⟨r, hr, place, hf⟩ := ih htail
      exact ⟨r, List.mem_cons_of_mem q hr, place, hf⟩

/-- A token of a scan closes it, or comes from a well-formed piece. -/
theorem token_cases {source : List Char} {t : Token} (h : t ∈ (scan source).tokens) :
    t = Token.endOfText (scan source).stop ∨
      ∃ (q : Piece) (p : Position), q.WellFormed ∧ q.finding? p = some (.token t) := by
  rcases List.mem_append.1 h with hfound | hend
  · obtain ⟨f, hf, htoken⟩ := List.mem_filterMap.1 hfound
    obtain ⟨q, hq, place, hfinding⟩ := piece_of_mem_findings hf
    cases f with
    | token u =>
      cases htoken
      exact .inr ⟨q, place, wellFormed_of_mem (cuts_pieces source) hq, hfinding⟩
    | problem d => cases htoken
  · exact .inl (List.mem_singleton.1 hend)

/-- The piece gives nothing, wherever it stands. -/
def Piece.Silent (q : Piece) : Prop := ∀ p, q.finding? p = none

theorem findings_silent {qs : List Piece} (h : ∀ q ∈ qs, q.Silent) (p : Position) :
    findings p qs = [] := by
  induction qs generalizing p with
  | nil => rfl
  | cons q qs ih =>
    obtain ⟨hq, htail⟩ := List.forall_mem_cons.1 h
    rw [findings, hq, ih htail]
    rfl

/-! ## Words -/

/-- The tokens that stand for a part of the text. -/
def Scan.words (s : Scan) : List Token := s.tokens.filter (·.kind ≠ .eof)

theorem words_scan (source : List Char) :
    (scan source).words = (scan source).findings.filterMap Finding.token? := by
  have hall : ∀ t ∈ (scan source).findings.filterMap Finding.token?, t.kind ≠ .eof :=
    Munch.yields_ne_eof (Munch.findings_yield {} (pieces source))
  rw [Scan.words, Scan.tokens, List.filter_append,
    List.filter_eq_self.2 fun t ht => decide_eq_true (hall t ht)]
  exact List.append_nil _

theorem tokens_scan (source : List Char) :
    (scan source).tokens = (scan source).words ++ [Token.endOfText (scan source).stop] := by
  rw [words_scan, Scan.tokens]

theorem words_content (source : List Char) :
    (scan source).words.map Token.content = (pieces source).filterMap Piece.content? := by
  rw [words_scan]
  exact content_findings {} (pieces source)

/-! ## Lines further down -/

def Position.down (k : Nat) (p : Position) : Position := { p with line := p.line + k }

def Token.down (k : Nat) (t : Token) : Token := { t with start := t.start.down k }

def Diagnostic.down (k : Nat) (d : Diagnostic) : Diagnostic := { d with place := d.place.down k }

def Finding.down (k : Nat) : Finding → Finding
  | token t => token (t.down k)
  | problem d => problem (d.down k)

theorem next_down (k : Nat) (p : Position) (c : Char) :
    (p.down k).next c = (p.next c).down k := by
  unfold Position.next Position.down
  split
  · rw [Nat.add_right_comm]
  · rfl

theorem after_down (k : Nat) (p : Position) (cs : List Char) :
    (p.down k).after cs = (p.after cs).down k := by
  induction cs generalizing p with
  | nil => rfl
  | cons c cs ih => rw [Position.after_cons, Position.after_cons, next_down, ih]

theorem finding_down (k : Nat) (p : Position) (q : Piece) :
    q.finding? (p.down k) = (q.finding? p).map (Finding.down k) := by
  cases q with
  | unclosed body =>
    rw [Piece.finding?, after_down]
    rfl
  | _ => rfl

theorem findings_down (k : Nat) (p : Position) (qs : List Piece) :
    findings (p.down k) qs = (findings p qs).map (Finding.down k) := by
  induction qs generalizing p with
  | nil => rfl
  | cons q qs ih =>
    rw [findings, findings, List.map_append, after_down, ih, finding_down]
    cases q.finding? p <;> rfl

/-- What is read off findings moves along with them. -/
theorem filterMap_moved {β : Type} {read : Finding → Option β} {move : Finding → Finding}
    {move' : β → β} (h : ∀ f, read (move f) = (read f).map move') (fs : List Finding) :
    (fs.map move).filterMap read = (fs.filterMap read).map move' := by
  rw [List.filterMap_map, List.map_filterMap]
  congr 1
  funext f
  exact h f

theorem tokens_down (k : Nat) (fs : List Finding) :
    (fs.map (Finding.down k)).filterMap Finding.token? =
      (fs.filterMap Finding.token?).map (Token.down k) :=
  filterMap_moved (fun f => by cases f <;> rfl) fs

theorem diagnostics_down (k : Nat) (fs : List Finding) :
    (fs.map (Finding.down k)).filterMap Finding.diagnostic? =
      (fs.filterMap Finding.diagnostic?).map (Diagnostic.down k) :=
  filterMap_moved (fun f => by cases f <;> rfl) fs

/-! ## Unclosed strings -/

/-- No unclosed string was met. -/
def Scan.Closed (s : Scan) : Prop := ∀ d ∈ s.diagnostics, d.problem ≠ .unterminated

theorem closed_findings {p : Position} {qs : List Piece} :
    (∀ d ∈ (findings p qs).filterMap Finding.diagnostic?, d.problem ≠ .unterminated) ↔
      ∀ body, Piece.unclosed body ∉ qs := by
  induction qs generalizing p with
  | nil => simp [findings]
  | cons q qs ih =>
    rw [findings, List.filterMap_append, List.forall_mem_append, ih]
    cases q with
    | unclosed body =>
      constructor
      · intro h
        exact absurd rfl (h.1 _ List.mem_cons_self)
      · intro h
        exact absurd List.mem_cons_self (h body)
    | _ => simp [Piece.finding?, Finding.diagnostic?]

theorem closed_iff {source : List Char} :
    (scan source).Closed ↔ ∀ body, Piece.unclosed body ∉ pieces source :=
  closed_findings

end Lox

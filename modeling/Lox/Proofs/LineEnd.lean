import Lox.Proofs.Content

/-!
# Line ends

Outside of a string a line feed ends whatever stands before it, and a scan goes on behind it as if
the text began there, only further down. So a scan of two texts with a line feed between them is
the scan of the one and then the scan of the other.

Results:
* `cuts_line`: the pieces of a text with all strings closed stay what they are before a line feed.
* `findings_line`: the findings of two such texts follow each other, the later ones further down.
* `scan_line`: so do the tokens, but for the end of the first text, and the diagnostics.
* `findings_trailing`: blanks at the end of a text give nothing.
-/
namespace Lox

/-- A line feed behind a text whose strings are all closed changes none of its pieces. -/
theorem cuts_line {a b : List Char} {qs rs : List Piece} (ha : Cuts a qs)
    (hclosed : ∀ body, Piece.unclosed body ∉ qs) (hb : Cuts b rs) :
    Cuts (a ++ '\n' :: b) (qs ++ .blank '\n' :: rs) := by
  induction ha with
  | nil => exact hb.blank rfl
  | @cons q rest qs hq hs _ ih =>
    have hopen : ∀ body, q ≠ .unclosed body := by
      rintro body rfl
      exact hclosed body List.mem_cons_self
    have hline : q.Stops ('\n' :: b) := Piece.stops_blank rfl (fun _ _ => rfl) hopen b
    have htail := ih fun body hm => hclosed body (List.mem_cons_of_mem q hm)
    rw [List.append_assoc]
    exact .cons hq (Piece.stops_append hs hline) htail

theorem pieces_line {a : List Char} (h : (scan a).Closed) (b : List Char) :
    pieces (a ++ '\n' :: b) = pieces a ++ .blank '\n' :: pieces b :=
  pieces_of_cuts (cuts_line (cuts_pieces a) (closed_iff.1 h) (cuts_pieces b))

/-! ## The place behind a line end -/

/-- Behind a text and a line feed a new line starts. -/
theorem after_line_end (a : List Char) :
    (Position.after {} a).next '\n' = Position.down (1 + a.count '\n') {} := by
  rw [Position.next, if_pos rfl, Position.after_line, Position.down]
  congr 1
  omega

theorem findings_line {a : List Char} (h : (scan a).Closed) (b : List Char) :
    (scan (a ++ '\n' :: b)).findings =
      (scan a).findings ++ (scan b).findings.map (Finding.down (1 + a.count '\n')) := by
  have hblank : (Piece.blank '\n').finding? (Position.after {} a) = none := rfl
  rw [scan, pieces_line h, findings_append, pieces_text, findings, hblank, Piece.text,
    Position.after_cons, Position.after_nil, after_line_end, findings_down]
  rfl

theorem stop_line (a b : List Char) :
    (scan (a ++ '\n' :: b)).stop = (scan b).stop.down (1 + a.count '\n') := by
  rw [stop_scan, stop_scan, Position.after_append, Position.after_cons, after_line_end, after_down]

/-- **Composition at line ends.** If no string is open at the end of a text, then behind a line feed
another text is scanned as if it stood alone: its tokens and its diagnostics follow those of the
first text, as many lines further down as the first text and the line feed take up. -/
theorem scan_line {a : List Char} (h : (scan a).Closed) (b : List Char) :
    (scan (a ++ '\n' :: b)).tokens =
        (scan a).words ++ (scan b).tokens.map (Token.down (1 + a.count '\n')) ∧
      (scan (a ++ '\n' :: b)).diagnostics =
        (scan a).diagnostics ++ (scan b).diagnostics.map (Diagnostic.down (1 + a.count '\n')) := by
  constructor
  · rw [tokens_scan (a ++ _), words_scan, findings_line h, List.filterMap_append, tokens_down,
      stop_line, ← words_scan, ← words_scan, tokens_scan b, List.map_append, List.append_assoc]
    rfl
  · rw [Scan.diagnostics, findings_line h, List.filterMap_append, diagnostics_down]
    rfl

/-- A number before a point and a comment at the line end, and then an open string. -/
theorem scan_line_open :
    (scan "a\n3.//\"".toList).Closed ∧
      (scan "a\n3.//\"\n#\"".toList).tokens =
        (scan "a\n3.//\"".toList).words ++ (scan "#\"".toList).tokens.map (Token.down 2) ∧
      (scan "a\n3.//\"\n#\"".toList).diagnostics =
        (scan "a\n3.//\"".toList).diagnostics ++
          (scan "#\"".toList).diagnostics.map (Diagnostic.down 2) := by
  have hclosed : (scan "a\n3.//\"".toList).Closed := by
    unfold Scan.Closed
    decide +kernel
  exact ⟨hclosed, scan_line hclosed "#\"".toList⟩

/-! ## Blanks at the end of a text -/

theorem cuts_blanks {cs : List Char} (h : ∀ c ∈ cs, Piece.isBlank c = true) :
    Cuts cs (cs.map .blank) := by
  induction cs with
  | nil => exact .nil
  | cons c cs ih =>
    obtain ⟨hc, hcs⟩ := List.forall_mem_cons.1 h
    exact (ih hcs).blank hc

theorem findings_blanks (p : Position) (cs : List Char) : findings p (cs.map .blank) = [] := by
  refine findings_silent ?_ p
  intro q hq
  obtain ⟨c, -, rfl⟩ := List.mem_map.1 hq
  exact fun p => rfl

theorem stops_blanks {q : Piece} {cs : List Char} (hq : q.isOpen = false)
    (hcs : ∀ c ∈ cs, Piece.isBlank c = true) : q.Stops cs := by
  cases cs with
  | nil => exact q.stops_nil
  | cons c cs => exact Piece.stops_of_not_open hq (hcs c List.mem_cons_self) cs

/-- A piece with something behind it stops there, also if blanks follow at the end. -/
theorem stops_before_blanks {q : Piece} {rest cs : List Char} (hs : q.Stops rest)
    (hrest : rest ≠ []) (hcs : ∀ c ∈ cs, Piece.isBlank c = true) : q.Stops (rest ++ cs) := by
  cases q with
  | comment body =>
    cases rest with
    | nil => exact absurd rfl hrest
    | cons d ds =>
      have hd : Breaks (· != '\n') (d :: ds) := hs
      rw [breaks_cons] at hd
      exact breaks_cons.2 hd
  | unclosed body => exact absurd hs hrest
  | _ => exact Piece.stops_append hs (stops_blanks rfl hcs)

/-- Blanks at the end of a text can be taken up by its last piece only. -/
theorem cuts_trailing {t cs : List Char} {qs : List Piece} {q : Piece} (h : Cuts t (qs ++ [q]))
    (hcs : ∀ c ∈ cs, Piece.isBlank c = true) :
    Cuts (t ++ cs) (qs ++ pieces (q.text ++ cs)) := by
  induction qs generalizing t with
  | nil =>
    cases h with
    | cons _ _ hrest =>
      cases hrest
      rw [List.append_nil]
      exact cuts_pieces _
  | cons r rs ih =>
    cases h with
    | @cons _ rest _ hr hs hrest =>
      have hne : rest ≠ [] := by
        rintro rfl
        have hnil := pieces_of_cuts hrest
        simp at hnil
      rw [List.append_assoc]
      exact .cons hr (stops_before_blanks hs hne hcs) (ih hrest)

/-- What the last piece gives stays the same, if no string is left open. -/
theorem findings_grown {q : Piece} {cs : List Char} (hq : q.WellFormed)
    (hcs : ∀ c ∈ cs, Piece.isBlank c = true ∧ c ≠ '\n')
    (hopen : ∀ body, Piece.unclosed body ∉ pieces (q.text ++ cs)) (p : Position) :
    findings p (pieces (q.text ++ cs)) = findings p [q] := by
  have hblank : ∀ c ∈ cs, Piece.isBlank c = true := fun c hc => (hcs c hc).1
  cases q with
  | comment body =>
    have hmore : (Piece.comment (body ++ cs)).WellFormed := by
      intro hm
      rcases List.mem_append.1 hm with hm | hm
      · exact hq hm
      · exact (hcs _ hm).2 rfl
    have hcut := pieces_text_of_wellFormed hmore
    rw [show (Piece.comment body).text ++ cs = (Piece.comment (body ++ cs)).text from rfl, hcut]
    rfl
  | unclosed body =>
    have hmore : (Piece.unclosed (body ++ cs)).WellFormed := by
      intro hm
      rcases List.mem_append.1 hm with hm | hm
      · exact hq hm
      · exact absurd (hblank _ hm) (by decide)
    have hcut := pieces_text_of_wellFormed hmore
    exact absurd (List.mem_singleton_self _) (hcut ▸ hopen (body ++ cs))
  | _ =>
    rw [pieces_of_stops hq (stops_blanks rfl hblank), pieces_of_cuts (cuts_blanks hblank), findings,
      findings_blanks]
    rfl

/-- Blanks at the end of the last line give nothing. -/
theorem findings_trailing {t cs : List Char} (h : (scan (t ++ cs)).Closed)
    (hcs : ∀ c ∈ cs, Piece.isBlank c = true ∧ c ≠ '\n') :
    (scan (t ++ cs)).findings = (scan t).findings := by
  have hblank : ∀ c ∈ cs, Piece.isBlank c = true := fun c hc => (hcs c hc).1
  have hclosed := closed_iff.1 h
  have ht := cuts_pieces t
  show findings {} (pieces (t ++ cs)) = findings {} (pieces t)
  rcases List.eq_nil_or_concat (pieces t) with he | ⟨qs, q, he⟩
  · have hnil : t = [] := by
      rw [← pieces_text t, he]
      rfl
    rw [hnil, List.nil_append, pieces_of_cuts (cuts_blanks hblank), findings_blanks, pieces_nil]
    rfl
  · rw [List.concat_eq_append] at he
    rw [he] at ht ⊢
    have hcut := pieces_of_cuts (cuts_trailing ht hblank)
    have hq : q.WellFormed := wellFormed_of_mem ht (List.mem_append_right qs List.mem_cons_self)
    rw [hcut] at hclosed ⊢
    have hopen : ∀ body, Piece.unclosed body ∉ pieces (q.text ++ cs) := fun body hm =>
      hclosed body (List.mem_append_right qs hm)
    rw [findings_append, findings_append, findings_grown hq hcs hopen]

end Lox

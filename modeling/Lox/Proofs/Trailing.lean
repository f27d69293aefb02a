import Lox.Proofs.Marks

/-!
# What a line can do without

Blanks and a comment at the end of a line give nothing, and behind the line feed the columns start
again: what is found there does not depend on how long the line was. So a text without them is
scanned as before, but for the column of its end if it was the last line that became shorter. The
pieces that are left stay what they are, since every piece stops at a line end.

Results:
* `cuts_trimmed`, `findings_trimmed`: what is left of the pieces is cut as before, and found where it
  was.
* `trimmed_strip`: carriage returns before line feeds, comments, or the blanks at the ends of lines
  leave such pieces.
* `trimmed_trivia`: so do the blanks and the comment before one line end.
* `scan_without_run`, `stop_with_run`: the scan without them, and where the text ends with them.
* `scan_without_trivia`: all of it together.
-/
namespace Lox

open Modes

/-- A blank inside of a line. -/
def isGap (c : Char) : Bool := Piece.isBlank c && c != '\n'

/-! ## Shortened texts -/

/-- The second text has less at its line ends. Behind a slash all may be different. -/
inductive Shorn : List Char → List Char → Prop
  | nil : Shorn [] []
  | keep {c : Char} {xs ys : List Char} : Shorn xs ys → Shorn (c :: xs) (c :: ys)
  | drop {c : Char} {xs ys : List Char} : Breaks (· != '\n') ys → Shorn (c :: xs) ys
  | slash {xs ys : List Char} : Shorn ('/' :: xs) ('/' :: ys)

section
variable {xs ys s : List Char} {q : Piece} {qs rs : List Piece}

theorem shorn_append (h : Shorn xs ys) (as : List Char) : Shorn (as ++ xs) (as ++ ys) := by
  induction as with
  | nil => exact h
  | cons a as ih => exact ih.keep

theorem breaks_line (h : Breaks (· != '\n') xs) : xs = [] ∨ ∃ t, xs = '\n' :: t := by
  cases xs with
  | nil => exact .inl rfl
  | cons c t => exact .inr ⟨t, by simpa using breaks_cons.1 h⟩

theorem breaks_shorn {p : Char → Bool} (hp : p '\n' = false) (h : Shorn xs ys) (hb : Breaks p xs) :
    Breaks p ys := by
  cases h with
  | nil => exact hb
  | keep _ => exact breaks_cons.2 (breaks_cons.1 hb)
  | drop hline =>
    rcases breaks_line hline with rfl | ⟨t, rfl⟩
    · exact breaks_nil p
    · exact breaks_cons.2 hp
  | slash => exact breaks_cons.2 (breaks_cons.1 hb)

theorem stops_shorn (h : Shorn xs ys) (hs : q.Stops xs) : q.Stops ys := by
  cases q with
  | blank c => trivial
  | comment body => exact breaks_shorn rfl h hs
  | string body => trivial
  | number whole fraction =>
    cases fraction with
    | some places => exact breaks_shorn rfl h hs
    | none =>
      refine ⟨breaks_shorn rfl h hs.1, ?_⟩
      intro hdot
      cases h with
      | nil => cases hdot
      | keep htail => exact breaks_shorn rfl htail (hs.2 hdot)
      | drop hline =>
        rcases breaks_line hline with rfl | ⟨t, rfl⟩
        · cases hdot
        · exact absurd (Option.some.inj hdot) (by decide)
      | slash => exact absurd (Option.some.inj hdot) (by decide)
  | word text => exact breaks_shorn rfl h hs
  | symbol s =>
    exact ⟨fun he => breaks_shorn rfl h (hs.1 he), fun he => breaks_shorn rfl h (hs.2 he)⟩
  | unclosed body =>
    obtain rfl : xs = [] := hs
    cases h
    rfl
  | stray c => trivial

/-! ## Shortened lines, piece by piece -/

/-- Blanks and comments at line ends are left out, or comments have another text. -/
inductive Trimmed : List Piece → List Piece → Prop
  | nil : Trimmed [] []
  | keep {q : Piece} {qs rs : List Piece} : Trimmed qs rs → Trimmed (q :: qs) (q :: rs)
  | blank {c : Char} {qs rs : List Piece} : isGap c = true →
    Breaks (· != '\n') (rs.flatMap Piece.text) → Trimmed qs rs → Trimmed (.blank c :: qs) rs
  | comment {body : List Char} {qs rs : List Piece} :
    Breaks (· != '\n') (rs.flatMap Piece.text) → Trimmed qs rs → Trimmed (.comment body :: qs) rs
  | shorten {body body' : List Char} {qs rs : List Piece} : '\n' ∉ body' → Trimmed qs rs →
    Trimmed (.comment body :: qs) (.comment body' :: rs)

theorem trimmed_append (h : Trimmed qs rs) (as : List Piece) : Trimmed (as ++ qs) (as ++ rs) := by
  induction as with
  | nil => exact h
  | cons q as ih => exact ih.keep

theorem trimmed_refl (qs : List Piece) : Trimmed qs qs := by
  have h := trimmed_append .nil qs
  rwa [List.append_nil] at h

theorem shorn_trimmed (h : Trimmed qs rs) :
    Shorn (qs.flatMap Piece.text) (rs.flatMap Piece.text) := by
  induction h with
  | nil => exact .nil
  | keep _ ih => exact shorn_append ih _
  | blank _ hline _ _ => exact .drop hline
  | comment hline _ _ => exact .drop hline
  | shorten _ _ _ => exact .slash

theorem breaks_trimmed (h : Trimmed qs rs) (hc : Cuts s qs) (hs : Breaks (· != '\n') s) :
    Breaks (· != '\n') (rs.flatMap Piece.text) := by
  rw [← text_of_cuts hc] at hs
  exact breaks_shorn rfl (shorn_trimmed h) hs

/-- What is left is cut as before. -/
theorem cuts_trimmed (h : Trimmed qs rs) (hc : Cuts s qs) : Cuts (rs.flatMap Piece.text) rs := by
  induction h generalizing s with
  | nil => exact .nil
  | @keep q qs rs htail ih =>
    cases hc with
    | @cons _ rest _ hq hs hrest =>
      rw [← text_of_cuts hrest] at hs
      exact .cons hq (stops_shorn (shorn_trimmed htail) hs) (ih hrest)
  | blank _ _ _ ih =>
    cases hc with
    | cons _ _ hrest => exact ih hrest
  | comment _ _ ih =>
    cases hc with
    | cons _ _ hrest => exact ih hrest
  | @shorten body body' qs rs hbody htail ih =>
    cases hc with
    | @cons _ rest _ _ hs hrest =>
      exact .cons (q := .comment body') hbody (breaks_trimmed htail hrest hs) (ih hrest)

/-- At a line end only the line counts. -/
theorem findings_line_end {p p' : Position} (hc : Cuts s qs) (hline : Breaks (· != '\n') s)
    (hp : p.line = p'.line) : findings p qs = findings p' qs := by
  rw [← pieces_of_cuts hc]
  rcases breaks_line hline with rfl | ⟨t, rfl⟩
  · rw [pieces_nil]
    rfl
  · have hnext : p.next '\n' = p'.next '\n' := by simp [Position.next, hp]
    rw [pieces_cons, Piece.cut_blank rfl]
    show findings (p.next '\n') _ = findings (p'.next '\n') _
    rw [hnext]

/-- Without a line feed a text moves the column on. -/
theorem after_of_notMem {cs : List Char} (h : '\n' ∉ cs) (p : Position) :
    p.after cs = ⟨p.line, p.column + cs.length⟩ := by
  induction cs generalizing p with
  | nil => rfl
  | cons c cs ih =>
    rw [List.mem_cons, not_or] at h
    rw [Position.after_cons, ih h.2, Position.next, if_neg (Ne.symm h.1), List.length_cons,
      Nat.add_right_comm, Nat.add_assoc]

theorem after_line_of_notMem {cs : List Char} (h : '\n' ∉ cs) (p : Position) :
    (p.after cs).line = p.line := by
  rw [after_of_notMem h]

theorem notMem_comment {body : List Char} (h : '\n' ∉ body) : '\n' ∉ (Piece.comment body).text := by
  simpa [Piece.text] using h

/-- What is left is found where it was. -/
theorem findings_trimmed (h : Trimmed qs rs) (hc : Cuts s qs) (p : Position) :
    findings p qs = findings p rs := by
  induction h generalizing s p with
  | nil => rfl
  | keep _ ih =>
    cases hc with
    | cons _ _ hrest => rw [findings, findings, ih hrest]
  | @blank c qs rs hc' hline htail ih =>
    cases hc with
    | cons _ _ hrest =>
      have hgap : '\n' ∉ (Piece.blank c).text := by
        rw [Piece.text, List.mem_singleton]
        exact ne_of_test (p := fun d => !isGap d) rfl (by simp [hc'])
      exact (ih hrest _).trans
        (findings_line_end (cuts_trimmed htail hrest) hline (after_line_of_notMem hgap p))
  | comment hline htail ih =>
    cases hc with
    | cons hq _ hrest =>
      exact (ih hrest _).trans (findings_line_end (cuts_trimmed htail hrest) hline
        (after_line_of_notMem (notMem_comment hq) p))
  | @shorten body body' qs rs hbody htail ih =>
    cases hc with
    | @cons _ rest _ hq hs hrest =>
      have hsame : (p.after (Piece.comment body).text).line =
          (p.after (Piece.comment body').text).line := by
        rw [after_line_of_notMem (notMem_comment hq), after_line_of_notMem (notMem_comment hbody)]
      exact (ih hrest _).trans (findings_line_end (cuts_trimmed htail hrest)
        (breaks_trimmed htail hrest hs) hsame)

/-- No line end is left out. -/
theorem count_trimmed (h : Trimmed qs rs) (hqs : ∀ q ∈ qs, q.WellFormed) :
    (rs.flatMap Piece.text).count '\n' = (qs.flatMap Piece.text).count '\n' := by
  induction h with
  | nil => rfl
  | keep _ ih =>
    rw [List.flatMap_cons, List.flatMap_cons, List.count_append, List.count_append,
      ih (List.forall_mem_cons.1 hqs).2]
  | @blank c qs rs hc _ _ ih =>
    have hgap : c ≠ '\n' := ne_of_test hc rfl
    rw [List.flatMap_cons, List.count_append, ih (List.forall_mem_cons.1 hqs).2]
    simp [Piece.text, hgap]
  | comment _ _ ih =>
    obtain ⟨hq, hqs⟩ := List.forall_mem_cons.1 hqs
    rw [List.flatMap_cons, List.count_append, ih hqs, List.count_eq_zero.2 (notMem_comment hq),
      Nat.zero_add]
  | shorten hbody _ ih =>
    obtain ⟨hq, hqs⟩ := List.forall_mem_cons.1 hqs
    rw [List.flatMap_cons, List.flatMap_cons, List.count_append, List.count_append, ih hqs,
      List.count_eq_zero.2 (notMem_comment hq), List.count_eq_zero.2 (notMem_comment hbody)]

theorem scan_trimmed {source : List Char} (h : Trimmed (pieces source) rs) :
    (scan (rs.flatMap Piece.text)).findings = (scan source).findings ∧
      (scan (rs.flatMap Piece.text)).stop.line = (scan source).stop.line := by
  have hcuts := cuts_pieces source
  constructor
  · show findings {} (pieces _) = findings {} (pieces source)
    rw [pieces_of_cuts (cuts_trimmed h hcuts), findings_trimmed h hcuts]
  · have hcount := count_trimmed h fun q => wellFormed_of_mem hcuts
    rw [stop_scan, stop_scan, Position.after_line, Position.after_line, hcount, pieces_text]

end

/-! ## Leaving out characters by their marks -/

/-- Leaves out the characters that pass a test, which sees what stands behind them too. -/
def strip (p : Char × Mode → List (Char × Mode) → Bool) : List (Char × Mode) → List (Char × Mode)
  | [] => []
  | x :: xs => if p x xs then strip p xs else x :: strip p xs

/-- A carriage return before a line feed. -/
def returnAtEnd (x : Char × Mode) (xs : List (Char × Mode)) : Bool :=
  x.1 == '\r' && x.2 != .string && xs.head?.any (·.1 == '\n')

def inComment (x : Char × Mode) (_ : List (Char × Mode)) : Bool := x.2 == .comment

/-- A blank that is none of a string. -/
def isSpare (x : Char × Mode) : Bool := isGap x.1 && x.2 != .string

/-- A blank with nothing but blanks behind it on its line. -/
def blankAtEnd (x : Char × Mode) (xs : List (Char × Mode)) : Bool :=
  isSpare x && (xs.dropWhile isSpare).head?.all (·.1 == '\n')

section
variable {p : Char × Mode → List (Char × Mode) → Bool} {as bs : List (Char × Mode)}

theorem strip_keep (h : ∀ x ∈ as, ∀ xs, p x xs = false) :
    strip p (as ++ bs) = as ++ strip p bs := by
  induction as with
  | nil => rfl
  | cons a as ih =>
    obtain ⟨ha, has⟩ := List.forall_mem_cons.1 h
    rw [List.cons_append, strip, ha, ih has]
    rfl

theorem strip_drop (h : ∀ x ∈ as, ∀ xs, p x xs = true) : strip p (as ++ bs) = strip p bs := by
  induction as with
  | nil => rfl
  | cons a as ih =>
    obtain ⟨ha, has⟩ := List.forall_mem_cons.1 h
    rw [List.cons_append, strip, if_pos (ha _), ih has]

theorem strip_append (as : List (Char × Mode)) :
    ∃ as', as'.Sublist as ∧ strip p (as ++ bs) = as' ++ strip p bs := by
  induction as with
  | nil => exact ⟨[], List.Sublist.refl _, rfl⟩
  | cons a as ih =>
    obtain ⟨as', hsub, has⟩ := ih
    rw [List.cons_append, strip]
    split
    · exact ⟨as', hsub.cons a, has⟩
    · exact ⟨a :: as', hsub.cons_cons a, by rw [has]; rfl⟩

end

/-- A test for what a line can do without. In code it passes blanks at line ends only, and a comment
keeps its slashes if it keeps anything. -/
structure Trimming (p : Char × Mode → List (Char × Mode) → Bool) : Prop where
  string : ∀ c xs, p (c, .string) xs = false
  code : ∀ c xs, p (c, .code) xs = true →
    isGap c = true ∧ Breaks (· != '\n') ((strip p xs).map Prod.fst)
  comment : (∀ c xs, p (c, .comment) xs = true) ∨ ∀ xs, p ('/', .comment) xs = false

theorem trimming_returns : Trimming returnAtEnd where
  string c xs := by simp [returnAtEnd]
  code c xs h := by
    simp only [returnAtEnd, Bool.and_eq_true, beq_iff_eq] at h
    obtain ⟨⟨rfl, -⟩, hline⟩ := h
    refine ⟨rfl, ?_⟩
    cases xs with
    | nil => cases hline
    | cons x xs =>
      have hx : x.1 = '\n' := by simpa using hline
      have hkept : returnAtEnd x xs = false := by simp [returnAtEnd, hx]
      rw [strip, hkept]
      exact breaks_cons.2 (by simp [hx])
  comment := .inr fun xs => by simp [returnAtEnd]

theorem trimming_comments : Trimming inComment where
  string c xs := rfl
  code c xs h := by cases h
  comment := .inl fun c xs => rfl

/-- Where nothing but blanks stand before a line end, all of them are left out. -/
theorem breaks_blankAtEnd {xs : List (Char × Mode)}
    (h : (xs.dropWhile isSpare).head?.all (·.1 == '\n') = true) :
    Breaks (· != '\n') ((strip blankAtEnd xs).map Prod.fst) := by
  induction xs with
  | nil => exact breaks_nil _
  | cons x xs ih =>
    rw [strip, blankAtEnd]
    cases hx : isSpare x with
    | true =>
      rw [List.dropWhile_cons_of_pos hx] at h
      rw [h, Bool.and_self, if_pos rfl]
      exact ih h
    | false =>
      rw [List.dropWhile_cons_of_neg (by simp [hx])] at h
      exact breaks_cons.2 (by simpa using h)

theorem trimming_blanks : Trimming blankAtEnd where
  string c xs := by simp [blankAtEnd, isSpare]
  code c xs h := by
    simp only [blankAtEnd, isSpare, Bool.and_eq_true] at h
    exact ⟨h.1.1, breaks_blankAtEnd h.2⟩
  comment := .inr fun xs => by simp [blankAtEnd, isSpare, isGap, Piece.isBlank]

section
variable {p : Char × Mode → List (Char × Mode) → Bool} {s : List Char} {qs : List Piece}

theorem breaks_strip (hp : Trimming p) (hc : Cuts s qs) (hs : Breaks (· != '\n') s) :
    Breaks (· != '\n') ((strip p (qs.flatMap marksOf)).map Prod.fst) := by
  rw [← marks_eq hc]
  rcases breaks_line hs with rfl | ⟨t, rfl⟩
  · exact breaks_nil _
  · rw [marks_plain (by decide) fun he => absurd he (by decide), strip, if_neg]
    · exact breaks_cons.2 rfl
    · intro h
      exact absurd (hp.code _ _ h).1 (by decide)

/-- In code everything but blanks is kept. -/
theorem strip_code (hp : Trimming p) {q : Piece} (hq : q.WellFormed) (hmode : modeOf q = .code)
    (hne : ∀ c, q ≠ .blank c) (bs : List (Char × Mode)) :
    strip p (marksOf q ++ bs) = marksOf q ++ strip p bs := by
  apply strip_keep
  intro x hx xs
  obtain ⟨c, hc, rfl⟩ := List.mem_map.1 hx
  rw [hmode, Bool.eq_false_iff]
  intro h
  have hgap := (hp.code c xs h).1
  rw [isGap, isBlank_eq_false hq hmode hc hne] at hgap
  cases hgap

/-- Strings are kept. -/
theorem strip_string (hp : Trimming p) {q : Piece} (hmode : modeOf q = .string)
    (bs : List (Char × Mode)) : strip p (marksOf q ++ bs) = marksOf q ++ strip p bs := by
  apply strip_keep
  intro x hx xs
  obtain ⟨c, -, rfl⟩ := List.mem_map.1 hx
  rw [hmode]
  exact hp.string c xs

/-- A comment is left out, or it keeps its slashes. -/
theorem trimmed_strip_comment {body rest : List Char} {rs : List Piece} (hp : Trimming p)
    (hbody : '\n' ∉ body) (hs : Breaks (· != '\n') rest) (hc : Cuts rest qs)
    (h : Trimmed qs rs)
    (hrs : rs.flatMap Piece.text = (strip p (qs.flatMap marksOf)).map Prod.fst) :
    ∃ rs', Trimmed (.comment body :: qs) rs' ∧ rs'.flatMap Piece.text =
      (strip p (marksOf (.comment body) ++ qs.flatMap marksOf)).map Prod.fst := by
  rcases hp.comment with hall | hslash
  · have hline := breaks_strip hp hc hs
    refine ⟨rs, .comment (hrs ▸ hline) h, ?_⟩
    rw [strip_drop, hrs]
    intro x hx xs
    obtain ⟨c, -, rfl⟩ := List.mem_map.1 hx
    exact hall c xs
  · obtain ⟨ys, hsub, hys⟩ := @strip_append p (qs.flatMap marksOf) (body.map (·, Mode.comment))
    have hkept : '\n' ∉ ys.map Prod.fst := by
      intro hm
      have hmem := (hsub.map Prod.fst).subset hm
      simp only [List.map_map, Function.comp_def, List.map_id'] at hmem
      exact hbody hmem
    refine ⟨_, .shorten hkept h, ?_⟩
    show '/' :: '/' :: ys.map Prod.fst ++ rs.flatMap Piece.text =
      (strip p (('/', .comment) :: ('/', .comment) ::
        (body.map (·, Mode.comment) ++ qs.flatMap marksOf))).map Prod.fst
    rw [strip, hslash, strip, hslash, hys, hrs]
    simp

/-- What a trimming leaves of a text is left of its pieces. -/
theorem trimmed_strip (hp : Trimming p) (hc : Cuts s qs) : ∃ rs, Trimmed qs rs ∧
    rs.flatMap Piece.text = (strip p (qs.flatMap marksOf)).map Prod.fst := by
  induction hc with
  | nil => exact ⟨[], .nil, rfl⟩
  | @cons q rest qs hq hs hc ih =>
    obtain ⟨rs, htrimmed, hrs⟩ := ih
    rw [List.flatMap_cons]
    have hkeep (h : strip p (marksOf q ++ qs.flatMap marksOf) =
        marksOf q ++ strip p (qs.flatMap marksOf)) : ∃ rs, Trimmed (q :: qs) rs ∧
          rs.flatMap Piece.text = (strip p (marksOf q ++ qs.flatMap marksOf)).map Prod.fst := by
      refine ⟨q :: rs, htrimmed.keep, ?_⟩
      rw [List.flatMap_cons, h, List.map_append, hrs]
      simp [marksOf, Function.comp_def]
    cases q with
    | blank c =>
      by_cases h : p (c, .code) (qs.flatMap marksOf) = true
      · obtain ⟨hgap, hline⟩ := hp.code c _ h
        refine ⟨rs, .blank hgap (hrs ▸ hline) htrimmed, ?_⟩
        show _ = (strip p ((c, .code) :: qs.flatMap marksOf)).map Prod.fst
        rw [strip, if_pos h, hrs]
      · apply hkeep
        show strip p ((c, .code) :: qs.flatMap marksOf) = _
        rw [strip, if_neg h]
        rfl
    | comment body => exact trimmed_strip_comment hp hq hs hc htrimmed hrs
    | string body => exact hkeep (strip_string hp rfl _)
    | unclosed body => exact hkeep (strip_string hp rfl _)
    | _ => exact hkeep (strip_code hp hq rfl (by simp) _)

end

/-! ## Leaving out what stands before one line end -/

/-- Blanks in code, and behind them a whole comment or none. -/
def Trivia (before run : List (Char × Mode)) : Prop :=
  ∃ blanks comment, run = blanks ++ comment ∧ (∀ x ∈ blanks, isGap x.1 = true ∧ x.2 = .code) ∧
    (∀ x ∈ comment, x.2 = .comment) ∧
    (comment ≠ [] → ∀ x ∈ (before ++ blanks).getLast?, x.2 ≠ .comment)

section
variable {s : List Char} {q : Piece} {qs as bs : List Piece}
variable {before run blanks comment after : List (Char × Mode)} {x : Char × Mode}

theorem cuts_behind (h : Cuts s (as ++ bs)) : ∃ t, Cuts t bs := by
  induction as generalizing s with
  | nil => exact ⟨s, h⟩
  | cons q as ih =>
    cases h with
    | cons _ _ hrest => exact ih hrest

/-- The first mark of a piece. -/
theorem head_marksOf (hq : q.WellFormed) (h : marksOf q ++ before = x :: after) :
    x.1 ∈ q.text ∧ x.2 = modeOf q := by
  obtain ⟨c, cs, hc⟩ := List.exists_cons_of_ne_nil (Piece.text_ne_nil hq)
  rw [marksOf, hc] at h
  obtain ⟨rfl, -⟩ := List.cons.inj h
  exact ⟨by simp [hc], rfl⟩

theorem trimmed_comment (hc : Cuts s qs) (h : qs.flatMap marksOf = comment ++ after)
    (hcomment : ∀ x ∈ comment, x.2 = .comment) (hafter : Breaks (· != '\n') (after.map Prod.fst)) :
    ∃ rs, Trimmed qs rs ∧ rs.flatMap marksOf = after := by
  cases comment with
  | nil => exact ⟨qs, trimmed_refl qs, h⟩
  | cons x xs =>
    have hline : ∀ c ∈ (x :: xs).map Prod.fst, (c != '\n') = true := by
      rw [← marks_eq hc] at h
      intro c hm
      obtain ⟨y, hy, rfl⟩ := List.mem_map.1 hm
      rw [bne_iff_ne]
      exact line_of_comment y (h ▸ List.mem_append_left _ hy) (hcomment y hy)
    cases hc with
    | nil => cases h
    | @cons q rest qs hq hs hrest =>
      rw [List.flatMap_cons] at h
      obtain ⟨-, hmode⟩ := head_marksOf hq h
      rw [hcomment x List.mem_cons_self] at hmode
      cases q with
      | comment body =>
        -- Both the piece and the run go up to the first line feed.
        have htext := congrArg (fun xs => (xs.map Prod.fst).takeWhile (· != '\n')) h
        simp only [List.map_append, flatMap_marksOf, text_of_cuts hrest] at htext
        rw [takeWhile_of_breaks hline hafter, marksOf, List.map_map, Function.comp_def,
          List.map_id', takeWhile_of_breaks (bne_of_notMem (notMem_comment hq)) hs] at htext
        have hlength : (marksOf (.comment body)).length = (x :: xs).length := by
          rw [marksOf, List.length_map, htext, List.length_map]
        obtain ⟨-, hqs⟩ := List.append_inj h hlength
        refine ⟨qs, .comment ?_ (trimmed_refl qs), hqs⟩
        rwa [text_of_cuts hrest]
      | _ => cases hmode

theorem trimmed_run (hc : Cuts s qs) (h : qs.flatMap marksOf = blanks ++ (comment ++ after))
    (hblanks : ∀ x ∈ blanks, isGap x.1 = true ∧ x.2 = .code)
    (hcomment : ∀ x ∈ comment, x.2 = .comment) (hafter : Breaks (· != '\n') (after.map Prod.fst)) :
    ∃ rs, Trimmed qs rs ∧ rs.flatMap marksOf = after := by
  induction blanks generalizing s qs with
  | nil => exact trimmed_comment hc h hcomment hafter
  | cons x xs ih =>
    obtain ⟨⟨hgap, hcode⟩, hrest⟩ := List.forall_mem_cons.1 hblanks
    cases hc with
    | nil => cases h
    | @cons q rest qs hq hs hcuts =>
      rw [List.flatMap_cons] at h
      obtain ⟨hmem, hmode⟩ := head_marksOf hq h
      have hblank : ∃ c, q = .blank c := by
        by_contra hne
        have hplain := isBlank_eq_false hq (hmode.symm.trans hcode) hmem (not_exists.1 hne)
        rw [isGap, hplain] at hgap
        cases hgap
      obtain ⟨c, rfl⟩ := hblank
      obtain ⟨rfl, htail⟩ := List.cons.inj h
      obtain ⟨rs, htrimmed, hrs⟩ := ih hcuts htail hrest
      refine ⟨rs, .blank hgap ?_ htrimmed, hrs⟩
      rwa [← flatMap_marksOf, hrs]

/-- A run that is not empty starts with a blank or with a comment. -/
theorem opens_run (hblanks : ∀ x ∈ blanks, isGap x.1 = true ∧ x.2 = .code)
    (hcomment : ∀ x ∈ comment, x.2 = .comment)
    (hlast : comment ≠ [] → ∀ x ∈ (before ++ blanks).getLast?, x.2 ≠ .comment)
    (h : blanks ++ comment = x :: after) : Opens before x := by
  cases blanks with
  | nil =>
    obtain rfl : comment = x :: after := h
    have hbefore := hlast (List.cons_ne_nil x after)
    rw [List.append_nil] at hbefore
    exact .inr ⟨hcomment x List.mem_cons_self, hbefore⟩
  | cons y ys =>
    obtain ⟨rfl, -⟩ := List.cons.inj h
    obtain ⟨hgap, hcode⟩ := hblanks y List.mem_cons_self
    rw [isGap, Bool.and_eq_true] at hgap
    exact .inl ⟨hcode, hgap.1⟩

/-- Of the pieces of a text those before the run and those behind it are left. -/
theorem trimmed_trivia (hc : Cuts s qs) (h : qs.flatMap marksOf = before ++ (run ++ after))
    (hrun : Trivia before run) (hafter : Breaks (· != '\n') (after.map Prod.fst)) :
    ∃ rs, Trimmed qs rs ∧ rs.flatMap Piece.text = (before ++ after).map Prod.fst := by
  obtain ⟨blanks, comment, hparts, hblanks, hcomment, hlast⟩ := hrun
  cases run with
  | nil => exact ⟨qs, trimmed_refl qs, by rw [← flatMap_marksOf, h, List.nil_append]⟩
  | cons x xs =>
    have hx : Opens before x := opens_run hblanks hcomment hlast hparts.symm
    obtain ⟨as, bs, rfl, has, hbs⟩ := split_marks (fun q => wellFormed_of_mem hc) h hx
    obtain ⟨t, ht⟩ := cuts_behind hc
    have hrun : bs.flatMap marksOf = blanks ++ (comment ++ after) := by
      rw [hbs, ← List.append_assoc, ← hparts]
      rfl
    obtain ⟨rs, htrimmed, hrs⟩ := trimmed_run ht hrun hblanks hcomment hafter
    refine ⟨as ++ rs, trimmed_append htrimmed as, ?_⟩
    rw [← flatMap_marksOf, List.flatMap_append, has, hrs]

theorem notMem_trivia {m : Mode} (hmem : ∀ x ∈ run, x ∈ marks m s) (hrun : Trivia before run) :
    '\n' ∉ run.map Prod.fst := by
  obtain ⟨blanks, comment, rfl, hblanks, hcomment, -⟩ := hrun
  intro hm
  obtain ⟨x, hx, hline⟩ := List.mem_map.1 hm
  rcases List.mem_append.1 hx with hb | hb
  · exact ne_of_test (hblanks x hb).1 rfl hline
  · exact line_of_comment x (hmem x hx) (hcomment x hb) hline

end

section
variable {source : List Char} {before run after : List (Char × Mode)}
variable (h : marks .code source = before ++ (run ++ after)) (hrun : Trivia before run)
include h hrun

/-- The same is found without the run. -/
theorem findings_without_run (hafter : ∀ x ∈ after.head?, x.1 = '\n') :
    (scan ((before ++ after).map Prod.fst)).findings = (scan source).findings := by
  have hcuts := cuts_pieces source
  have hbreaks : Breaks (· != '\n') (after.map Prod.fst) := by
    cases after with
    | nil => exact breaks_nil _
    | cons x xs => exact breaks_cons.2 (by simpa using hafter)
  rw [marks_eq hcuts] at h
  obtain ⟨rs, htrimmed, hrs⟩ := trimmed_trivia hcuts h hrun hbreaks
  rw [← hrs]
  exact (scan_trimmed htrimmed).1

/-- The run moves the column on. -/
theorem stop_with_run : (scan source).stop =
    (⟨(Position.after {} (before.map Prod.fst)).line,
      (Position.after {} (before.map Prod.fst)).column + run.length⟩ : Position).after
        (after.map Prod.fst) := by
  have hmem : ∀ x ∈ run, x ∈ marks .code source := by
    intro x hx
    rw [h]
    exact List.mem_append_right _ (List.mem_append_left _ hx)
  have htext : source = before.map Prod.fst ++ (run.map Prod.fst ++ after.map Prod.fst) := by
    rw [← List.map_append, ← List.map_append, ← h, marks_text]
  rw [stop_scan, htext, Position.after_append, Position.after_append,
    after_of_notMem (notMem_trivia hmem hrun), List.length_map]

/-- Before a line feed the run can be left out. -/
theorem scan_without_run (hne : after ≠ []) (hafter : ∀ x ∈ after.head?, x.1 = '\n') :
    scan ((before ++ after).map Prod.fst) = scan source := by
  have hfindings := findings_without_run h hrun hafter
  have hstop : (scan ((before ++ after).map Prod.fst)).stop = (scan source).stop := by
    obtain ⟨x, xs, rfl⟩ := List.exists_cons_of_ne_nil hne
    have hx : x.1 = '\n' := hafter x rfl
    rw [stop_with_run h hrun, stop_scan, List.map_append, Position.after_append, List.map_cons, hx,
      Position.after_cons, Position.after_cons]
    rfl
  exact congrArg₂ Scan.mk hfindings hstop

end

/-- **Trailing trivia.** Blanks and a whole comment that stand right before a line feed can be left
out, and the scan is the same; at the end of the text what is found is the same, and the end stands
as many columns further left. If at all line ends the carriage returns, or the comments, or all
blanks outside of strings are left out, then the same is found, and the text ends on the same
line. -/
theorem scan_without_trivia (source : List Char) :
    (∀ before run after, marks .code source = before ++ (run ++ after) → Trivia before run →
      (∀ x ∈ after.head?, x.1 = '\n') →
      (after ≠ [] → scan ((before ++ after).map Prod.fst) = scan source) ∧
      (after = [] → (scan (before.map Prod.fst)).findings = (scan source).findings ∧
        (scan source).stop = ⟨(scan (before.map Prod.fst)).stop.line,
          (scan (before.map Prod.fst)).stop.column + run.length⟩)) ∧
    ∀ p ∈ [returnAtEnd, inComment, blankAtEnd],
      (scan ((strip p (marks .code source)).map Prod.fst)).findings = (scan source).findings ∧
        (scan ((strip p (marks .code source)).map Prod.fst)).stop.line =
          (scan source).stop.line := by
  constructor
  · intro before run after h hrun hafter
    refine ⟨fun hne => scan_without_run h hrun hne hafter, ?_⟩
    intro hnil
    have hfindings := findings_without_run h hrun hafter
    have hstop := stop_with_run h hrun
    rw [hnil] at hfindings hstop
    rw [List.append_nil] at hfindings
    exact ⟨hfindings, hstop⟩
  · intro p hp
    have htrimming : Trimming p := by
      simp only [List.mem_cons, List.not_mem_nil, or_false] at hp
      rcases hp with rfl | rfl | rfl
      · exact trimming_returns
      · exact trimming_comments
      · exact trimming_blanks
    have hcuts := cuts_pieces source
    obtain ⟨rs, htrimmed, hrs⟩ := trimmed_strip htrimming hcuts
    rw [marks_eq hcuts, ← hrs]
    exact scan_trimmed htrimmed

/-- A comment with a quote and a stray character in it, a string with a blank before a line end, and
a carriage return behind the string. -/
theorem scan_without_trivia_mixed :
    scan "a\n\"b \r\n\" \r\n".toList = scan "a \t//\"#\n\"b \r\n\" \r\n".toList ∧
      (scan "a \t//\"#\n\"b \r\n\" \n".toList).findings =
        (scan "a \t//\"#\n\"b \r\n\" \r\n".toList).findings := by
  obtain ⟨hrun, hstrip⟩ := scan_without_trivia "a \t//\"#\n\"b \r\n\" \r\n".toList
  constructor
  · have htrivia : Trivia [('a', .code)]
        ([(' ', .code), ('\t', .code)] ++ "//\"#".toList.map (·, Mode.comment)) :=
      ⟨_, _, rfl, by decide, by decide, by simp⟩
    obtain ⟨hscan, -⟩ := hrun [('a', .code)] _ (marks .code "\n\"b \r\n\" \r\n".toList)
      (by decide +kernel) htrivia (by decide +kernel)
    exact hscan (by decide +kernel)
  · exact (hstrip returnAtEnd (by simp)).1

end Lox

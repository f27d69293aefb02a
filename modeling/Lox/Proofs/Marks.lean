import Lox.Proofs.Modes

/-!
# The mode of each character

The machine of the three modes tells of each character of a text whether it belongs to code, to a
comment or to a string. Both slashes belong to their comment and both quotes to their string; the
line feed behind a comment belongs to code. All characters of a piece have the same mode, so the
pieces of a text are seen in its marks as far as blanks and comments go.

Results:
* `marks_piece`, `marks_eq`: the marks of a piece, and of a text from its pieces.
* `line_of_comment`: no line feed belongs to a comment.
* `split_marks`: a blank in code, or the first character of a comment, starts a piece.
-/
namespace Lox

namespace Modes

/-- Each character with its mode. -/
def marks : Mode → List Char → List (Char × Mode)
  | _, [] => []
  | .code, '/' :: '/' :: cs => ('/', .comment) :: ('/', .comment) :: marks .comment cs
  | .code, c :: cs =>
    if c = '"' then (c, .string) :: marks .string cs else (c, .code) :: marks .code cs
  | .comment, c :: cs =>
    if c = '\n' then (c, .code) :: marks .code cs else (c, .comment) :: marks .comment cs
  | .string, c :: cs => (c, .string) :: marks (if c = '"' then .code else .string) cs

/-- The mode that the characters of a piece have. -/
def modeOf : Piece → Mode
  | .comment _ => .comment
  | .string _ => .string
  | .unclosed _ => .string
  | _ => .code

def marksOf (q : Piece) : List (Char × Mode) := q.text.map (·, modeOf q)

section
variable {m : Mode} {c : Char} {cs body rest s : List Char} {q : Piece} {qs : List Piece}

/-! ## Marks of a text -/

@[simp] theorem marks_text (m : Mode) (cs : List Char) : (marks m cs).map Prod.fst = cs := by
  fun_induction marks m cs <;> simp_all

theorem line_of_comment : ∀ x ∈ marks m cs, x.2 = .comment → x.1 ≠ '\n' := by
  fun_induction marks m cs with
  | case1 m => simp
  | case2 cs ih => simpa using ih
  | case3 cs _ ih => simpa using ih
  | case4 c cs _ hq ih => simpa using ih
  | case5 cs ih => simpa using ih
  | case6 c cs hc ih => simpa [hc] using ih
  | case7 c cs ih => simpa using ih

/-! ## Marks of a piece -/

theorem marks_plain (hq : c ≠ '"') (h : c = '/' → Breaks (· == '/') cs) :
    marks .code (c :: cs) = (c, .code) :: marks .code cs := by
  rw [marks, if_neg hq]
  rintro ds rfl rfl
  exact absurd (breaks_cons.1 (h rfl)) (by decide)

theorem marks_quote : marks .code ('"' :: cs) = ('"', .string) :: marks .string cs := by
  rw [marks, if_pos rfl]
  intro ds he
  exact absurd he (by decide)

/-- Characters that keep the machine in its mode have this mode. -/
theorem marks_keep (h : ∀ c ∈ body, ∀ cs, marks m (c :: cs) = (c, m) :: marks m cs) :
    marks m (body ++ rest) = body.map (·, m) ++ marks m rest := by
  induction body with
  | nil => rfl
  | cons c cs ih =>
    rw [List.cons_append, h c List.mem_cons_self, ih fun d hd => h d (List.mem_cons_of_mem c hd)]
    rfl

theorem marks_steady (h : ∀ c ∈ body, Steady c) :
    marks .code (body ++ rest) = body.map (·, .code) ++ marks .code rest := by
  apply marks_keep
  intro c hc cs
  obtain ⟨-, hquote, hslash⟩ := h c hc
  exact marks_plain hquote fun he => absurd he hslash

theorem marks_comment (h : '\n' ∉ body) :
    marks .comment (body ++ rest) = body.map (·, .comment) ++ marks .comment rest := by
  apply marks_keep
  intro c hc cs
  rw [marks, if_neg (bne_iff_ne.1 (bne_of_notMem h c hc))]

theorem marks_string (h : '"' ∉ body) :
    marks .string (body ++ rest) = body.map (·, .string) ++ marks .string rest := by
  apply marks_keep
  intro c hc cs
  rw [marks, if_neg (bne_iff_ne.1 (bne_of_notMem h c hc))]

theorem marks_piece (hq : q.WellFormed) (hs : q.Stops rest) :
    marks .code (q.text ++ rest) = marksOf q ++ marks (modeAfter q) rest := by
  cases q with
  | blank c =>
    have hc : Piece.isBlank c = true := hq
    have hquote : c ≠ '"' := ne_of_test hc (by decide)
    exact marks_plain hquote fun he => absurd he (ne_of_test hc (by decide))
  | comment body =>
    show ('/', .comment) :: ('/', .comment) :: marks .comment (body ++ rest) = _
    rw [marks_comment hq]
    rfl
  | string body =>
    show marks .code ('"' :: ((body ++ ['"']) ++ rest)) = _
    rw [marks_quote, List.append_assoc, marks_string hq, List.singleton_append, marks, if_pos rfl]
    simp [marksOf, modeOf, modeAfter, Piece.text]
  | number whole fraction => exact marks_steady (steady_number hq)
  | word w =>
    obtain ⟨c, cs, rfl, hc, hcs⟩ := hq
    apply marks_steady
    intro d hd
    rcases List.mem_cons.1 hd with rfl | hd
    · exact steady_of_isWordChar (by rw [Piece.isWordChar, hc, Bool.true_or])
    · exact steady_of_isWordChar (hcs d hd)
  | symbol s =>
    by_cases he : s = .slash
    · subst he
      exact marks_plain (by decide) fun _ => hs.2 rfl
    · exact marks_steady (steady_of_mem_spelling he)
  | unclosed body =>
    show marks .code ('"' :: (body ++ rest)) = _
    rw [marks_quote, marks_string hq]
    rfl
  | stray c =>
    have hc : Piece.isStray c = true := hq
    have hquote : c ≠ '"' := ne_of_test hc (by decide)
    exact marks_plain hquote fun he => absurd he (ne_of_test hc (by decide))

/-- At a line end a comment is over. -/
theorem marks_over (h : Breaks (· != '\n') rest) : marks .comment rest = marks .code rest := by
  cases rest with
  | nil => rfl
  | cons c cs =>
    obtain rfl : c = '\n' := by simpa using breaks_cons.1 h
    have hcode : marks .code ('\n' :: cs) = ('\n', .code) :: marks .code cs :=
      marks_plain (by decide) fun he => absurd he (by decide)
    rw [hcode, marks, if_pos rfl]

/-- A text is marked piece by piece. -/
theorem marks_eq (h : Cuts s qs) : marks .code s = qs.flatMap marksOf := by
  induction h with
  | nil => rfl
  | @cons q rest qs hq hs _ ih =>
    rw [marks_piece hq hs, List.flatMap_cons, ← ih]
    cases q with
    | comment body => rw [modeAfter, marks_over hs]
    | unclosed body =>
      obtain rfl : rest = [] := hs
      rfl
    | _ => rfl

theorem flatMap_marksOf (qs : List Piece) :
    (qs.flatMap marksOf).map Prod.fst = qs.flatMap Piece.text := by
  induction qs with
  | nil => rfl
  | cons q qs ih =>
    rw [List.flatMap_cons, List.map_append, ih, List.flatMap_cons]
    simp [marksOf, Function.comp_def]

/-! ## Pieces in the marks -/

/-- Of the pieces in code, blanks only have blank characters. -/
theorem isBlank_eq_false (hq : q.WellFormed) (hmode : modeOf q = .code) (hc : c ∈ q.text)
    (hne : ∀ d, q ≠ .blank d) : Piece.isBlank c = false := by
  have hword (d : Char) (hd : Piece.isWordChar d = true) : Piece.isBlank d = false := by
    cases h : Piece.isBlank d with
    | false => rfl
    | true =>
      rw [Piece.isWordChar_of_isBlank h] at hd
      cases hd
  cases q with
  | blank d => exact absurd rfl (hne d)
  | number whole fraction =>
    have hdigit (d : Char) (hd : d.isDigit = true) : Piece.isBlank d = false :=
      hword d (by rw [Piece.isWordChar, hd, Bool.or_true])
    cases fraction with
    | none => exact hdigit c (hq.1.2 c hc)
    | some places =>
      rcases List.mem_append.1 hc with hc | hc
      · exact hdigit c (hq.1.2 c hc)
      rcases List.mem_cons.1 hc with rfl | hc
      · rfl
      · exact hdigit c ((hq.2 places rfl).2 c hc)
  | word w =>
    obtain ⟨d, ds, rfl, hd, hds⟩ := hq
    rcases List.mem_cons.1 hc with rfl | hc
    · exact hword c (by rw [Piece.isWordChar, hd, Bool.true_or])
    · exact hword c (hds c hc)
  | symbol s =>
    refine forall_mem_of_all (p := fun c => Piece.isBlank c = false) ?_ c hc
    cases s <;> decide
  | stray d =>
    obtain rfl : c = d := List.mem_singleton.1 hc
    simp only [Piece.WellFormed, Piece.isStray, Bool.not_eq_true', Bool.or_eq_false_iff] at hq
    exact hq.1.1.1
  | _ => cases hmode

/-- The first mark of a blank or of a comment, seen from the marks before it. -/
def Opens (before : List (Char × Mode)) (x : Char × Mode) : Prop :=
  (x.2 = .code ∧ Piece.isBlank x.1 = true) ∨
    (x.2 = .comment ∧ ∀ y ∈ before.getLast?, y.2 ≠ .comment)

/-- All characters of a piece have one mode, and a blank in code is a piece of its own. -/
theorem not_opens {before after : List (Char × Mode)} {x : Char × Mode} (hq : q.WellFormed)
    (hne : before ≠ []) (h : marksOf q = before ++ x :: after) : ¬ Opens before x := by
  have hin : ∀ y ∈ before ++ x :: after, y.1 ∈ q.text ∧ y.2 = modeOf q := by
    rw [← h]
    intro y hy
    obtain ⟨c, hc, rfl⟩ := List.mem_map.1 hy
    exact ⟨hc, rfl⟩
  obtain ⟨hmem, hmode⟩ := hin x (by simp)
  intro hx
  rcases hx with ⟨hcode, hblank⟩ | ⟨hcomment, hlast⟩
  · have hblanks : ∀ d, q ≠ .blank d := by
      rintro d rfl
      have hlength := congrArg List.length h
      have hpos := List.length_pos_iff.2 hne
      simp [marksOf, Piece.text] at hlength
      omega
    rw [isBlank_eq_false hq (hmode.symm.trans hcode) hmem hblanks] at hblank
    cases hblank
  · have hsame := (hin _ (List.mem_append_left _ (List.getLast_mem hne))).2
    exact hlast _ (List.getLast?_eq_some_getLast hne) (hsame.trans (hmode.symm.trans hcomment))

/-- A piece starts where a blank or a comment opens. -/
theorem split_marks {before after : List (Char × Mode)} {x : Char × Mode}
    (hqs : ∀ q ∈ qs, q.WellFormed) (h : qs.flatMap marksOf = before ++ x :: after)
    (hx : Opens before x) : ∃ as bs, qs = as ++ bs ∧ as.flatMap marksOf = before ∧
      bs.flatMap marksOf = x :: after := by
  induction qs generalizing before with
  | nil => simp at h
  | cons q qs ih =>
    obtain ⟨hq, hqs⟩ := List.forall_mem_cons.1 hqs
    rw [List.flatMap_cons] at h
    rcases List.append_eq_append_iff.1 h with ⟨t, rfl, ht⟩ | ⟨t, hsplit, ht⟩
    · have hopens : Opens t x := by
        refine hx.imp_right ?_
        intro hx
        refine ⟨hx.1, ?_⟩
        intro y hy
        exact hx.2 y (by simp [List.getLast?_append, Option.mem_def.1 hy])
      obtain ⟨as, bs, rfl, rfl, hbs⟩ := ih hqs ht hopens
      exact ⟨q :: as, bs, rfl, rfl, hbs⟩
    · cases t with
      | nil =>
        rw [List.append_nil] at hsplit
        exact ⟨[q], qs, rfl, by simpa using hsplit, ht.symm⟩
      | cons y t =>
        obtain ⟨rfl, rfl⟩ := List.cons.inj ht
        have hnil : before = [] := by
          by_contra hne
          exact not_opens hq hne hsplit hx
        subst hnil
        exact ⟨[], q :: qs, rfl, rfl, by rw [List.flatMap_cons, hsplit]; rfl⟩

end
end Modes
end Lox

import Lox.Proofs.Munch
import Lox.Proofs.Places

/-!
# Three modes

A machine that reads a text character by character and is in code, in a comment or in a string. It
knows nothing of tokens. In code a quote opens a string, two slashes open a comment, and a character
that no token, comment or blank is made of is a stray one.

Results:
* `walk_piece`: on the text of a well-formed piece the machine meets what the piece reports, and
  ends in the mode of what comes next.
* `findings_told`: along a whole text the scan and the machine stay in step.
* `diagnostics_eq_told`: a scan reports the stray characters that the machine meets, and an unclosed
  string if it ends in one.
-/
namespace Lox
namespace Modes

open Munch (Letter Digit)

/-! ## The machine -/

inductive Mode
  | code | comment | string
  deriving DecidableEq, Repr

/-- The characters of words, numbers, operators and blanks. -/
def Known (c : Char) : Prop :=
  Letter c ∨ Digit c ∨ c ∈ [' ', '\r', '\t', '\n', '(', ')', '\x7b', '\x7d', ',', '.', '-', '+', ';',
    '*', '/', '!', '=', '<', '>']

instance (c : Char) : Decidable (Known c) :=
  inferInstanceAs (Decidable ((('a' ≤ c ∧ c ≤ 'z') ∨ ('A' ≤ c ∧ c ≤ 'Z') ∨ c = '_') ∨
    ('0' ≤ c ∧ c ≤ '9') ∨ c ∈ _))

/-- The stray characters that were met, with their offsets, and the mode at the end. -/
structure Walk where
  strays : List (Nat × Char)
  mode : Mode
  deriving DecidableEq, Repr

/-- Reads a text that starts at an offset. -/
def walk : Mode → Nat → List Char → Walk
  | m, _, [] => ⟨[], m⟩
  | .code, o, '/' :: '/' :: cs => walk .comment (o + 2) cs
  | .code, o, c :: cs =>
    if c = '"' then walk .string (o + 1) cs
    else if Known c then walk .code (o + 1) cs
    else ⟨(o, c) :: (walk .code (o + 1) cs).strays, (walk .code (o + 1) cs).mode⟩
  | .comment, o, c :: cs => walk (if c = '\n' then .code else .comment) (o + 1) cs
  | .string, o, c :: cs => walk (if c = '"' then .code else .string) (o + 1) cs

/-- What a walk tells about a text: each stray character where it stands, and an unclosed string
just past the last character. -/
def told (source : List Char) (w : Walk) : List Diagnostic :=
  w.strays.map (fun x => ⟨placeAt source x.1, .unexpected x.2⟩) ++
    if w.mode = .string then [⟨placeAt source source.length, .unterminated⟩] else []

/-! ## Characters -/

theorem known_of_isWordChar {c : Char} (h : Piece.isWordChar c = true) : Known c := by
  rcases Munch.isWordChar_iff.1 h with h | h
  · exact .inl h
  · exact .inr (.inl h)

theorem known_of_isBlank {c : Char} (h : Piece.isBlank c = true) : Known c := by
  simp only [Piece.isBlank, Bool.or_eq_true, beq_iff_eq] at h
  rcases h with ((rfl | rfl) | rfl) | rfl <;> decide

/-- A finite check, character by character. -/
theorem forall_mem_of_all {p : Char → Prop} [DecidablePred p] {cs : List Char}
    (h : cs.all (fun c => decide (p c)) = true) : ∀ c ∈ cs, p c := by
  intro c hc
  exact of_decide_eq_true (List.all_eq_true.1 h c hc)

theorem known_of_mem_spelling (s : Symbol) : ∀ c ∈ s.spelling, Known c := by
  refine forall_mem_of_all ?_
  cases s <;> decide

theorem isStray_eq_false {c : Char} (h : Known c) : Piece.isStray c = false := by
  rcases h with h | h | h
  · simp [Piece.isStray, Munch.isWordChar_iff.2 (.inl h)]
  · simp [Piece.isStray, Munch.isWordChar_iff.2 (.inr h)]
  · refine forall_mem_of_all (p := fun c => Piece.isStray c = false) ?_ c h
    decide

/-- Characters that leave the machine in code wherever they stand. -/
def Steady (c : Char) : Prop := Known c ∧ c ≠ '"' ∧ c ≠ '/'

theorem steady_of_isWordChar {c : Char} (h : Piece.isWordChar c = true) : Steady c := by
  exact ⟨known_of_isWordChar h, ne_of_test h (by decide), ne_of_test h (by decide)⟩

theorem steady_of_isDigit {c : Char} (h : c.isDigit = true) : Steady c :=
  steady_of_isWordChar (by rw [Piece.isWordChar, h, Bool.or_true])

theorem steady_of_mem_spelling {s : Symbol} (hs : s ≠ .slash) : ∀ c ∈ s.spelling, Steady c := by
  intro c hc
  refine ⟨known_of_mem_spelling s c hc, ?_, ?_⟩
  · rintro rfl
    revert hc
    cases s <;> decide
  · rintro rfl
    revert hc
    cases s <;> first | exact absurd rfl hs | decide

theorem steady_number {whole : List Char} {fraction : Option (List Char)}
    (hq : (Piece.number whole fraction).WellFormed) :
    ∀ c ∈ (Piece.number whole fraction).text, Steady c := by
  intro c hc
  cases fraction with
  | none => exact steady_of_isDigit (hq.1.2 c hc)
  | some places =>
    rcases List.mem_append.1 hc with hc | hc
    · exact steady_of_isDigit (hq.1.2 c hc)
    rcases List.mem_cons.1 hc with rfl | hc
    · exact ⟨by decide, by decide, by decide⟩
    · exact steady_of_isDigit ((hq.2 places rfl).2 c hc)

/-! ## What the machine does along a piece -/

theorem walk_comment_cons (o : Nat) (c : Char) (cs : List Char) :
    walk .comment o (c :: cs) = walk (if c = '\n' then .code else .comment) (o + 1) cs := by
  rw [walk]

theorem walk_string_cons (o : Nat) (c : Char) (cs : List Char) :
    walk .string o (c :: cs) = walk (if c = '"' then .code else .string) (o + 1) cs := by
  rw [walk]

theorem walk_code_cons {o : Nat} {c : Char} {cs : List Char}
    (h : c = '/' → Breaks (· == '/') cs) :
    walk .code o (c :: cs) = if c = '"' then walk .string (o + 1) cs
      else if Known c then walk .code (o + 1) cs
      else ⟨(o, c) :: (walk .code (o + 1) cs).strays, (walk .code (o + 1) cs).mode⟩ := by
  rw [walk]
  rintro ds rfl rfl
  exact absurd (breaks_cons.1 (h rfl)) (by decide)

/-- What stands behind a slash that opens no comment. -/
theorem breaks_of_slash {c : Char} {cs : List Char}
    (h : ∀ ds, c = '/' → cs = '/' :: ds → False) (hc : c = '/') : Breaks (· == '/') cs := by
  intro d hd
  obtain ⟨ds, rfl⟩ := List.head?_eq_some_iff.1 (Option.mem_def.1 hd)
  rw [beq_eq_false_iff_ne]
  rintro rfl
  exact h ds hc rfl

theorem walk_known {o : Nat} {c : Char} {cs : List Char} (hc : Known c) (hq : c ≠ '"')
    (h : c = '/' → Breaks (· == '/') cs) : walk .code o (c :: cs) = walk .code (o + 1) cs := by
  rw [walk_code_cons h, if_neg hq, if_pos hc]

theorem walk_stray {o : Nat} {c : Char} {cs : List Char} (h : Piece.isStray c = true) :
    walk .code o (c :: cs) =
      ⟨(o, c) :: (walk .code (o + 1) cs).strays, (walk .code (o + 1) cs).mode⟩ := by
  have hquote : c ≠ '"' := ne_of_test h (by decide)
  have hslash : c ≠ '/' := ne_of_test h (by decide)
  have hknown : ¬ Known c := by
    intro hk
    rw [isStray_eq_false hk] at h
    cases h
  rw [walk_code_cons fun he => absurd he hslash, if_neg hquote, if_neg hknown]

/-- A quote opens a string. -/
theorem walk_quote {o : Nat} {cs : List Char} :
    walk .code o ('"' :: cs) = walk .string (o + 1) cs := by
  rw [walk_code_cons fun he => absurd he (by decide), if_pos rfl]

/-- Characters that keep the machine in its mode, one after the other. -/
theorem walk_keep {m : Mode} {body rest : List Char}
    (h : ∀ c ∈ body, ∀ o cs, walk m o (c :: cs) = walk m (o + 1) cs) (o : Nat) :
    walk m o (body ++ rest) = walk m (o + body.length) rest := by
  induction body generalizing o with
  | nil => rfl
  | cons c cs ih =>
    rw [List.cons_append, h c List.mem_cons_self, ih fun d hd => h d (List.mem_cons_of_mem c hd),
      List.length_cons, Nat.add_right_comm, Nat.add_assoc]

theorem walk_steady {o : Nat} {cs rest : List Char} (h : ∀ c ∈ cs, Steady c) :
    walk .code o (cs ++ rest) = walk .code (o + cs.length) rest := by
  refine walk_keep ?_ o
  intro c hc o cs
  obtain ⟨hknown, hquote, hslash⟩ := h c hc
  exact walk_known hknown hquote fun he => absurd he hslash

theorem walk_comment {o : Nat} {body rest : List Char} (h : '\n' ∉ body) :
    walk .comment o (body ++ rest) = walk .comment (o + body.length) rest := by
  refine walk_keep ?_ o
  intro c hc o cs
  rw [walk_comment_cons, if_neg (bne_iff_ne.1 (bne_of_notMem h c hc))]

theorem walk_string {o : Nat} {body rest : List Char} (h : '"' ∉ body) :
    walk .string o (body ++ rest) = walk .string (o + body.length) rest := by
  refine walk_keep ?_ o
  intro c hc o cs
  rw [walk_string_cons, if_neg (bne_iff_ne.1 (bne_of_notMem h c hc))]

/-- The mode that the machine is in after a piece. -/
def modeAfter : Piece → Mode
  | .comment _ => .comment
  | .unclosed _ => .string
  | _ => .code

def straysOf (o : Nat) : Piece → List (Nat × Char)
  | .stray c => [(o, c)]
  | _ => []

/-- One step of the scan, as the machine sees it. -/
theorem walk_piece {q : Piece} {rest : List Char} (hq : q.WellFormed) (hs : q.Stops rest)
    (o : Nat) : walk .code o (q.text ++ rest) =
      ⟨straysOf o q ++ (walk (modeAfter q) (o + q.text.length) rest).strays,
        (walk (modeAfter q) (o + q.text.length) rest).mode⟩ := by
  cases q with
  | blank c =>
    have hc : Piece.isBlank c = true := hq
    have hslash : c ≠ '/' := ne_of_test hc (by decide)
    have hquote : c ≠ '"' := ne_of_test hc (by decide)
    exact walk_known (known_of_isBlank hc) hquote fun he => absurd he hslash
  | comment body =>
    show walk .comment (o + 2) (body ++ rest) = walk .comment (o + (body.length + 2)) rest
    rw [walk_comment hq, Nat.add_assoc, Nat.add_comm 2]
  | string body =>
    show walk .code o ('"' :: ((body ++ ['"']) ++ rest)) =
      walk .code (o + ((body ++ ['"']).length + 1)) rest
    rw [walk_quote, List.append_assoc, walk_string hq, List.singleton_append,
      walk_string_cons, if_pos rfl, List.length_append, List.length_singleton]
    congr 1
    omega
  | number whole fraction => exact walk_steady (steady_number hq)
  | word w =>
    obtain ⟨c, cs, rfl, hc, hcs⟩ := hq
    refine walk_steady ?_
    intro d hd
    rcases List.mem_cons.1 hd with rfl | hd
    · exact steady_of_isWordChar (by rw [Piece.isWordChar, hc, Bool.true_or])
    · exact steady_of_isWordChar (hcs d hd)
  | symbol s =>
    by_cases he : s = .slash
    · subst he
      exact walk_known (by decide) (by decide) fun _ => hs.2 rfl
    · exact walk_steady (steady_of_mem_spelling he)
  | unclosed body =>
    obtain rfl : rest = [] := hs
    show walk .code o ('"' :: (body ++ [])) = walk .string (o + (body.length + 1)) []
    rw [walk_quote, walk_string hq]
    rfl
  | stray c =>
    show walk .code o (c :: rest) = _
    rw [walk_stray hq]
    rfl

/-- A comment that is over tells nothing more: at a line end the machine is back in code. -/
theorem told_comment {rest : List Char} (h : Breaks (· != '\n') rest) (source : List Char)
    (o : Nat) : told source (walk .comment o rest) = told source (walk .code o rest) := by
  cases rest with
  | nil => rfl
  | cons c cs =>
    obtain rfl : c = '\n' := by simpa using breaks_cons.1 h
    have hcode : walk .code o ('\n' :: cs) = walk .code (o + 1) cs :=
      walk_known (by decide) (by decide) fun he => absurd he (by decide)
    have hcomment : walk .comment o ('\n' :: cs) = walk .code (o + 1) cs := by
      rw [walk_comment_cons, if_pos rfl]
    rw [hcode, hcomment]

/-! ## The whole text -/

/-- The scan and the machine stay in step from any cut on. -/
theorem findings_told {before s : List Char} {qs : List Piece} (h : Cuts s qs) :
    (findings (placeAt (before ++ s) before.length) qs).filterMap Finding.diagnostic? =
      told (before ++ s) (walk .code before.length s) := by
  induction h generalizing before with
  | nil => rfl
  | @cons q rest qs hq hs hc ih =>
    have htail := @ih (before ++ q.text)
    rw [List.append_assoc, List.length_append] at htail
    rw [findings, List.filterMap_append, after_placeAt, htail, walk_piece hq hs]
    cases q with
    | comment body => exact (told_comment hs _ _).symm
    | unclosed body =>
      obtain rfl : rest = [] := hs
      show [_] = [_]
      rw [after_placeAt, List.append_nil, List.length_append]
    | stray c => rfl
    | _ => rfl

theorem diagnostics_eq_told (source : List Char) :
    (scan source).diagnostics = told source (walk .code 0 source) :=
  @findings_told [] source _ (cuts_pieces source)

theorem told_eq_nil_iff {source : List Char} {w : Walk} :
    told source w = [] ↔ w.strays = [] ∧ w.mode ≠ .string := by
  rw [told, List.append_eq_nil_iff, List.map_eq_nil_iff]
  refine and_congr_right fun _ => ?_
  split <;> simp_all

theorem strays_problem {source : List Char} {w : Walk} : ∀ d ∈ w.strays.map
    (fun x => (⟨placeAt source x.1, .unexpected x.2⟩ : Diagnostic)), d.problem ≠ .unterminated := by
  intro d hd
  obtain ⟨x, -, rfl⟩ := List.mem_map.1 hd
  exact Problem.noConfusion

/-- Only the last diagnostic can be about an unclosed string. -/
theorem told_last {source : List Char} {w : Walk} :
    ∀ d ∈ (told source w).dropLast, d.problem ≠ .unterminated := by
  intro d hd
  unfold told at hd
  split at hd
  · rw [List.dropLast_concat] at hd
    exact strays_problem d hd
  · rw [List.append_nil] at hd
    exact strays_problem d (List.dropLast_subset _ hd)

theorem told_once {source : List Char} {w : Walk} :
    (told source w).countP (·.problem = .unterminated) ≤ 1 := by
  have h : (w.strays.map fun x =>
      (⟨placeAt source x.1, .unexpected x.2⟩ : Diagnostic)).countP (·.problem = .unterminated) = 0 := by
    rw [List.countP_eq_zero]
    intro d hd
    simpa using strays_problem d hd
  rw [told, List.countP_append, h, Nat.zero_add]
  split
  · exact List.countP_le_length
  · exact Nat.zero_le 1

/-- **Diagnostics.** A scan reports exactly what the machine tells: nothing if and only if it meets
no stray character in code and does not end in a string, and an unclosed string once at most, as
the last diagnostic. -/
theorem scan_diagnostics_eq_walk (source : List Char) :
    (scan source).diagnostics = told source (walk .code 0 source) ∧
      ((scan source).diagnostics = [] ↔
        (walk .code 0 source).strays = [] ∧ (walk .code 0 source).mode ≠ .string) ∧
      (scan source).diagnostics.countP (·.problem = .unterminated) ≤ 1 ∧
      ∀ d ∈ (scan source).diagnostics.dropLast, d.problem ≠ .unterminated := by
  rw [diagnostics_eq_told]
  exact ⟨rfl, told_eq_nil_iff, told_once, told_last⟩

end Modes
end Lox

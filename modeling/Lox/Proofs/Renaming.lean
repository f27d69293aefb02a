import Lox.Proofs.Modes
import Lox.Proofs.Totality

/-!
# Stray characters are alike

A character is stray if it is a part of no token, comment mark or blank. No step of a scan tells one
stray character from another: with other stray characters in their places, a run goes through the
same states, and what it finds differs in these characters only. U+0000 is one of them, so that the
run does not take it for the end of the text, behind which the cursor sees the same character.

Results:
* `Renaming.test`: a test that no stray character passes is passed as before.
* `step_rename`, `states_rename`: a step, and a run, on the two texts side by side.
* `scan_renamed`: what is found in the two texts.
-/
namespace Lox

/-- No letter, digit, blank, quote or part of an operator. -/
def Stray (c : Char) : Prop := c ≠ '"' ∧ ¬ Modes.Known c

instance (c : Char) : Decidable (Stray c) := inferInstanceAs (Decidable (_ ∧ _))

/-- Strays go to strays, and nothing else is changed. -/
structure Renaming (f : Char → Char) : Prop where
  stray : ∀ c, Stray c → Stray (f c)
  fixed : ∀ c, ¬ Stray c → f c = c

/-! ## What is renamed -/

section
variable (f : Char → Char)

def Literal.rename : Literal → Literal
  | string value => string (value.map f)
  | number value => number value

def Token.rename (t : Token) : Token :=
  { t with lexeme := t.lexeme.map f, literal := t.literal.map (Literal.rename f) }

def Diagnostic.rename (d : Diagnostic) : Diagnostic :=
  match d.problem with
  | .unexpected c => { d with problem := .unexpected (f c) }
  | .unterminated => d

def Finding.rename : Finding → Finding
  | token t => token (t.rename f)
  | problem d => problem (d.rename f)

/-- A renamed state stands where the state stands. -/
def Cursor.State.rename (s : State) : State := { s with found := s.found.map (Finding.rename f) }

@[simp] theorem Token.kind_rename (t : Token) : (t.rename f).kind = t.kind := rfl

@[simp] theorem Token.start_rename (t : Token) : (t.rename f).start = t.start := rfl

@[simp] theorem Token.length_rename (t : Token) : (t.rename f).length = t.length := by
  simp [Token.length, Token.rename]

@[simp] theorem Diagnostic.place_rename (d : Diagnostic) : (d.rename f).place = d.place := by
  unfold Diagnostic.rename
  split <;> rfl

end

/-! ## Tests -/

theorem not_stray_of_isWordChar {c : Char} (h : Piece.isWordChar c = true) : ¬ Stray c :=
  fun hc => hc.2 (Modes.known_of_isWordChar h)

theorem not_stray_of_isDigit {c : Char} (h : c.isDigit = true) : ¬ Stray c :=
  not_stray_of_isWordChar (by rw [Piece.isWordChar, h, Bool.or_true])

theorem not_stray_of_isBlank {c : Char} (h : Piece.isBlank c = true) : ¬ Stray c :=
  fun hc => hc.2 (Modes.known_of_isBlank h)

theorem not_stray_of_single {c : Char} {s : Symbol} (h : Symbol.single? c = some s) :
    ¬ Stray c := by
  intro hc
  have hspelling := Symbol.single?_eq_some_iff.1 h
  exact hc.2 (Modes.known_of_mem_spelling s c (by simp [hspelling]))

namespace Renaming

variable {f : Char → Char} (hf : Renaming f)
include hf

/-- A test that no stray character passes does not tell a character from its new name. -/
theorem test {p : Char → Bool} (hp : ∀ c, p c = true → ¬ Stray c) (c : Char) : p (f c) = p c := by
  by_cases hc : Stray c
  · have hold : p c = false := Bool.eq_false_iff.2 fun h => hp c h hc
    have hnew : p (f c) = false := Bool.eq_false_iff.2 fun h => hp _ h (hf.stray c hc)
    rw [hold, hnew]
  · rw [hf.fixed c hc]

theorem eq_iff {d : Char} (hd : ¬ Stray d) (c : Char) : f c = d ↔ c = d := by
  have h := hf.test (p := (· == d)) (fun c hc => by rwa [beq_iff_eq.1 hc]) c
  simpa using congrArg (· = true) h

theorem single (c : Char) : Symbol.single? (f c) = Symbol.single? c := by
  by_cases hc : Stray c
  · have hnone (d : Char) (hd : Stray d) : Symbol.single? d = none := by
      cases h : Symbol.single? d with
      | none => rfl
      | some s => exact absurd hd (not_stray_of_single h)
    rw [hnone c hc, hnone _ (hf.stray c hc)]
  · rw [hf.fixed c hc]

/-- A text without stray characters stays as it is. -/
theorem map_fixed {cs : List Char} (h : ∀ c ∈ cs, ¬ Stray c) : cs.map f = cs := by
  rw [List.map_congr_left fun c hc => hf.fixed c (h c hc), List.map_id']

theorem map_eq_iff {cs ds : List Char} (hd : ∀ d ∈ ds, ¬ Stray d) : cs.map f = ds ↔ cs = ds := by
  induction cs generalizing ds with
  | nil => simp
  | cons c cs ih =>
    cases ds with
    | nil => simp
    | cons d ds =>
      rw [List.forall_mem_cons] at hd
      rw [List.map_cons, List.cons_eq_cons, List.cons_eq_cons, hf.eq_iff hd.1, ih hd.2]

/-- A word with a stray character is none. -/
theorem ofWord (text : List Char) : Kind.ofWord (text.map f) = Kind.ofWord text := by
  have hwords (w : Keyword) : ∀ c ∈ w.spelling, ¬ Stray c :=
    Modes.forall_mem_of_all (by cases w <;> decide)
  have hsame : Keyword.ofWord? (text.map f) = Keyword.ofWord? text := by
    unfold Keyword.ofWord?
    congr 1
    funext w
    have hword : text.map f = w.spelling ↔ text = w.spelling :=
      hf.map_eq_iff (hwords w)
    simp only [eq_comm (a := w.spelling), hword]
  rw [Kind.ofWord, Kind.ofWord, hsame]

theorem next (p : Position) (c : Char) : p.next (f c) = p.next c := by
  have hline := hf.eq_iff (d := '\n') (by decide) c
  simp only [Position.next, hline]

end Renaming

namespace Cursor

/-! ## Parts of a step -/

section
variable {f : Char → Char} {source : List Char} {s : State}

theorem rename_finding (found : Finding) :
    (s.rename f).finding (found.rename f) = (s.finding found).rename f := by
  simp [State.rename, State.finding]

theorem atEnd_rename : atEnd (source.map f) (s.rename f) = atEnd source s := by
  rw [atEnd, atEnd, List.length_map]
  rfl

theorem slice_rename (i j : Nat) :
    slice (source.map f) i j = (slice source i j).map (List.map f) := by
  unfold slice
  rw [List.length_map]
  split
  · rw [← List.map_drop, ← List.map_take]
    rfl
  · rfl

theorem lexeme_rename : lexeme (source.map f) (s.rename f) = (lexeme source s).map (List.map f) :=
  slice_rename _ _

theorem push_rename (kind : Kind) (literal : Option Literal) :
    push (source.map f) kind (literal.map (Literal.rename f)) (s.rename f) =
      (push source kind literal s).map (State.rename f) := by
  rw [push, push, lexeme_rename]
  apply map_bind
  intro text _
  exact congrArg Except.ok (rename_finding (.token ⟨kind, text, literal, s.startPlace⟩))

variable (hf : Renaming f)
include hf

/-- At an offset the same tests are passed, behind the end of the text too. -/
theorem getD_rename {p : Char → Bool} (hp : ∀ c, p c = true → ¬ Stray c) (i : Nat) :
    p ((source.map f).getD i '\x00') = p (source.getD i '\x00') := by
  rw [List.getD_eq_getElem?_getD, List.getD_eq_getElem?_getD, List.getElem?_map]
  cases source[i]? with
  | none => rfl
  | some c => exact hf.test hp c

theorem peek_rename {p : Char → Bool} (hp : ∀ c, p c = true → ¬ Stray c) :
    p (peek (source.map f) (s.rename f)) = p (peek source s) := getD_rename hf hp s.current

theorem peekNext_rename {p : Char → Bool} (hp : ∀ c, p c = true → ¬ Stray c) :
    p (peekNext (source.map f) (s.rename f)) = p (peekNext source s) :=
  getD_rename hf hp (s.current + 1)

theorem peek_rename_eq {d : Char} (hd : ¬ Stray d) :
    peek (source.map f) (s.rename f) = d ↔ peek source s = d := by
  have h : (peek (source.map f) (s.rename f) == d) = (peek source s == d) := by
    apply peek_rename hf (p := (· == d))
    intro c hc
    rwa [beq_iff_eq.1 hc]
  simpa using congrArg (· = true) h

theorem rename_moved (c : Char) : (s.rename f).moved (f c) = (s.moved c).rename f := by
  simp only [State.rename, State.moved, hf.next]

theorem advance_rename : advance (source.map f) (s.rename f) =
    (advance source s).map (Prod.map f (State.rename f)) := by
  have hcurrent : (s.rename f).current = s.current := rfl
  rw [advance, advance, hcurrent, List.getElem?_map]
  cases source[s.current]? with
  | none => rfl
  | some c => exact congrArg Except.ok (congrArg (Prod.mk (f c)) (rename_moved hf c))

theorem pass_rename : pass (source.map f) (s.rename f) = (pass source s).map (State.rename f) := by
  rw [pass, pass, advance_rename hf]
  apply map_bind
  intro x _
  rfl

theorem eat_rename {d : Char} (hd : ¬ Stray d) : eat (source.map f) d (s.rename f) =
    (eat source d s).map (Prod.map id (State.rename f)) := by
  rw [eat, eat, atEnd_rename, pass_rename hf]
  simp only [ne_eq, peek_rename_eq hf hd]
  split
  · rfl
  · cases pass source s <;> rfl

theorem pushWord_rename :
    pushWord (source.map f) (s.rename f) = (pushWord source s).map (State.rename f) := by
  rw [pushWord, pushWord, lexeme_rename]
  apply map_bind
  intro text _
  rw [hf.ofWord]
  exact push_rename _ none

/-- A number without stray characters is read as before. -/
theorem pushNumber_rename (h : ∀ text, lexeme source s = .ok text → ∀ c ∈ text, ¬ Stray c) :
    pushNumber (source.map f) (s.rename f) = (pushNumber source s).map (State.rename f) := by
  rw [pushNumber, pushNumber, lexeme_rename]
  apply map_bind
  intro text htext
  rw [hf.map_fixed (h text htext)]
  cases Binary64.ofText? text with
  | none => rfl
  | some x => exact push_rename .number (some (.number x))

theorem closeString_rename :
    closeString (source.map f) (s.rename f) = (closeString source s).map (State.rename f) := by
  rw [closeString, closeString, pass_rename hf]
  apply map_bind
  intro t _
  have hslice : slice (source.map f) ((t.rename f).start + 1) ((t.rename f).current - 1) =
      (slice source (t.start + 1) (t.current - 1)).map (List.map f) := slice_rename _ _
  rw [hslice]
  apply map_bind
  intro value _
  exact push_rename .string (some (.string value))

theorem begin_rename (c : Char) :
    begin (source.map f) (f c) (s.rename f) = (begin source c s).map (State.rename f) := by
  have hblank : Piece.isBlank (f c) = Piece.isBlank c := hf.test (fun _ => not_stray_of_isBlank) c
  have hdigit : (f c).isDigit = c.isDigit := hf.test (fun _ => not_stray_of_isDigit) c
  have hword : Piece.isWordStart (f c) = Piece.isWordStart c := by
    apply hf.test
    intro c hc
    exact not_stray_of_isWordChar (by rw [Piece.isWordChar, hc, Bool.true_or])
  have hquote : f c = '"' ↔ c = '"' := hf.eq_iff (by decide) c
  simp only [begin, hf.single, hblank, hdigit, hword, hquote]
  cases Symbol.single? c with
  | some symbol =>
    dsimp only
    split
    · rfl
    cases symbol.withEqual? with
    | some long => rfl
    | none => exact push_rename _ none
  | none =>
    dsimp only
    split
    · rfl
    split
    · rfl
    split
    · rfl
    split
    · rfl
    · exact congrArg Except.ok (rename_finding (.problem ⟨s.startPlace, .unexpected c⟩))

/-! ## Steps -/

omit hf in
/-- What was read of a number are digits and a point. -/
theorem lexeme_number (h : Reached source s) (hmode : s.mode = .whole ∨ s.mode = .fraction) :
    ∀ text, lexeme source s = .ok text → ∀ c ∈ text, ¬ Stray c := by
  rcases h with (⟨hbetween, -⟩ | @⟨before, part, rest, hb, h⟩) | ⟨hhalted, -⟩
  · rw [hbetween] at hmode
    simp at hmode
  · intro text htext
    obtain rfl : part = text := Except.ok.inj (h.lexeme_eq.symm.trans htext)
    intro c hc
    rcases hmode with hmode | hmode
    · rw [hmode] at hb
      exact not_stray_of_isDigit (hb.2 c hc)
    · rw [hmode] at hb
      obtain ⟨ds, es, rfl, hds, hes⟩ := hb
      simp only [List.mem_append, List.mem_cons] at hc
      rcases hc with hc | rfl | hc
      · exact not_stray_of_isDigit (hds.2 c hc)
      · decide
      · exact not_stray_of_isDigit (hes.2 c (List.mem_append_left _ hc))
  · rw [hhalted] at hmode
    simp at hmode

/-- **One step.** Inside of a number nothing is stray, and every other step reads characters by
tests that tell no stray character from another. -/
theorem step_rename (h : Reached source s) :
    step (source.map f) (s.rename f) = (step source s).map (State.rename f) := by
  have hmode : (s.rename f).mode = s.mode := rfl
  have hdigit : (peek (source.map f) (s.rename f)).isDigit = (peek source s).isDigit :=
    peek_rename hf fun _ => not_stray_of_isDigit
  cases hm : s.mode with
  | between =>
    simp only [step, hmode, hm, atEnd_rename]
    split <;> rfl
  | first =>
    simp only [step, hmode, hm, advance_rename hf]
    apply map_bind
    intro x _
    exact begin_rename hf x.1
  | pair short long =>
    simp only [step, hmode, hm, eat_rename hf (d := '=') (by decide)]
    apply map_bind
    intro x _
    exact push_rename _ none
  | slash =>
    simp only [step, hmode, hm, eat_rename hf (d := '/') (by decide)]
    apply map_bind
    rintro ⟨eaten, t⟩ _
    cases eaten with
    | true => rfl
    | false => exact push_rename _ none
  | comment =>
    simp only [step, hmode, hm, atEnd_rename, ne_eq, peek_rename_eq hf (d := '\n') (by decide)]
    split
    · exact pass_rename hf
    · rfl
  | string =>
    simp only [step, hmode, hm, atEnd_rename, ne_eq, peek_rename_eq hf (d := '"') (by decide)]
    split
    · exact pass_rename hf
    split
    · exact congrArg Except.ok (rename_finding (.problem ⟨s.place, .unterminated⟩))
    · exact closeString_rename hf
  | whole =>
    have hnext : (peekNext (source.map f) (s.rename f)).isDigit = (peekNext source s).isDigit :=
      peekNext_rename hf fun _ => not_stray_of_isDigit
    simp only [step, hmode, hm, hdigit, hnext, peek_rename_eq hf (d := '.') (by decide)]
    split
    · exact pass_rename hf
    split
    · rw [pass_rename hf]
      apply map_bind
      intro t _
      rfl
    · exact pushNumber_rename hf (lexeme_number h (.inl hm))
  | fraction =>
    simp only [step, hmode, hm, hdigit]
    split
    · exact pass_rename hf
    · exact pushNumber_rename hf (lexeme_number h (.inr hm))
  | word =>
    have hword : Piece.isWordChar (peek (source.map f) (s.rename f)) =
        Piece.isWordChar (peek source s) := peek_rename hf fun _ => not_stray_of_isWordChar
    simp only [step, hmode, hm, hword]
    split
    · exact pass_rename hf
    · exact pushWord_rename hf
  | unread => simp only [step, hmode, hm]; rfl
  | halted => simp only [step, hmode, hm]; rfl

/-- **A run** goes through renamed states. -/
theorem states_rename (source : List Char) (n : Nat) :
    states (source.map f) n = (states source n).map (State.rename f) := by
  induction n with
  | zero => rfl
  | succ n ih =>
    obtain ⟨s, hs, hreached, -⟩ := states_reached source n
    rw [hs] at ih
    rw [states_succ ih, states_succ hs, step_rename hf hreached]

end

/-- A run has halted at the end of the text only. -/
theorem current_of_halted {source : List Char} {s : State} (h : Reached source s)
    (hmode : s.mode = .halted) : s.current = source.length := by
  rcases h with hrun | ⟨-, h⟩
  · exact absurd hmode hrun.mode_ne.1
  · exact h.current

end Cursor

/-! ## Scans -/

section
variable {f : Char → Char}

theorem tokens_rename (fs : List Finding) :
    (fs.map (Finding.rename f)).filterMap Finding.token? =
      (fs.filterMap Finding.token?).map (Token.rename f) := by
  rw [List.filterMap_map, List.map_filterMap]
  refine List.filterMap_congr ?_
  intro x _
  cases x <;> rfl

theorem diagnostics_rename (fs : List Finding) :
    (fs.map (Finding.rename f)).filterMap Finding.diagnostic? =
      (fs.filterMap Finding.diagnostic?).map (Diagnostic.rename f) := by
  rw [List.filterMap_map, List.map_filterMap]
  refine List.filterMap_congr ?_
  intro x _
  cases x <;> rfl

/-- The scans are what the runs have found when they halt. -/
theorem scan_rename (hf : Renaming f) (source : List Char) :
    scan (source.map f) = ⟨(scan source).findings.map (Finding.rename f), (scan source).stop⟩ := by
  obtain ⟨s, hs, -, hscan⟩ := Cursor.states_halted source
  obtain ⟨s', hs', -, hscan'⟩ := Cursor.states_halted (source.map f)
  rw [List.length_map, Cursor.states_rename hf, hs] at hs'
  obtain rfl : s.rename f = s' := Except.ok.inj hs'
  rw [← hscan', ← hscan]
  rfl

/-- **Stray characters are alike.** In the scan of a text with other stray characters in their
places, the texts of the tokens, the values of the strings and the reported characters are renamed,
and nothing else is changed: no kind, no place and no length. The two runs are side by side at every
step. U+0000 is a stray character, and a run halts behind the last character only. -/
theorem scan_renamed (hf : Renaming f) (source : List Char) :
    (scan (source.map f)).tokens = (scan source).tokens.map (Token.rename f) ∧
      (scan (source.map f)).diagnostics = (scan source).diagnostics.map (Diagnostic.rename f) ∧
      (scan (source.map f)).tokens.map (fun t => (t.kind, t.start, t.length)) =
        (scan source).tokens.map (fun t => (t.kind, t.start, t.length)) ∧
      (scan (source.map f)).diagnostics.map Diagnostic.place =
        (scan source).diagnostics.map Diagnostic.place ∧
      (∀ n, Cursor.states (source.map f) n =
        (Cursor.states source n).map (Cursor.State.rename f)) ∧
      Stray '\x00' ∧
      ∀ n s, Cursor.states source n = .ok s → s.mode = .halted → s.current = source.length := by
  have htokens : (scan (source.map f)).tokens = (scan source).tokens.map (Token.rename f) := by
    rw [scan_rename hf, Scan.tokens, Scan.tokens, tokens_rename, List.map_append]
    rfl
  have hdiagnostics : (scan (source.map f)).diagnostics =
      (scan source).diagnostics.map (Diagnostic.rename f) := by
    rw [scan_rename hf, Scan.diagnostics, Scan.diagnostics, diagnostics_rename]
  refine ⟨htokens, hdiagnostics, ?_, ?_, Cursor.states_rename hf source, by decide, ?_⟩
  · simp [htokens, List.map_map, Function.comp_def]
  · simp [hdiagnostics, List.map_map, Function.comp_def]
  · intro n s hs hmode
    obtain ⟨t, ht, hreached, -⟩ := Cursor.states_reached source n
    obtain rfl : t = s := Except.ok.inj (ht.symm.trans hs)
    exact Cursor.current_of_halted hreached hmode

/-- Two stray characters change places. -/
def exchange (a b c : Char) : Char := if c = a then b else if c = b then a else c

theorem renaming_exchange {a b : Char} (ha : Stray a) (hb : Stray b) :
    Renaming (exchange a b) where
  stray c hc := by
    unfold exchange
    split_ifs
    · exact hb
    · exact ha
    · exact hc
  fixed c hc := by
    have hca : c ≠ a := fun h => hc (h ▸ ha)
    have hcb : c ≠ b := fun h => hc (h ▸ hb)
    rw [exchange, if_neg hca, if_neg hcb]

/-- U+0000 behind a digit, a point and an operator, and in a string and a comment. -/
theorem scan_renamed_nul :
    Renaming (exchange '\x00' 'é') ∧
      (scan "1é.é=é\"aé\"//é\né".toList).tokens =
        (scan "1\x00.\x00=\x00\"a\x00\"//\x00\n\x00".toList).tokens.map
          (Token.rename (exchange '\x00' 'é')) ∧
      (scan "1é.é=é\"aé\"//é\né".toList).diagnostics.length = 4 := by
  have hf : Renaming (exchange '\x00' 'é') := renaming_exchange (by decide) (by decide)
  have h := scan_renamed hf "1\x00.\x00=\x00\"a\x00\"//\x00\n\x00".toList
  have htext : "1\x00.\x00=\x00\"a\x00\"//\x00\n\x00".toList.map (exchange '\x00' 'é') =
      "1é.é=é\"aé\"//é\né".toList := by decide
  rw [htext] at h
  exact ⟨hf, h.1, by decide +kernel⟩

end
end Lox

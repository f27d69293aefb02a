import Mathlib.Data.List.Induction
import Lox.Cursor.Live
import Lox.Proofs.Totality

/-!
# All reporters tell the same story

A scan hands its problems to a reporter one by one and never asks it for anything, so it gives every
reporter the same problems, and keeps the same tokens, whatever was reported before. A collection and
a stream count what came since the last reset; the stream writes all that ever came, or loses it.

Results:
* `step_behind`, `live_follows`: what was found before makes no difference to a step, so a scan that
  reports on the way follows the run of the cursor.
* `live_halts`: such a scan gives what the scan of the text gives, for every reporter.
* `Agree.apply`, `agree_after`: one step on three reporters at once, and so any number of steps.
* `reporters_agree`: the story that they tell.
-/
namespace Lox

namespace Cursor

/-! ## What was found before -/

/-- The same state, with more found before. -/
def State.behind (fs : List Finding) (s : State) : State := { s with found := fs ++ s.found }

section
variable {source : List Char} {fs : List Finding} {s : State}

theorem finding_behind (f : Finding) : (s.behind fs).finding f = (s.finding f).behind fs := by
  simp [State.behind, State.finding]

theorem push_behind (kind : Kind) (literal : Option Literal) :
    push source kind literal (s.behind fs) = (push source kind literal s).map (State.behind fs) := by
  have hlexeme : lexeme source (s.behind fs) = (lexeme source s).map id := by
    cases hl : lexeme source s <;> exact hl
  rw [push, push, hlexeme]
  apply map_bind
  intro text _
  exact congrArg Except.ok (finding_behind _)

theorem advance_behind : advance source (s.behind fs) =
    (advance source s).map (Prod.map id (State.behind fs)) := by
  have hcurrent : (s.behind fs).current = s.current := rfl
  rw [advance, advance, hcurrent]
  cases source[s.current]? <;> rfl

theorem pass_behind : pass source (s.behind fs) = (pass source s).map (State.behind fs) := by
  rw [pass, pass, advance_behind]
  apply map_bind
  intro x _
  rfl

theorem eat_behind (d : Char) : eat source d (s.behind fs) =
    (eat source d s).map (Prod.map id (State.behind fs)) := by
  have hend : atEnd source (s.behind fs) = atEnd source s := rfl
  have hpeek : peek source (s.behind fs) = peek source s := rfl
  rw [eat, eat, hend, hpeek, pass_behind]
  split
  · rfl
  · apply map_bind
    intro t _
    rfl

theorem pushWord_behind :
    pushWord source (s.behind fs) = (pushWord source s).map (State.behind fs) := by
  have hlexeme : lexeme source (s.behind fs) = (lexeme source s).map id := by
    cases hl : lexeme source s <;> exact hl
  rw [pushWord, pushWord, hlexeme]
  apply map_bind
  intro text _
  exact push_behind _ none

theorem pushNumber_behind :
    pushNumber source (s.behind fs) = (pushNumber source s).map (State.behind fs) := by
  have hlexeme : lexeme source (s.behind fs) = (lexeme source s).map id := by
    cases hl : lexeme source s <;> exact hl
  rw [pushNumber, pushNumber, hlexeme]
  apply map_bind
  intro text _
  cases hx : Binary64.ofText? text with
  | none => simp only [id, hx]; rfl
  | some x => simp only [id, hx]; exact push_behind _ _

theorem closeString_behind :
    closeString source (s.behind fs) = (closeString source s).map (State.behind fs) := by
  rw [closeString, closeString, pass_behind]
  apply map_bind
  intro t _
  have hslice : slice source ((t.behind fs).start + 1) ((t.behind fs).current - 1) =
      (slice source (t.start + 1) (t.current - 1)).map id := by
    cases hv : slice source (t.start + 1) (t.current - 1) <;> exact hv
  rw [hslice]
  apply map_bind
  intro value _
  exact push_behind _ _

theorem begin_behind (c : Char) :
    begin source c (s.behind fs) = (begin source c s).map (State.behind fs) := by
  unfold begin
  cases Symbol.single? c with
  | some symbol =>
    dsimp only
    split
    · rfl
    cases symbol.withEqual? with
    | some long => rfl
    | none => exact push_behind _ none
  | none =>
    dsimp only
    split
    · rfl
    split
    · rfl
    split
    · rfl
    split
    · rfl
    · exact congrArg Except.ok (finding_behind _)

/-- **One step** does the same, whatever was found before. -/
theorem step_behind : step source (s.behind fs) = (step source s).map (State.behind fs) := by
  have hmode : (s.behind fs).mode = s.mode := rfl
  have hend : atEnd source (s.behind fs) = atEnd source s := rfl
  have hpeek : peek source (s.behind fs) = peek source s := rfl
  have hnext : peekNext source (s.behind fs) = peekNext source s := rfl
  cases hm : s.mode with
  | between =>
    simp only [step, hmode, hm, hend]
    split <;> rfl
  | first =>
    simp only [step, hmode, hm, advance_behind]
    apply map_bind
    intro x _
    exact begin_behind x.1
  | pair short long =>
    simp only [step, hmode, hm, eat_behind]
    apply map_bind
    intro x _
    exact push_behind _ none
  | slash =>
    simp only [step, hmode, hm, eat_behind]
    apply map_bind
    rintro ⟨eaten, t⟩ _
    cases eaten with
    | true => rfl
    | false => exact push_behind _ none
  | comment =>
    simp only [step, hmode, hm, hend, hpeek]
    split
    · exact pass_behind
    · rfl
  | string =>
    simp only [step, hmode, hm, hend, hpeek]
    split
    · exact pass_behind
    split
    · exact congrArg Except.ok (finding_behind _)
    · exact closeString_behind
  | whole =>
    simp only [step, hmode, hm, hpeek, hnext]
    split
    · exact pass_behind
    split
    · rw [pass_behind]
      apply map_bind
      intro t _
      rfl
    · exact pushNumber_behind
  | fraction =>
    simp only [step, hmode, hm, hpeek]
    split
    · exact pass_behind
    · exact pushNumber_behind
  | word =>
    simp only [step, hmode, hm, hpeek]
    split
    · exact pass_behind
    · exact pushWord_behind
  | unread => simp only [step, hmode, hm]; rfl
  | halted => simp only [step, hmode, hm]; rfl

end

/-! ## A scan that reports on the way -/

namespace Live

variable {ρ : Type} [Reporter ρ] {source : List Char} {r : ρ} {s s' : State} {l : Live ρ}

theorem foldl_handOver (fs : List Finding) (l : Live ρ) :
    fs.foldl handOver l =
      { cursor := l.cursor
        tokens := l.tokens ++ fs.filterMap Finding.token?
        reporter := Reporter.reportAll l.reporter (fs.filterMap Finding.diagnostic?) } := by
  induction fs generalizing l with
  | nil => simp [Reporter.reportAll]
  | cons f fs ih =>
    rw [List.foldl_cons, ih]
    cases f <;> simp [handOver, List.filterMap_cons, Finding.token?, Finding.diagnostic?,
      Reporter.reportAll]

/-- The scan stands where the cursor stands, has kept the tokens that were found, and has handed over
the problems. -/
structure Follows (r : ρ) (s : State) (l : Live ρ) : Prop where
  cursor : { l.cursor with found := [] } = { s with found := [] }
  tokens : l.tokens = s.found.filterMap Finding.token?
  reporter : l.reporter = Reporter.reportAll r (s.found.filterMap Finding.diagnostic?)

/-- **One step** of the scan follows the step of the cursor. -/
theorem Follows.step (h : Follows r s l) (hs : Cursor.step source s = .ok s') :
    ∃ l', Live.step source l = .ok l' ∧ Follows r s' l' := by
  have hsplit : s = ({ s with found := [] } : State).behind s.found := by simp [State.behind]
  rw [hsplit, step_behind] at hs
  cases ht : Cursor.step source { s with found := [] } with
  | error e =>
    rw [ht] at hs
    cases hs
  | ok t =>
    rw [ht] at hs
    obtain rfl := Except.ok.inj hs
    have hlive : Live.step source l = .ok (t.found.foldl handOver { l with cursor := t }) := by
      rw [Live.step, h.cursor, ht]
      rfl
    refine ⟨_, hlive, ?_⟩
    rw [foldl_handOver]
    constructor
    · rfl
    · simp [State.behind, h.tokens]
    · simp [State.behind, h.reporter, Reporter.reportAll]

/-- A scan that reports follows the run of the cursor. -/
theorem live_follows (r : ρ) {n : Nat} (hs : Cursor.states source n = .ok s) :
    ∃ l, states source r n = .ok l ∧ Follows r s l := by
  induction n generalizing s with
  | zero =>
    cases hs
    exact ⟨_, rfl, rfl, rfl, rfl⟩
  | succ n ih =>
    obtain ⟨t, ht, -⟩ := states_reached source n
    obtain ⟨l, hl, hfollows⟩ := ih ht
    rw [states_succ ht] at hs
    obtain ⟨l', hstep, hfollows'⟩ := hfollows.step hs
    refine ⟨l', ?_, hfollows'⟩
    rw [states, hl]
    exact hstep

/-- **Every such scan halts**, and gives the tokens of the text and the reporter with its
diagnostics. -/
theorem live_halts (source : List Char) (r : ρ) :
    ∃ l, states source r (3 * source.length + 2) = .ok l ∧ l.cursor.mode = .halted ∧
      l.result = Reporter.scanInto r source := by
  obtain ⟨s, hs, hmode, hscan⟩ := states_halted source
  obtain ⟨l, hl, hfollows⟩ := live_follows r hs
  have hsame := congrArg State.mode hfollows.cursor
  have hplace := congrArg State.place hfollows.cursor
  refine ⟨l, hl, hsame.trans hmode, ?_⟩
  rw [result, hfollows.tokens, hfollows.reporter, Reporter.scanInto, ← hscan]
  exact congrArg (fun p => (_ ++ [Token.endOfText p], _)) hplace

end Live
end Cursor

/-! ## Steps on a reporter -/

namespace Reporter

/-- What is done with a reporter. -/
inductive Step
  | report (d : Diagnostic)
  | scan (source : List Char)
  | reset
  deriving DecidableEq, Repr

/-- What a step tells the reporter. -/
def Step.diagnostics : Step → List Diagnostic
  | report d => [d]
  | scan source => (Lox.scan source).diagnostics
  | reset => []

/-- All that steps tell. -/
def told (steps : List Step) : List Diagnostic := steps.flatMap Step.diagnostics

/-- What is told after the last reset. -/
def sinceReset (steps : List Step) : List Diagnostic :=
  told (steps.reverse.takeWhile (· ≠ .reset)).reverse

/-- The lines of diagnostics. -/
def lines (ds : List Diagnostic) : List Char := ds.flatMap fun d => d.message ++ ['\n']

section
variable {ρ : Type} [Reporter ρ]

def Step.apply (r : ρ) : Step → ρ
  | .report d => Reporter.report r d
  | .scan source => (scanInto r source).2
  | .reset => Reporter.reset r

/-- The reporter after some steps. -/
def after (r : ρ) (steps : List Step) : ρ := steps.foldl Step.apply r

end

theorem told_append (steps more : List Step) : told (steps ++ more) = told steps ++ told more :=
  List.flatMap_append

theorem told_singleton (step : Step) : told [step] = step.diagnostics := List.flatMap_singleton ..

theorem sinceReset_append (steps : List Step) (step : Step) :
    sinceReset (steps ++ [step]) =
      if step = .reset then [] else sinceReset steps ++ step.diagnostics := by
  unfold sinceReset
  rw [List.reverse_append, List.reverse_singleton, List.singleton_append, List.takeWhile_cons]
  by_cases h : step = .reset
  · simp [h, told]
  · simp [h, told]

/-- Anything but a reset reports what the step tells. -/
theorem apply_eq {ρ : Type} [Reporter ρ] (r : ρ) (step : Step) :
    step.apply r = if step = .reset then reset r else reportAll r step.diagnostics := by
  cases step <;> rfl

/-! ## Many diagnostics at once -/

theorem reportAll_collection (r : Collection) (ds : List Diagnostic) :
    reportAll r ds = ⟨r.reported ++ ds⟩ := by
  induction ds generalizing r with
  | nil => simp [reportAll]
  | cons d ds ih =>
    have hrest := ih ⟨r.reported ++ [d]⟩
    rw [List.append_assoc] at hrest
    exact hrest

theorem reportAll_open (text : List Char) (n : Nat) (ds : List Diagnostic) :
    reportAll (⟨.open text, n⟩ : Stream) ds = ⟨.open (text ++ lines ds), n + ds.length⟩ := by
  induction ds generalizing text n with
  | nil => simp [reportAll, lines]
  | cons d ds ih =>
    have hrest := ih (text ++ d.message ++ ['\n']) (n + 1)
    simpa [reportAll, report, Outlet.writeLine, lines, Nat.add_comm, Nat.add_left_comm] using hrest

theorem reportAll_broken (n : Nat) (ds : List Diagnostic) :
    reportAll (⟨.broken, n⟩ : Stream) ds = ⟨.broken, n + ds.length⟩ := by
  induction ds generalizing n with
  | nil => rfl
  | cons d ds ih =>
    have hrest := ih (n + 1)
    simpa [reportAll, report, Outlet.writeLine, Nat.add_comm, Nat.add_left_comm] using hrest

/-! ## Errors -/

/-- A collection has an error if it is not empty, which is what it counts. -/
theorem hadError_collection (r : Collection) : hadError r = decide (0 < count r) := by
  show (!r.reported.isEmpty) = decide (0 < r.reported.length)
  rw [Bool.eq_iff_iff, Bool.not_eq_true', List.isEmpty_eq_false_iff, decide_eq_true_iff,
    List.length_pos_iff]

theorem hadError_stream (r : Stream) : hadError r = decide (0 < count r) := rfl

/-! ## Three reporters -/

/-- What a collection, a stream with a working outlet and one with a broken outlet are after the
same steps. -/
structure Agree (steps : List Step) (kept : Collection) (shown lost : Stream) : Prop where
  kept : kept = ⟨sinceReset steps⟩
  shown : shown = ⟨.open (lines (told steps)), (sinceReset steps).length⟩
  lost : lost = ⟨.broken, (sinceReset steps).length⟩

theorem agree_nil : Agree [] {} {} { outlet := .broken } := ⟨rfl, rfl, rfl⟩

/-- **One more step** on all three. -/
theorem Agree.apply {steps : List Step} {kept : Collection} {shown lost : Stream}
    (h : Agree steps kept shown lost) (step : Step) :
    Agree (steps ++ [step]) (step.apply kept) (step.apply shown) (step.apply lost) := by
  obtain ⟨rfl, rfl, rfl⟩ := h
  simp only [apply_eq]
  by_cases hreset : step = .reset
  · subst hreset
    constructor <;> simp [sinceReset_append, told_append, told_singleton, Step.diagnostics, reset]
  · simp only [if_neg hreset, reportAll_collection, reportAll_open, reportAll_broken]
    constructor <;> simp [sinceReset_append, hreset, told_append, told_singleton, lines]

theorem agree_after (steps : List Step) :
    Agree steps (after {} steps) (after {} steps) (after { outlet := .broken } steps) := by
  induction steps using List.reverseRec with
  | nil => exact agree_nil
  | append_singleton steps step ih =>
    simp only [after, List.foldl_append]
    exact ih.apply step

/-- **All reporters tell the same story.** After any steps a collection, a stream and a stream with a
broken outlet have an error together, and count the same: what was told since the last reset. The
collection holds just that; the stream has written all that was ever told, a line each, and the
broken one nothing. A scan that reports to any of them as they are then halts, with the tokens of the
text, and leaves the reporter as the step says. -/
theorem reporters_agree (steps : List Step) :
    let kept : Collection := after {} steps
    let shown : Stream := after {} steps
    let lost : Stream := after { outlet := .broken } steps
    (hadError kept = hadError shown ∧ hadError shown = hadError lost) ∧
    (count kept = (sinceReset steps).length ∧ count shown = (sinceReset steps).length ∧
      count lost = (sinceReset steps).length) ∧
    kept.reported = sinceReset steps ∧ shown.outlet.written = lines (told steps) ∧
    lost.outlet.written = [] ∧
    ∀ source : List Char,
      (∃ l, Cursor.Live.states source kept (3 * source.length + 2) = .ok l ∧
        l.cursor.mode = .halted ∧
        l.result = ((Lox.scan source).tokens, Step.apply kept (.scan source))) ∧
      (∃ l, Cursor.Live.states source shown (3 * source.length + 2) = .ok l ∧
        l.cursor.mode = .halted ∧
        l.result = ((Lox.scan source).tokens, Step.apply shown (.scan source))) ∧
      ∃ l, Cursor.Live.states source lost (3 * source.length + 2) = .ok l ∧
        l.cursor.mode = .halted ∧
        l.result = ((Lox.scan source).tokens, Step.apply lost (.scan source)) := by
  intro kept shown lost
  obtain ⟨hkept, hshown, hlost⟩ := agree_after steps
  have hcounts : count kept = (sinceReset steps).length ∧ count shown = (sinceReset steps).length ∧
      count lost = (sinceReset steps).length :=
    ⟨congrArg count hkept, congrArg count hshown, congrArg count hlost⟩
  refine ⟨?_, hcounts, congrArg Collection.reported hkept,
    congrArg (·.outlet.written) hshown, congrArg (·.outlet.written) hlost, fun source =>
    ⟨Cursor.Live.live_halts source kept, Cursor.Live.live_halts source shown,
      Cursor.Live.live_halts source lost⟩⟩
  obtain ⟨h1, h2, h3⟩ := hcounts
  simp only [hadError_collection, hadError_stream, h1, h2, h3, and_self]

end Reporter
end Lox

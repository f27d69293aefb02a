import Lox.Command.Loop
import Lox.Proofs.Script

/-!
# Lines at the prompt do not depend on each other

The loop of the prompt keeps a buffer and a reporter from one turn to the next. At the start of each
turn the reporter has been reset, and the buffer is emptied before it is read into; so a turn does
what it would do as the first one, and the loop is the session that takes the lines one by one.
From there a session on two inputs, one after the other, falls apart into two sessions.

Results:
* `turn_cases`: what one turn does, from any state in which the reporter was reset.
* `run_prompted`: the loop writes what a session on the lines that are left writes.
* `lines_append`, `prompted_append`: inputs and sessions one after the other.
* `prompt_lines_independent`: the session on two inputs, and how sessions end.
-/
namespace Lox
namespace Command

open Utf8 (ascii encode)

theorem Transcript.append_assoc (a b c : Transcript) : a ++ b ++ c = a ++ (b ++ c) := by
  simp only [Transcript.append_eq, List.append_assoc]

/-! ## The loop and the lines -/

namespace Loop

variable {s : Session} {t : State}

/-- What was written up to now. -/
def State.transcript (t : State) : Transcript := ⟨t.output, t.reporter.outlet.written⟩

/-- The state before a turn: the outlet takes text, and no diagnostic is remembered. The buffer may
hold anything. -/
structure State.Ready (t : State) : Prop where
  outlet : t.reporter.outlet = .open t.reporter.outlet.written
  count : t.reporter.count = 0

theorem lines_nextLine {input : Bytes} (h : input ≠ []) :
    Session.lines input = (nextLine input).1 :: Session.lines (nextLine input).2 := by
  have hall : ∀ b ∈ input.takeWhile (· != lineFeed), b ≠ lineFeed := by
    intro b hb
    simpa using List.mem_takeWhile_imp hb
  have hfeed : lineFeed ∉ input.takeWhile (· != lineFeed) := fun hm => hall _ hm rfl
  have hsplit := List.takeWhile_append_dropWhile (p := (· != lineFeed)) (l := input)
  unfold nextLine
  cases hrest : input.dropWhile (· != lineFeed) with
  | nil =>
    rw [hrest, List.append_nil] at hsplit
    rw [hsplit] at hfeed
    simp only [hsplit, List.take_nil, List.append_nil, List.drop_nil]
    exact lines_last h hfeed
  | cons b rest =>
    have hb : b = lineFeed := by
      have hhead := List.head?_dropWhile_not (· != lineFeed) input
      rw [hrest] at hhead
      simpa using hhead
    rw [hrest, hb] at hsplit
    simp only [hb, List.take_succ_cons, List.take_zero, List.drop_succ_cons, List.drop_zero]
    conv_lhs => rw [← hsplit]
    exact lines_line hfeed rest

theorem hear_open (s : Session) (x : Finding) (input : Bytes) (buffer output text : List Char)
    (n : Nat) :
    State.hear s ⟨input, buffer, ⟨.open text, n⟩, output⟩ x =
      ⟨input, buffer, ⟨.open (text ++ s.reported x), n + x.diagnostic?.toList.length⟩, output⟩ := by
  cases x <;>
    simp [State.hear, State.say, Outlet.write, Outlet.writeLine, Reporter.report, Session.reported,
      Finding.diagnostic?]

/-- A scan as it is heard: its findings are written, and the diagnostics are counted. -/
theorem hear_all (s : Session) (fs : List Finding) (input : Bytes) (buffer output text : List Char)
    (n : Nat) :
    fs.foldl (State.hear s) ⟨input, buffer, ⟨.open text, n⟩, output⟩ =
      ⟨input, buffer, ⟨.open (text ++ fs.flatMap s.reported),
        n + (fs.filterMap Finding.diagnostic?).length⟩, output⟩ := by
  induction fs generalizing text n with
  | nil => simp
  | cons x fs ih =>
    rw [List.foldl_cons, hear_open, ih, List.flatMap_cons, List.append_assoc, Nat.add_assoc,
      ← List.length_append]
    cases x <;> rfl

theorem reset_open (s : Session) (input : Bytes) (buffer output text : List Char) (n : Nat) :
    State.reset s ⟨input, buffer, ⟨.open text, n⟩, output⟩ =
      ⟨input, buffer, ⟨.open (text ++ if n = 0 then [] else s.log.write (.badLine n)), 0⟩,
        output⟩ := by
  cases n <;> simp [State.reset, State.say, Outlet.write, Reporter.hadError, Reporter.count,
    Reporter.reset]

/-- Answering the line in the buffer does what a session does with the line, and what goes on after
it is ready for the next turn. -/
theorem answer_open {line : Bytes} {buffer : List Char} (h : Utf8.decode? line = some buffer)
    (s : Session) (input : Bytes) (output text : List Char) :
    ∃ u, answer s ⟨input, buffer, ⟨.open text, 0⟩, output⟩ =
        (u, if (s.answer line).2 = .done then none else some (s.answer line).2) ∧
      u.input = input ∧ u.transcript = ⟨output, text⟩ ++ (s.answer line).1 ∧
      ((s.answer line).2 = .done → u.Ready) := by
  unfold answer Session.answer
  rw [h]
  simp only [hear_all, State.say, Outlet.write]
  cases s.echo (scan (Session.trimEnd buffer)).tokens with
  | error failure =>
    refine ⟨_, rfl, rfl, ?_, fun hdone => ?_⟩
    · simp [State.transcript, Transcript.append_eq, Outlet.written]
    · cases hdone
  | ok echoed =>
    refine ⟨_, rfl, by rw [input_reset], ?_, fun _ => ?_⟩
    · simp [reset_open, State.transcript, Transcript.append_eq, Outlet.written, Scan.diagnostics]
    · rw [reset_open]
      exact ⟨rfl, rfl⟩

theorem showPrompt_errors (s : Session) : s.showPrompt.1.errors = [] := by
  unfold Session.showPrompt
  split
  · rfl
  · split
    · rfl
    · split <;> rfl

/-- A session goes no further than a prompt that cannot be shown. -/
theorem prompted_stopped {shown : Transcript} {ending : Ending} (h : s.showPrompt = (shown, ending))
    (hending : ending ≠ .done) (ls : List Bytes) : s.prompted ls = (shown, ending) := by
  cases ls with
  | nil => exact h
  | cons line ls =>
    rw [Session.prompted, h]
    cases ending with
    | done => exact absurd rfl hending
    | failed failure => rfl
    | brokenOff cause => rfl

/-! ### Turns -/

theorem nextLine_length {input : Bytes} (h : input ≠ []) :
    ∃ n, (nextLine input).1.length = n + 1 := by
  refine Nat.exists_eq_add_one_of_ne_zero ?_
  cases input with
  | nil => exact absurd rfl h
  | cons b bs => by_cases hb : b = lineFeed <;> simp [nextLine, hb]

/-- The state when the prompt has been shown. -/
def State.prompted (t : State) (shown : Transcript) (buffer : List Char) : State :=
  { t with output := t.output ++ shown.output, buffer := buffer }

theorem transcript_prompted {shown : Transcript} {ending : Ending}
    (h : s.showPrompt = (shown, ending)) (t : State) (buffer : List Char) :
    (t.prompted shown buffer).transcript = t.transcript ++ shown := by
  have herrors : shown.errors = [] := by rw [← showPrompt_errors s, h]
  simp [State.transcript, State.prompted, Transcript.append_eq, herrors]

theorem turn_stopped {shown : Transcript} {ending : Ending} (h : s.showPrompt = (shown, ending))
    (hending : ending ≠ .done) : turn s t = (t.prompted shown t.buffer, some ending) := by
  unfold turn
  rw [h]
  cases ending with
  | done => exact absurd rfl hending
  | failed failure => rfl
  | brokenOff cause => rfl

section
variable {shown : Transcript} (hshown : s.showPrompt = (shown, .done))
include hshown

theorem turn_end (h : t.input = []) : turn s t = (t.prompted shown [], some .done) := by
  simp [turn, hshown, readLine, h, nextLine, Utf8.decode?_nil, State.prompted]

theorem turn_unread (h : Utf8.decode? (nextLine t.input).1 = none) :
    turn s t = (t.prompted shown [], some (.failed (.output .notText))) := by
  simp [turn, hshown, readLine, h, State.prompted]

/-- Only the line that was read is in the buffer when it is answered. -/
theorem turn_answers {line : List Char} (hne : t.input ≠ [])
    (h : Utf8.decode? (nextLine t.input).1 = some line) :
    turn s t =
      answer s ⟨(nextLine t.input).2, line, t.reporter, t.output ++ shown.output⟩ := by
  obtain ⟨n, hn⟩ := nextLine_length hne
  simp [turn, hshown, readLine, h, hn]

theorem turn_answered {line : List Char} (h : t.Ready) (hne : t.input ≠ [])
    (hd : Utf8.decode? (nextLine t.input).1 = some line) :
    ∃ u, turn s t = (u, if (s.answer (nextLine t.input).1).2 = .done then none
        else some (s.answer (nextLine t.input).1).2) ∧
      u.input = (nextLine t.input).2 ∧
      u.transcript = t.transcript ++ (shown ++ (s.answer (nextLine t.input).1).1) ∧
      ((s.answer (nextLine t.input).1).2 = .done → u.Ready) := by
  have hreporter : t.reporter = ⟨.open t.reporter.outlet.written, 0⟩ := by
    rw [← h.outlet, ← h.count]
  obtain ⟨u, hu, hrest, hwritten, hready⟩ := answer_open hd s (nextLine t.input).2
    (t.output ++ shown.output) t.reporter.outlet.written
  refine ⟨u, ?_, hrest, ?_, hready⟩
  · rw [turn_answers hshown hne hd, hreporter]
    exact hu
  · rw [hwritten, ← Transcript.append_assoc, ← transcript_prompted hshown t []]
    rfl

end

/-- **One turn** from a state that is ready for it: it ends the loop as a session on the lines that
are left ends, or it does the first part of that session, and the rest is left to the turns that
follow. -/
theorem turn_cases (h : t.Ready) :
    (∃ u, turn s t = (u, some (s.prompted (Session.lines t.input)).2) ∧
      u.transcript = t.transcript ++ (s.prompted (Session.lines t.input)).1) ∨
    (∃ u written, turn s t = (u, none) ∧ u.Ready ∧ u.transcript = t.transcript ++ written ∧
      s.prompted (Session.lines t.input) =
        (written ++ (s.prompted (Session.lines u.input)).1,
          (s.prompted (Session.lines u.input)).2)) := by
  cases hshown : s.showPrompt with
  | mk shown ending =>
    by_cases hending : ending = .done
    case neg =>
      rw [prompted_stopped hshown hending]
      exact .inl ⟨_, turn_stopped hshown hending, transcript_prompted hshown t _⟩
    subst hending
    by_cases hinput : t.input = []
    · rw [hinput, Session.lines, Session.prompted, hshown]
      exact .inl ⟨_, turn_end hshown hinput, transcript_prompted hshown t _⟩
    rw [lines_nextLine hinput, Session.prompted, hshown]
    cases hd : Utf8.decode? (nextLine t.input).1 with
    | none =>
      have hanswer : s.answer (nextLine t.input).1 = ({}, .failed (.output .notText)) := by
        rw [Session.answer, hd]
      simp only [hanswer]
      refine .inl ⟨_, turn_unread hshown hd, (transcript_prompted hshown t _).trans ?_⟩
      simp [Transcript.append_eq]
    | some line =>
      obtain ⟨u, hturn, hrest, hwritten, hready⟩ := turn_answered hshown h hinput hd
      cases hanswer : s.answer (nextLine t.input).1 with
      | mk answered ending =>
        rw [hanswer] at hturn hwritten hready
        by_cases hdone : ending = .done
        · subst hdone
          exact .inr ⟨u, shown ++ answered, hturn, hready rfl, hwritten, by rw [hrest]⟩
        · simp only [if_neg hdone] at hturn
          cases ending with
          | done => exact absurd rfl hdone
          | failed failure => exact .inl ⟨u, hturn, hwritten⟩
          | brokenOff cause => exact .inl ⟨u, hturn, hwritten⟩

/-- **The loop is the session** on the lines that are left, from any state that is ready for a
turn, whatever was in the buffer and whatever was written before. -/
theorem run_prompted (h : t.Ready) :
    (run s t).1.transcript = t.transcript ++ (s.prompted (Session.lines t.input)).1 ∧
      (run s t).2 = (s.prompted (Session.lines t.input)).2 := by
  fun_induction run s t with
  | case1 t u ending hturn =>
    rcases turn_cases h (s := s) with ⟨v, hv, hwritten⟩ | ⟨v, written, hv, -⟩
    · rw [hturn] at hv
      cases hv
      exact ⟨hwritten, rfl⟩
    · rw [hturn] at hv
      cases hv
  | case2 t u hturn ih =>
    rcases turn_cases h (s := s) with ⟨v, hv, -⟩ | ⟨v, written, hv, hready, hwritten, hsession⟩
    · rw [hturn] at hv
      cases hv
    · rw [hturn] at hv
      cases hv
      obtain ⟨hout, hend⟩ := ih hready
      rw [hsession, hout, hend, hwritten, Transcript.append_assoc]
      exact ⟨rfl, rfl⟩

/-- What the loop makes of an input. -/
def session (s : Session) (input : Bytes) : Transcript × Ending :=
  ((run s { input := input }).1.transcript, (run s { input := input }).2)

theorem session_eq (s : Session) (input : Bytes) :
    session s input = s.prompted (Session.lines input) := by
  obtain ⟨hwritten, hending⟩ := run_prompted (s := s) (t := { input := input }) ⟨rfl, rfl⟩
  exact Prod.ext hwritten hending

end Loop

/-! ## Inputs one after the other -/

/-- Nothing is read over a line feed. -/
theorem lines_append {x : Bytes} (h : x.getLast? = some (ascii '\n')) (y : Bytes) :
    Session.lines (x ++ y) = Session.lines x ++ Session.lines y := by
  induction x with
  | nil => cases h
  | cons b x ih =>
    cases x with
    | nil =>
      obtain rfl : b = ascii '\n' := Option.some.inj h
      exact lines_line (List.not_mem_nil) y
    | cons c x =>
      have hrest := ih h
      by_cases hb : b = ascii '\n'
      · have hcut (bs : Bytes) : Session.lines (b :: bs) = [b] :: Session.lines bs := by
          rw [Session.lines, if_pos hb]
        rw [List.cons_append, hcut, hcut, hrest]
        rfl
      · have hgrow {bs line : Bytes} {ls : List Bytes} (hl : Session.lines bs = line :: ls) :
            Session.lines (b :: bs) = (b :: line) :: ls := by
          rw [Session.lines, if_neg hb, hl]
        have hfirst := Loop.lines_nextLine (List.cons_ne_nil c x)
        rw [hfirst] at hrest
        rw [List.cons_append, hgrow hrest, hgrow hfirst]
        rfl

/-- The lines of an input that is text are text. -/
theorem lines_text {x : Bytes} (h : (Utf8.decode? x).isSome = true) :
    ∀ line ∈ Session.lines x, ∃ text, line = encode text := by
  obtain ⟨cs, hcs⟩ := Option.isSome_iff_exists.1 h
  rw [Utf8.decode?_iff.1 hcs]
  exact lines_encode cs

/-- **A line that is no text** ends the session, when the lines before it have been answered and one
more prompt was shown. -/
theorem prompted_unread {s : Session} (hs : s.output = .working) {ls : List Bytes}
    (h : ¬ ∀ line ∈ ls, (Utf8.decode? line).isSome = true) :
    s.prompted ls =
      (s.dialogue ((ls.takeWhile fun line => (Utf8.decode? line).isSome).map scanLine),
        .failed (.output .notText)) := by
  have htext : ∀ line ∈ ls.takeWhile fun line => (Utf8.decode? line).isSome,
      ∃ text, line = encode text := by
    intro line hl
    have hsome := List.mem_takeWhile_imp (p := fun line => (Utf8.decode? line).isSome) hl
    obtain ⟨text, ht⟩ := Option.isSome_iff_exists.1 hsome
    exact ⟨text, Utf8.decode?_iff.1 ht⟩
  have hall := prompted_append hs htext (ls.dropWhile fun line => (Utf8.decode? line).isSome)
  rw [List.takeWhile_append_dropWhile] at hall
  cases hrest : ls.dropWhile fun line => (Utf8.decode? line).isSome with
  | nil => exact absurd (List.dropWhile_eq_nil_iff.1 hrest) h
  | cons bad rest =>
    have hbad : Utf8.decode? bad = none := by
      have hhead := List.head?_dropWhile_not (fun line => (Utf8.decode? line).isSome) ls
      rw [hrest] at hhead
      simpa using hhead
    have hend : s.prompted (bad :: rest) = (⟨s.prompt, []⟩, .failed (.output .notText)) := by
      simp [Session.prompted, Session.showPrompt, hs, Session.answer, hbad, Transcript.append_eq]
    rw [hall, hrest, hend, dialogue_eq]

/-- **Prompt lines are independent.** The loop of the prompt is the session that answers the lines of
its input one by one. If the input is text that ends in a line feed and another input follows, then
it writes what it would have written for the first, but for the last prompt, and then what it would
have written for the second, and ends as it would have ended on the second. It ends well on every
text. A line that is no text ends it with a failure, and every line before is answered. A run that
scans its input, and can set up its log (`Start.Opens`), does what this session does, behind a warning
about its configuration. -/
theorem prompt_lines_independent {s : Session} (hs : s.output = .working) :
    (∀ input, Loop.session s input = s.prompted (Session.lines input)) ∧
    (∀ x y : Bytes, (Utf8.decode? x).isSome = true → x.getLast? = some (ascii '\n') →
      ∃ shown, (s.prompted (Session.lines x)).1.output = shown ++ s.prompt ∧
        (s.prompted (Session.lines (x ++ y))).1.output =
          shown ++ (s.prompted (Session.lines y)).1.output ∧
        (s.prompted (Session.lines (x ++ y))).1.errors =
          (s.prompted (Session.lines x)).1.errors ++ (s.prompted (Session.lines y)).1.errors ∧
        (s.prompted (Session.lines (x ++ y))).2 = (s.prompted (Session.lines y)).2) ∧
    (∀ x : Bytes, (Utf8.decode? x).isSome = true →
      (s.prompted (Session.lines x)).2.exitCode = 0) ∧
    (∀ x : Bytes, (¬ ∀ line ∈ Session.lines x, (Utf8.decode? line).isSome = true) →
      let read := (Session.lines x).takeWhile fun line => (Utf8.decode? line).isSome
      s.prompted (Session.lines x) =
          (s.dialogue (read.map scanLine), .failed (.output .notText)) ∧
        (s.prompted (Session.lines x)).2.exitCode = 74) ∧
    ∀ start : Start, start.Opens none s →
      (run start).output = (s.prompted (Session.lines start.input)).1.output ∧
        (run start).errors = loadWarning s.log (Config.load start.files start.environment).2 ++
          (s.prompted (Session.lines start.input)).1.errors ++
          (s.prompted (Session.lines start.input)).2.lines ∧
        (run start).exitCode = (s.prompted (Session.lines start.input)).2.exitCode := by
  refine ⟨Loop.session_eq s, ?_, ?_, ?_, ?_⟩
  · intro x y hx hend
    have htext := lines_text hx
    have hfirst := prompted_working hs htext
    have hboth := prompted_append hs htext (Session.lines y)
    rw [lines_append hend, hboth, hfirst, dialogue_eq]
    refine ⟨(s.answered ((Session.lines x).map scanLine)).output, rfl, rfl, ?_, rfl⟩
    simp [Transcript.append_eq]
    rfl
  · intro x hx
    rw [prompted_working hs (lines_text hx)]
    rfl
  · intro x hx
    have hunread := prompted_unread hs hx
    exact ⟨hunread, by rw [hunread]; rfl⟩
  · intro start hstart
    rw [run_opens hstart]
    exact ⟨rfl, rfl, rfl⟩

/-- A line that leaves a string open, with a line of text behind it, and a line that is no text. -/
theorem prompt_lines_independent_open :
    let s : Session := ⟨"> ".toList, .text, Log.Filter.upTo .info, .working⟩
    let x := encode "\"open\n".toList
    let y := encode "1\n".toList
    let z := [0xFF]
    s.output = .working ∧ (Utf8.decode? x).isSome = true ∧ x.getLast? = some (ascii '\n') ∧
      (∃ shown, (s.prompted (Session.lines x)).1.output = shown ++ s.prompt ∧
        (s.prompted (Session.lines (x ++ y))).1.output =
          shown ++ (s.prompted (Session.lines y)).1.output) ∧
      (s.prompted (Session.lines x)).2.exitCode = 0 ∧
      (s.prompted (Session.lines z)).2.exitCode = 74 := by
  intro s x y z
  have hx : (Utf8.decode? x).isSome = true := by
    rw [show x = encode "\"open\n".toList from rfl, Utf8.decode?_encode]
    rfl
  have hz : ¬ ∀ line ∈ Session.lines z, (Utf8.decode? line).isSome = true := by decide +kernel
  obtain ⟨-, happend, htext, hunread, -⟩ := prompt_lines_independent (s := s) rfl
  obtain ⟨shown, hfirst, hboth, -⟩ := happend x y hx (by decide)
  exact ⟨rfl, hx, by decide, ⟨shown, hfirst, hboth⟩, htext x hx, (hunread z hz).2⟩

end Command
end Lox

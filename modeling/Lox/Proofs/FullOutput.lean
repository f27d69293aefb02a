import Lox.Command.LineBuffer
import Lox.Proofs.Independence
import Lox.Proofs.Script

/-!
# A full output

What is written to an output that is full is lost, and the session learns of it from its buffer: at
once, if the text does not wait there, or when the buffer is flushed. It flushes the buffer behind
each echo and each prompt, so no trouble is overlooked. An echo that cannot be written is a failure,
however it is divided and wherever the trouble comes up. For a prompt it matters where: a flush that
goes wrong is a failure, and a prompt that does not wait in the buffer breaks the session off. So does
what is printed about the configuration file, since it ends with a line.

Results:
* `takes_write`: a buffer keeps texts in their order, and one before a full output passes on nothing.
* `flush_written`, `flushed_full`: after a flush all has arrived, or the trouble is noticed.
* `printed_all`: texts that end with a line do not wait in the buffer, however they are divided.
* `prints_scanned`: what a session tells of its output and its ending is what the buffer makes of it.
* `prints_configure`: and so is what is printed about the configuration file.
* `full_output_ends`: the endings of runs that cannot write anything.
-/
namespace Lox
namespace Command

namespace LineBuffer

/-! ## What becomes of a text -/

/-- All that was written, passed on or not. -/
def written (b : LineBuffer) : List Char := b.passed ++ b.held

/-- What may become of a buffer that takes a text. The text is behind all that was written before. An
output that works takes it without trouble, and one that is full has got nothing. -/
inductive Takes (b : LineBuffer) (text : List Char) : EStateM.Result Trouble LineBuffer Unit → Prop
  | ok {b' : LineBuffer} : b'.output = b.output → b'.written = b.written ++ text →
    (b.output = .full → b'.passed = b.passed) → Takes b text (.ok () b')
  | full {b' : LineBuffer} : b.output = .full → b'.passed = b.passed → Takes b text (.error .full b')

section
variable {b : LineBuffer} {s text : List Char}

theorem get_bind {ε : Type} (f : LineBuffer → Action ε Unit) (b : LineBuffer) :
    (get >>= f) b = f b b := rfl

theorem Takes.bind {x : Action Trouble Unit} {y : Unit → Action Trouble Unit}
    (hx : Takes b s (x b)) (hy : ∀ b', x b = .ok () b' → Takes b' text (y () b')) :
    Takes b (s ++ text) ((x >>= y) b) := by
  show Takes b (s ++ text) (EStateM.bind x y b)
  unfold EStateM.bind
  cases hr : x b with
  | ok u b' =>
    rw [hr] at hx
    cases hx with
    | ok houtput hwritten hpassed =>
      have hafter := hy b' hr
      show Takes b (s ++ text) (y () b')
      generalize y () b' = r at hafter
      cases hafter with
      | ok houtput' hwritten' hpassed' =>
        refine .ok (houtput'.trans houtput) ?_ ?_
        · rw [hwritten', hwritten, List.append_assoc]
        · intro hfull
          rw [hpassed' (houtput.trans hfull), hpassed hfull]
      | full hfull hpassed' =>
        have hfull : b.output = .full := houtput ▸ hfull
        exact .full hfull (hpassed'.trans (hpassed hfull))
  | error t b' =>
    rw [hr] at hx
    cases hx with
    | full hfull hpassed => exact .full hfull hpassed

theorem takes_pass (h : b.held = []) : Takes b text (pass text b) := by
  unfold pass
  split
  · rename_i hworking
    refine .ok rfl ?_ ?_
    · simp [written, h]
    · intro hfull
      rw [hworking] at hfull
      cases hfull
  · rename_i hfull
    split
    · rename_i hnil
      exact .ok rfl (by rw [hnil, List.append_nil]) fun _ => rfl
    · exact .full hfull rfl

theorem flush_working (h : b.output = .working) :
    flush b = .ok () { b with held := [], passed := b.written } := by
  show EStateM.bind (pass b.held) _ b = _
  rw [EStateM.bind, pass, h]
  rfl

theorem flush_full (h : b.output = .full) :
    flush b = if b.held = [] then .ok () b else .error .full b := by
  show EStateM.bind (pass b.held) _ b = _
  rw [EStateM.bind, pass, h]
  obtain ⟨output, held, passed⟩ := b
  cases held with
  | nil => rfl
  | cons c cs => rfl

/-- Flushing a buffer writes nothing more, and holds nothing any longer. -/
theorem takes_flush (b : LineBuffer) :
    Takes b [] (flush b) ∧ ∀ b', flush b = .ok () b' → b'.held = [] := by
  cases houtput : b.output with
  | working =>
    rw [flush_working houtput]
    refine ⟨.ok rfl (by simp [written]) ?_, ?_⟩
    · intro hfull
      rw [houtput] at hfull
      cases hfull
    · intro b' h
      cases h
      rfl
  | full =>
    rw [flush_full houtput]
    split
    · rename_i hnil
      refine ⟨.ok rfl (List.append_nil _).symm fun _ => rfl, ?_⟩
      intro b' h
      cases h
      exact hnil
    · exact ⟨.full houtput rfl, fun b' h => by cases h⟩

/-- What is taken behind a flush is taken by a buffer that holds nothing. -/
theorem takes_flushed {y : Unit → Action Trouble Unit}
    (h : ∀ b' : LineBuffer, b'.held = [] → Takes b' text (y () b')) :
    Takes b text ((flush >>= y) b) := by
  obtain ⟨htakes, hnil⟩ := takes_flush b
  exact htakes.bind fun b' hb' => h b' (hnil b' hb')

theorem takes_kept {output : Output} {held passed : List Char} :
    Takes ⟨output, held, passed⟩ text (.ok () ⟨output, held ++ text, passed⟩) := by
  exact .ok rfl (List.append_assoc _ _ _).symm fun _ => rfl

theorem size_pos (h : text ≠ []) : 0 < size text := by
  have := Utf8.length_le_encode text
  have := List.length_pos_of_ne_nil h
  unfold size
  omega

theorem takes_hold (b : LineBuffer) (text : List Char) : Takes b text (hold text b) := by
  have hrest (b : LineBuffer) (h : Session.bufferSize ≤ size text → b.held = []) : Takes b text
      ((if Session.bufferSize ≤ size text then pass text
        else modify fun b => { b with held := b.held ++ text } : Action Trouble Unit) b) := by
    split
    · rename_i hlong
      exact takes_pass (h hlong)
    · exact takes_kept
  rw [hold, get_bind]
  split
  · apply takes_flushed
    intro b' hnil
    exact hrest b' fun _ => hnil
  · rename_i hroom
    apply hrest
    intro hlong
    by_contra hne
    have := size_pos hne
    omega

theorem closedLines_append (text : List Char) : closedLines text ++ openLine text = text := by
  rw [closedLines, openLine, ← List.reverse_append, List.takeWhile_append_dropWhile,
    List.reverse_reverse]

/-- **Writing.** A buffer that holds something never passes on what comes later before that. -/
theorem takes_write (b : LineBuffer) (text : List Char) : Takes b text (write text b) := by
  unfold write
  split
  · -- all that is over is passed on before the rest is held
    suffices h : Takes b (closedLines text ++ openLine text) _ by rwa [closedLines_append] at h
    rw [get_bind]
    split
    · rename_i hnil
      exact (takes_pass hnil).bind fun b' _ => takes_hold b' _
    · refine (takes_hold b _).bind fun b' _ => ?_
      exact takes_flushed fun b'' _ => takes_hold b'' _
  · rw [get_bind]
    split
    · exact takes_flushed fun b' _ => takes_hold b' text
    · exact takes_hold b text

theorem takes_all (b : LineBuffer) (texts : List (List Char)) :
    Takes b texts.flatten (texts.forM write b) := by
  induction texts generalizing b with
  | nil => exact .ok rfl (List.append_nil _).symm fun _ => rfl
  | cons text texts ih => exact (takes_write b text).bind fun b' _ => ih b'

theorem Takes.working {r : EStateM.Result Trouble LineBuffer Unit} (hx : Takes b text r)
    (h : b.output = .working) :
    ∃ b', r = .ok () b' ∧ b'.output = .working ∧ b'.written = b.written ++ text := by
  cases hx with
  | @ok b' houtput hwritten _ => exact ⟨b', rfl, houtput.trans h, hwritten⟩
  | full hfull _ =>
    rw [h] at hfull
    cases hfull

/-- An output that works gets all that is written, once the buffer is flushed. -/
theorem flush_written {b' : LineBuffer} (hnil : b.held = []) (h : b'.output = .working)
    (hb : b.output = .working) (hwritten : b'.written = b.written ++ text) :
    flush b' = .ok () { b with passed := b.passed ++ text } := by
  rw [flush_working h, hwritten, h, written, hnil, List.append_nil, ← hb]

/-- A full output gets nothing, and that is noticed when the buffer is flushed at the latest. -/
theorem flushed_full {x : Action Trouble Unit} (hx : Takes b text (x b)) (h : b.output = .full)
    (hne : text ≠ []) :
    ∃ b', (x >>= fun _ => flush) b = .error .full b' ∧ b'.passed = b.passed := by
  show ∃ b', EStateM.bind x _ b = _ ∧ _
  rw [EStateM.bind]
  generalize x b = r at hx
  cases hx with
  | @ok b' houtput hwritten hpassed =>
    have hheld : b'.held ≠ [] := by
      intro hnil
      rw [written, written, hnil, hpassed h, List.append_assoc] at hwritten
      have hnone := List.append_cancel_left hwritten
      exact hne (List.append_eq_nil_iff.1 hnone.symm).2
    refine ⟨b', ?_, hpassed h⟩
    show flush b' = _
    rw [flush_full (houtput.trans h), if_neg hheld]
  | full _ hpassed => exact ⟨_, rfl, hpassed⟩

/-! ## What does not wait -/

theorem pass_full (h : b.output = .full) (hne : text ≠ []) : pass text b = .error .full b := by
  rw [pass, h]
  exact if_neg hne

theorem hold_full (h : b.output = .full) (hnil : b.held = []) : hold text b =
    if Session.bufferSize ≤ size text then .error .full b else .ok () { b with held := text } := by
  have hflush : flush b = .ok () b := by rw [flush_full h, if_pos hnil]
  have hrest : (if Session.bufferSize ≤ size text then pass text
      else modify fun b => { b with held := b.held ++ text } : Action Trouble Unit) b =
      if Session.bufferSize ≤ size text then .error .full b else .ok () { b with held := text } := by
    split
    · rename_i hlong
      apply pass_full h
      rintro rfl
      exact absurd hlong (by decide)
    · show EStateM.Result.ok () { b with held := b.held ++ text } = _
      rw [hnil, List.nil_append]
  rw [hold, get_bind]
  split
  · show EStateM.bind flush _ b = _
    rw [EStateM.bind, hflush]
    exact hrest
  · exact hrest

theorem closedLines_ne_nil (h : '\n' ∈ text) : closedLines text ≠ [] := by
  intro hnil
  rw [closedLines, List.reverse_eq_nil_iff, List.dropWhile_eq_nil_iff] at hnil
  simpa using hnil '\n' (List.mem_reverse.2 h)

/-- With nothing held before it, a text is noticed not to fit a full output exactly if it does not
wait. -/
theorem write_full (h : b.output = .full) (hnil : b.held = []) : write text b =
    if AtOnce text then .error .full b else .ok () { b with held := text } := by
  unfold write
  by_cases hline : '\n' ∈ text
  · rw [if_pos hline, get_bind, if_pos hnil, if_pos (.inl hline)]
    show EStateM.bind (pass _) _ b = _
    rw [EStateM.bind, pass_full h (closedLines_ne_nil hline)]
  · have hlast : b.held.getLast? ≠ some '\n' := by simp [hnil]
    rw [if_neg hline, get_bind, if_neg hlast]
    show hold text b = _
    rw [hold_full h hnil]
    exact if_congr (or_iff_right hline).symm rfl rfl

/-! ## Texts that end with a line -/

theorem bind_ok {x : Action Trouble Unit} {y : Unit → Action Trouble Unit} {b' : LineBuffer}
    (h : (x >>= y) b = .ok () b') : ∃ c, x b = .ok () c ∧ y () c = .ok () b' := by
  change EStateM.bind x y b = _ at h
  rw [EStateM.bind] at h
  cases hx : x b with
  | ok u c =>
    rw [hx] at h
    exact ⟨c, rfl, h⟩
  | error t c =>
    rw [hx] at h
    cases h

theorem held_pass {b' : LineBuffer} (h : pass text b = .ok () b') : b'.held = b.held := by
  unfold pass at h
  split at h
  · cases h
    rfl
  · split at h
    · cases h
      rfl
    · cases h

theorem hold_nothing (hnil : b.held = []) : hold [] b = .ok () b := by
  obtain ⟨output, held, passed⟩ := b
  cases hnil
  rfl

theorem write_nothing (hnil : b.held = []) : write [] b = .ok () b := by
  obtain ⟨output, held, passed⟩ := b
  cases hnil
  rfl

theorem openLine_nil (h : text.getLast? = some '\n') : openLine text = [] := by
  obtain ⟨before, rfl⟩ := List.getLast?_eq_some_iff.1 h
  simp [openLine]

/-- Nothing is held behind a line end. -/
theorem held_write {b' : LineBuffer} (hline : text.getLast? = some '\n')
    (h : write text b = .ok () b') : b'.held = [] := by
  have hlast (c : LineBuffer) (hnil : c.held = []) (h : hold (openLine text) c = .ok () b') :
      b'.held = [] := by
    rw [openLine_nil hline, hold_nothing hnil] at h
    cases h
    exact hnil
  unfold write at h
  rw [if_pos (List.mem_of_getLast? hline), get_bind] at h
  split at h
  · rename_i hnil
    obtain ⟨c, hpass, hhold⟩ := bind_ok h
    exact hlast c ((held_pass hpass).trans hnil) hhold
  · obtain ⟨c, -, hrest⟩ := bind_ok h
    obtain ⟨c', hflush, hhold⟩ := bind_ok hrest
    exact hlast c' ((takes_flush c).2 c' hflush) hhold

theorem held_all {b' : LineBuffer} {texts : List (List Char)}
    (hline : texts.flatten = [] ∧ b.held = [] ∨ texts.flatten.getLast? = some '\n')
    (h : texts.forM write b = .ok () b') : b'.held = [] := by
  induction texts generalizing b with
  | nil =>
    cases h
    rcases hline with ⟨-, hnil⟩ | hlast
    · exact hnil
    · cases hlast
  | cons text texts ih =>
    obtain ⟨c, hwrite, hrest⟩ := bind_ok h
    refine ih ?_ hrest
    rw [List.flatten_cons] at hline
    by_cases hempty : texts.flatten = []
    · refine .inl ⟨hempty, ?_⟩
      rw [hempty, List.append_nil] at hline
      rcases hline with ⟨rfl, hnil⟩ | hlast
      · rw [write_nothing hnil] at hwrite
        cases hwrite
        exact hnil
      · exact held_write hlast hwrite
    · refine .inr ?_
      rcases hline with ⟨hnone, -⟩ | hlast
      · exact absurd (List.append_eq_nil_iff.1 hnone).2 hempty
      · rwa [List.getLast?_append_of_ne_nil _ hempty] at hlast

/-- Texts that end with a line are all passed on, or it is noticed that they cannot be. -/
theorem printed_all {texts : List (List Char)} (hnil : b.held = [])
    (hline : texts.flatten.getLast? = some '\n') :
    (b.output = .working ∧
      texts.forM write b = .ok () { b with passed := b.passed ++ texts.flatten }) ∨
    (b.output = .full ∧ ∃ b', texts.forM write b = .error .full b' ∧ b'.passed = b.passed) := by
  have htakes := takes_all b texts
  cases hresult : texts.forM write b with
  | error t b' =>
    rw [hresult] at htakes
    cases htakes with
    | full hfull hpassed => exact .inr ⟨hfull, b', rfl, hpassed⟩
  | ok u b' =>
    have hheld := held_all (.inr hline) hresult
    rw [hresult] at htakes
    cases htakes with
    | ok houtput hwritten hpassed =>
      rw [written, written, hheld, hnil, List.append_nil, List.append_nil] at hwritten
      cases hb : b.output with
      | working =>
        refine .inl ⟨rfl, ?_⟩
        rw [← hwritten, ← hb, ← houtput, hnil, ← hheld]
      | full =>
        rw [hpassed hb] at hwritten
        rw [List.self_eq_append_right.1 hwritten] at hline
        cases hline

end
end LineBuffer

/-! ## What a session prints -/

namespace Session

open LineBuffer (Action AtOnce)

/-- What becomes of a buffer that is printed to: what comes out of it, and how that ends. Nothing is
left in it if all goes well. -/
inductive Prints (b : LineBuffer) :
    EStateM.Result Ending LineBuffer Unit → List Char → Ending → Prop
  | done {out : List Char} : Prints b (.ok () { b with passed := b.passed ++ out }) out .done
  | ended {b' : LineBuffer} {out : List Char} {e : Ending} : e ≠ .done →
    b'.passed = b.passed ++ out → Prints b (.error e b') out e

theorem Prints.nothing (b : LineBuffer) : Prints b (.ok () b) [] .done := by
  have h := @Prints.done b []
  rwa [List.append_nil] at h

theorem Prints.silent {b b' : LineBuffer} {e : Ending} (he : e ≠ .done) (h : b'.passed = b.passed) :
    Prints b (.error e b') [] e :=
  .ended he (h.trans (List.append_nil _).symm)

theorem Prints.stop {b : LineBuffer} {x : Action Ending Unit} {y : Unit → Action Ending Unit}
    {out : List Char} {e : Ending} (hx : Prints b (x b) out e) (he : e ≠ .done) :
    Prints b ((x >>= y) b) out e := by
  show Prints b (EStateM.bind x y b) out e
  rw [EStateM.bind]
  generalize x b = r at hx ⊢
  cases hx with
  | done => exact absurd rfl he
  | ended _ hpassed => exact .ended he hpassed

theorem Prints.next {b : LineBuffer} {x : Action Ending Unit} {y : Unit → Action Ending Unit}
    {out later : List Char} {e : Ending} (hx : Prints b (x b) out .done)
    (hy : ∀ b' : LineBuffer, b'.output = b.output → b'.held = b.held → Prints b' (y () b') later e) :
    Prints b ((x >>= y) b) (out ++ later) e := by
  show Prints b (EStateM.bind x y b) _ e
  rw [EStateM.bind]
  generalize x b = r at hx ⊢
  cases hx with
  | done =>
    have hafter := hy { b with passed := b.passed ++ out } rfl rfl
    show Prints b (y () _) _ e
    generalize y () _ = r at hafter ⊢
    cases hafter with
    | done =>
      rw [List.append_assoc]
      exact .done
    | ended he hpassed => exact .ended he (hpassed.trans (List.append_assoc _ _ _))
  | ended he _ => exact absurd rfl he

section
variable {s : Session} {b : LineBuffer}

theorem printEcho_working {d : Division} {tokens : List Token} (h : b.output = .working)
    (hnil : b.held = []) : s.printEcho d tokens b =
      .ok () { b with passed := b.passed ++ s.format.echo tokens } := by
  have htakes := LineBuffer.takes_all b (d.parts (s.format.echo tokens))
  rw [d.joins] at htakes
  obtain ⟨b', hwrite, hb', hwritten⟩ := htakes.working h
  have hall : LineBuffer.writeAll (d.parts (s.format.echo tokens)) b =
      .ok () { b with passed := b.passed ++ s.format.echo tokens } := by
    show EStateM.bind _ _ b = _
    rw [EStateM.bind, hwrite]
    exact LineBuffer.flush_written hnil hb' h hwritten
  rw [printEcho, EStateM.adaptExcept, hall]

theorem echo_ne_nil {tokens : List Token} (h : tokens ≠ []) (format : Format) :
    format.echo tokens ≠ [] := by
  cases format with
  | text =>
    obtain ⟨t, ts, rfl⟩ := List.exists_cons_of_ne_nil h
    simp [Format.echo]
  | json => simp [Format.echo]

theorem printEcho_full {d : Division} {tokens : List Token} (h : b.output = .full)
    (hne : tokens ≠ []) : ∃ b', s.printEcho d tokens b = .error (.failed (.output .full)) b' ∧
      b'.passed = b.passed := by
  have htakes := LineBuffer.takes_all b (d.parts (s.format.echo tokens))
  rw [d.joins] at htakes
  obtain ⟨b', hall, hpassed⟩ := LineBuffer.flushed_full htakes h (echo_ne_nil hne s.format)
  refine ⟨b', ?_, hpassed⟩
  rw [printEcho, EStateM.adaptExcept, LineBuffer.writeAll, hall]

theorem showPrompt_working (h : s.output = .working) :
    s.showPrompt = (⟨s.prompt, []⟩, .done) := by
  rw [showPrompt, h]

theorem showPrompt_full (h : s.output = .full) : s.showPrompt =
    if AtOnce s.prompt then ({}, .brokenOff (.print .full))
    else if s.prompt = [] then ({}, .done) else ({}, .failed (.output .full)) := by
  rw [showPrompt, h]
  rfl

/-- **The prompt.** A full output is noticed when the prompt is printed, which breaks the session
off, or when it is flushed, which is a failure, or not at all, if there is nothing to print. -/
theorem prints_prompt (hnil : b.held = []) (h : b.output = s.output) :
    Prints b (s.printPrompt b) s.showPrompt.1.output s.showPrompt.2 := by
  show Prints b (EStateM.bind _ _ b) _ _
  rw [EStateM.bind, EStateM.adaptExcept]
  cases hs : s.output with
  | working =>
    rw [hs] at h
    obtain ⟨b', hwrite, hb', hwritten⟩ := (LineBuffer.takes_write b s.prompt).working h
    rw [hwrite, showPrompt_working hs]
    show Prints b (EStateM.adaptExcept _ LineBuffer.flush b') _ _
    rw [EStateM.adaptExcept, LineBuffer.flush_written hnil hb' h hwritten]
    exact .done
  | full =>
    rw [hs] at h
    rw [LineBuffer.write_full h hnil, showPrompt_full hs]
    by_cases honce : AtOnce s.prompt
    · rw [if_pos honce, if_pos honce]
      exact .silent Ending.noConfusion rfl
    · rw [if_neg honce, if_neg honce]
      show Prints b (EStateM.adaptExcept _ LineBuffer.flush { b with held := s.prompt }) _ _
      have hflush := @LineBuffer.flush_full { b with held := s.prompt } h
      rw [EStateM.adaptExcept, hflush]
      by_cases hempty : s.prompt = []
      · have hb : ({ b with held := s.prompt } : LineBuffer) = b := by rw [hempty, ← hnil]
        rw [if_pos hempty, if_pos hempty, hb]
        exact .nothing b
      · rw [if_neg hempty, if_neg hempty]
        exact .silent Ending.noConfusion rfl

theorem tokens_ne_nil (source : List Char) : (scan source).tokens ≠ [] := by
  simp [Scan.tokens]

/-- **The echo.** However it is divided, a full output is noticed, and that is a failure. -/
theorem prints_echo (d : Division) (source : List Char) (hnil : b.held = [])
    (h : b.output = s.output) :
    Prints b (s.printEcho d (scan source).tokens b) ((s.echo (scan source).tokens).toOption.getD [])
      (match s.echo (scan source).tokens with
      | .error failure => .failed failure
      | .ok _ => .done) := by
  unfold echo
  cases hs : s.output with
  | working =>
    rw [printEcho_working (h.trans hs) hnil]
    exact .done
  | full =>
    obtain ⟨b', hprint, hpassed⟩ := @printEcho_full s b d _ (h.trans hs) (tokens_ne_nil source)
    rw [hprint]
    exact .silent Ending.noConfusion hpassed

theorem prints_answer (d : Division) (line : Bytes) (hnil : b.held = []) (h : b.output = s.output) :
    Prints b (s.printAnswer d line b) (s.answer line).1.output (s.answer line).2 := by
  unfold printAnswer answer
  cases Utf8.decode? line with
  | none => exact .silent Ending.noConfusion rfl
  | some text =>
    have hecho := prints_echo d (trimEnd text) hnil h
    dsimp only
    cases he : s.echo (scan (trimEnd text)).tokens with
    | error failure => rwa [he] at hecho
    | ok echoed => rwa [he] at hecho

theorem prints_script (d : Division) (path : Path) (content : Except Trouble Bytes)
    (hnil : b.held = []) (h : b.output = s.output) :
    Prints b (s.printScript d path content b) (s.script path content).1.output
      (s.script path content).2 := by
  unfold printScript script
  cases content with
  | error t => exact .silent Ending.noConfusion rfl
  | ok bytes =>
    have hecho := prints_echo d (Utf8.decode bytes) hnil h
    dsimp only
    cases he : s.echo (scan (Utf8.decode bytes)).tokens with
    | error failure =>
      rw [he] at hecho
      exact hecho.stop Ending.noConfusion
    | ok text =>
      rw [he] at hecho
      dsimp only
      have hlast : text = text ++ [] := (List.append_nil _).symm
      rw [hlast]
      apply hecho.next
      intro b' _ _
      by_cases hnone : (scan (Utf8.decode bytes)).diagnostics = []
      · rw [if_neg (not_not.2 hnone), if_pos hnone]
        exact .nothing b'
      · rw [if_pos hnone, if_neg hnone]
        exact .silent Ending.noConfusion rfl

theorem prints_prompted (d : Division) (lines : List Bytes) (hnil : b.held = [])
    (h : b.output = s.output) :
    Prints b (s.printPrompted d lines b) (s.prompted lines).1.output (s.prompted lines).2 := by
  induction lines generalizing b with
  | nil => exact prints_prompt hnil h
  | cons line rest ih =>
    have hprompt := prints_prompt hnil h
    rw [prompted]
    cases hshow : s.showPrompt with
    | mk shown ending =>
    rw [hshow] at hprompt
    cases ending with
    | failed failure => exact hprompt.stop Ending.noConfusion
    | brokenOff cause => exact hprompt.stop Ending.noConfusion
    | done =>
      have hanswer (b' : LineBuffer) (houtput : b'.output = b.output) (hheld : b'.held = b.held) :=
        @prints_answer s b' d line (hheld.trans hnil) (houtput.trans h)
      have hrest (b' : LineBuffer) (houtput : b'.output = b.output) (hheld : b'.held = b.held) :=
        @ih b' (hheld.trans hnil) (houtput.trans h)
      dsimp only
      cases hans : s.answer line with
      | mk answered ending =>
      rw [hans] at hanswer
      cases ending with
      | failed failure =>
        exact hprompt.next fun b' ho hh => (hanswer b' ho hh).stop Ending.noConfusion
      | brokenOff cause =>
        exact hprompt.next fun b' ho hh => (hanswer b' ho hh).stop Ending.noConfusion
      | done =>
        show Prints b _ (shown.output ++ answered.output ++ (s.prompted rest).1.output) _
        rw [List.append_assoc]
        apply hprompt.next
        intro b' ho hh
        apply (hanswer b' ho hh).next
        intro b'' ho' hh'
        exact hrest b'' (ho'.trans ho) (hh'.trans hh)

theorem prints_line (d : Division) {line : Transcript} (hnil : b.held = [])
    (hline : line.output.getLast? = some '\n') :
    Prints b (LineBuffer.printAll (d.parts line.output) b) (b.output.print line).1.output
      (b.output.print line).2 := by
  rw [← d.joins line.output] at hline
  rw [LineBuffer.printAll, EStateM.adaptExcept]
  obtain ⟨hb, hwrite⟩ | ⟨hb, b', hwrite, hpassed⟩ := LineBuffer.printed_all hnil hline
  · have hprint : b.output.print line = (line, .done) := by
      rw [hb]
      rfl
    rw [hwrite, d.joins, hprint]
    exact .done
  · rw [hwrite, hb]
    exact .silent Ending.noConfusion hpassed

/-! ## Endings -/

theorem echo_full (h : s.output = .full) (tokens : List Token) :
    s.echo tokens = .error (.output .full) := by
  rw [echo, h]

theorem script_full (h : s.output = .full) (path : Path) (bytes : Bytes) :
    (s.script path (.ok bytes)).1.output = [] ∧
      (s.script path (.ok bytes)).2 = .failed (.output .full) := by
  simp only [script, echo_full h, and_self]

theorem answer_full (h : s.output = .full) (line : Bytes) :
    ∃ errors trouble, s.answer line = (⟨[], errors⟩, .failed (.output trouble)) := by
  unfold answer
  cases Utf8.decode? line with
  | none => exact ⟨[], .notText, rfl⟩
  | some text =>
    simp only [echo_full h]
    exact ⟨_, .full, rfl⟩

/-- A full output is noticed at the first prompt, or else, if that is empty, at the first line. -/
theorem prompted_full (h : s.output = .full) (lines : List Bytes) :
    (s.prompted lines).1.output = [] ∧
    ((AtOnce s.prompt ∧ (s.prompted lines).2 = .brokenOff (.print .full)) ∨
      (s.prompt = [] ∧ lines = [] ∧ (s.prompted lines).2 = .done) ∨
      (¬ AtOnce s.prompt ∧ (s.prompt ≠ [] ∨ lines ≠ []) ∧
        ∃ trouble, (s.prompted lines).2 = .failed (.output trouble))) := by
  have hshow := showPrompt_full h
  by_cases honce : AtOnce s.prompt
  · rw [if_pos honce] at hshow
    rw [Loop.prompted_stopped hshow Ending.noConfusion]
    exact ⟨rfl, .inl ⟨honce, rfl⟩⟩
  rw [if_neg honce] at hshow
  by_cases hempty : s.prompt = []
  · rw [if_pos hempty] at hshow
    cases lines with
    | nil =>
      rw [prompted, hshow]
      exact ⟨rfl, .inr (.inl ⟨hempty, rfl, rfl⟩)⟩
    | cons line rest =>
      obtain ⟨errors, trouble, hanswer⟩ := answer_full h line
      rw [prompted, hshow, hanswer]
      exact ⟨rfl, .inr (.inr ⟨honce, .inr (List.cons_ne_nil _ _), trouble, rfl⟩)⟩
  · rw [if_neg hempty] at hshow
    rw [Loop.prompted_stopped hshow Ending.noConfusion]
    exact ⟨rfl, .inr (.inr ⟨honce, .inl hempty, .full, rfl⟩)⟩

end
end Session

/-- What a run prints. -/
def Start.printed (s : Start) (d : Division) (script : Option Path) (session : Session) :
    LineBuffer.Action Ending Unit :=
  match script with
  | some path => session.printScript d path (s.files.read path)
  | none => session.printPrompted d (Session.lines s.input)

open Session (Prints)
open LineBuffer (AtOnce)

/-- What a session makes of a script, or of the input, is what comes out of the buffer. -/
theorem prints_scanned (s : Start) (d : Division) (script : Option Path) (session : Session) :
    Prints { output := session.output } (s.printed d script session { output := session.output })
      (s.scanned script session).1.output (s.scanned script session).2 := by
  cases script with
  | some path => exact session.prints_script d path _ rfl rfl
  | none => exact session.prints_prompted d _ rfl rfl

theorem configure_line {c : Config} {path : Path} {files : Files} {action : ConfigAction}
    (h : (configure .working c path files action).1.2 = .done) :
    (configure .working c path files action).1.1.output.getLast? = some '\n' := by
  cases action with
  | print => exact List.getLast?_concat
  | locate => exact List.getLast?_concat
  | create =>
    simp only [configure] at h ⊢
    by_cases hexists : files.exists? path = true
    · rw [if_pos hexists]
      exact List.getLast?_concat
    · rw [if_neg hexists] at h ⊢
      cases hsave : Config.save {} files path with
      | mk files failure =>
        rw [hsave] at h
        cases failure with
        | some failure => cases h
        | none => exact List.getLast?_concat

/-- What is printed about the configuration file comes out of the buffer as it is told, if there is
nothing that fails before. -/
theorem prints_configure {b : LineBuffer} (d : Division) (hnil : b.held = []) {c : Config}
    {path : Path} {files : Files} {action : ConfigAction}
    (hdone : (configure .working c path files action).1.2 = .done) :
    Prints b
      (LineBuffer.printAll (d.parts (configure .working c path files action).1.1.output) b)
      (configure b.output c path files action).1.1.output
      (configure b.output c path files action).1.2 := by
  have hprint (output : Output) : (configure output c path files action).1 =
      output.print (configure .working c path files action).1.1 := by
    cases output with
    | working => exact Prod.ext rfl hdone
    | full =>
      rw [configure_full, if_pos hdone]
      rfl
  rw [hprint b.output]
  exact Session.prints_line d hnil (configure_line hdone)

theorem lines_eq_nil_iff {input : Bytes} : Session.lines input = [] ↔ input = [] := by
  constructor
  · intro hlines
    by_contra hne
    rw [Loop.lines_nextLine hne] at hlines
    cases hlines
  · rintro rfl
    rfl

/-- How a run ends that cannot write anything. -/
theorem scanned_full {s : Start} {script : Option Path} {session : Session}
    (hfull : session.output = .full)
    (hread : ∀ path ∈ script, ∃ bytes, s.files.read path = .ok bytes) :
    let outcome := s.scanned script session
    outcome.1.output = [] ∧
    ((script = none ∧ AtOnce session.prompt ∧ outcome.2 = .brokenOff (.print .full)) ∨
      (script = none ∧ session.prompt = [] ∧ s.input = [] ∧ outcome.2 = .done) ∨
      ((script ≠ none ∨ ¬ AtOnce session.prompt ∧ (session.prompt ≠ [] ∨ s.input ≠ [])) ∧
        ∃ trouble, outcome.2 = .failed (.output trouble))) := by
  cases script with
  | some path =>
    obtain ⟨bytes, hbytes⟩ := hread path rfl
    have hending := Session.script_full hfull path bytes
    rw [← hbytes] at hending
    exact ⟨hending.1, .inr (.inr ⟨.inl (Option.some_ne_none path), .full, hending.2⟩)⟩
  | none =>
    have hcases := Session.prompted_full hfull (Session.lines s.input)
    simp only [ne_eq, lines_eq_nil_iff] at hcases
    obtain ⟨hnone, ⟨honce, hending⟩ | ⟨hempty, hinput, hending⟩ | ⟨hwaits, hsome, hending⟩⟩ := hcases
    · exact ⟨hnone, .inl ⟨rfl, honce, hending⟩⟩
    · exact ⟨hnone, .inr (.inl ⟨rfl, hempty, hinput, hending⟩)⟩
    · exact ⟨hnone, .inr (.inr ⟨.inr ⟨hwaits, hsome⟩, hending⟩)⟩

/-- **A full output.** A run that scans a script, and can set up its log (`Start.Opens`), fails for
its output, with the exit code for that, whatever is reported about the script. So does one that shows
prompts, unless the first prompt does not wait in the buffer: then the run is broken off. If there is
no prompt and no input, then there is nothing to write, and the run is done. So it comes out of the
buffer, however an echo is divided. -/
theorem full_output_ends {s : Start} {script : Option Path} {session : Session}
    (h : s.Opens script session) (hfull : s.output = .full)
    (hread : ∀ path ∈ script, ∃ bytes, s.files.read path = .ok bytes) :
    let ending := (s.scanned script session).2
    (∀ d : Division, Prints { output := .full } (s.printed d script session { output := .full })
      [] ending) ∧
    (run s).output = [] ∧
    ((run s).exitCode = 74 ↔ script ≠ none ∨
      ¬ AtOnce session.prompt ∧ (session.prompt ≠ [] ∨ s.input ≠ [])) ∧
    ((run s).exitCode = 74 → ∃ trouble, ending = .failed (.output trouble)) ∧
    ((run s).exitCode = 101 ↔ script = none ∧ AtOnce session.prompt) ∧
    ((run s).exitCode = 0 ↔ script = none ∧ session.prompt = [] ∧ s.input = []) := by
  have hsession : session.output = .full := h.output.trans hfull
  have hprints := fun d => prints_scanned s d script session
  obtain ⟨hnone, hcases⟩ := scanned_full hsession hread
  rw [hsession, hnone] at hprints
  dsimp only
  rw [run_opens h]
  refine ⟨hprints, hnone, ?_⟩
  have hempty : ¬ AtOnce [] := by decide
  generalize (s.scanned script session).2 = ending at hcases ⊢
  obtain ⟨hscript, honce, rfl⟩ | ⟨hscript, hprompt, hinput, rfl⟩ | ⟨hsome, trouble, rfl⟩ := hcases
  · have hprompt : session.prompt ≠ [] := by
      intro hnil
      rw [hnil] at honce
      exact hempty honce
    simp [Ending.exitCode, hscript, honce, hprompt]
  · simp [Ending.exitCode, hscript, hprompt, hinput, hempty]
  · have hbroken : ¬ (script = none ∧ AtOnce session.prompt) := by
      rintro ⟨hscript, honce⟩
      obtain hne | ⟨hwaits, -⟩ := hsome
      · exact hne hscript
      · exact hwaits honce
    have hdone : ¬ (script = none ∧ session.prompt = [] ∧ s.input = []) := by
      rintro ⟨hscript, hprompt, hinput⟩
      obtain hne | ⟨-, hne | hne⟩ := hsome
      · exact hne hscript
      · exact hne hprompt
      · exact hne hinput
    simp [Ending.exitCode, Failure.exitCode, hbroken, hdone, hsome]

/-- A script with a stray character, and a run that scans it. -/
def strayStart : Start where
  arguments := [word "a.lox"]
  output := .full
  files := { root := .folder [(word "a.lox", .file (word "#"))], here := [] }

def straySession : Session where
  prompt := "> ".toList
  format := .text
  log := Log.Filter.upTo .warn
  output := .full

theorem full_output_ends_stray :
    strayStart.Opens (some (word "a.lox")) straySession ∧ strayStart.output = .full ∧
      strayStart.files.read (word "a.lox") = .ok (word "#") ∧ (run strayStart).exitCode = 74 ∧
      (run strayStart).output = [] := by
  have hopens : strayStart.Opens (some (word "a.lox")) straySession := by
    refine ⟨⟨none, ?_, ?_⟩, ?_, ?_, rfl⟩
    · decide
    · decide
    · decide
    · decide
  have hread : strayStart.files.read (word "a.lox") = .ok (word "#") := by rfl
  obtain ⟨-, houtput, hcode, -⟩ := full_output_ends hopens rfl (by
    intro path hpath
    cases hpath
    exact ⟨_, hread⟩)
  exact ⟨hopens, rfl, hread, hcode.2 (.inl (Option.some_ne_none _)), houtput⟩

/-- The home folder with a configuration file in it. -/
def homeWith (content : Bytes) : Files where
  root := .folder [(word "home", .folder [(word ".lox", .folder [(word "default", .folder
    [(word "config.json", .file content)])])])]
  here := []

/-- A prompt with a line end. -/
def linePrompt : Config := { prompt := "a\n".toList }

/-- A run that shows it on a full output. -/
def lineStart : Start where
  arguments := []
  environment := { home := some (word "home") }
  output := .full
  files := homeWith (Utf8.encode linePrompt.write)

theorem lineStart_config : lineStart.config = linePrompt := by
  have hpath : Config.path lineStart.environment = word "home/.lox/default/config.json" := by
    simp only [Config.path, lineStart, Environment.pathOr, Environment.text?, word,
      Option.bind_some, Utf8.decode?_encode]
    decide
  apply config_of_file rfl
  · rw [hpath]
    rfl
  · rw [hpath]
    rfl

/-- With a line end in the prompt the run is broken off. -/
theorem line_prompt_breaks_off : (run lineStart).exitCode = 101 := by
  have hopens : lineStart.Opens none ⟨linePrompt.prompt, .text, Log.Filter.upTo .warn, .full⟩ := by
    refine ⟨⟨none, ?_, ?_⟩, ?_, ?_, rfl⟩
    · decide
    · rw [lineStart_config]; rfl
    · rw [lineStart_config]; decide
    · rw [lineStart_config]
  have honce : AtOnce linePrompt.prompt := .inl (by decide)
  have hshow := @Session.showPrompt_full ⟨linePrompt.prompt, .text, Log.Filter.upTo .warn, .full⟩ rfl
  rw [if_pos honce] at hshow
  rw [run_opens hopens]
  dsimp only [Start.scanned]
  rw [Loop.prompted_stopped hshow Ending.noConfusion]
  rfl

end Command
end Lox

import Lox.Command.Plan
import Lox.Proofs.FullOutput

/-!
# Plans lead to what runs do

A world with an output, the lines of an input, and files answers every step of a plan in one way, so
a plan leads to one outcome. For the plan of a run that is the outcome of the run: looking for the
configuration file and reading it is loading it, making folders and writing a file is saving it, and
one line after the other at the prompt is the session.

A step that prints does not know the output beforehand. That makes no difference as long as a full
output is noticed exactly when there is something to print, and all that was told before is told
anyway (`Noticed`), which is so for everything that a run prints.

Results:
* `Leads.unique`: a plan leads to one outcome.
* `leads_carry`: printing without knowing the output.
* `leads_load`, `leads_save`, `leads_configure`, `leads_prompt`: the parts of a run.
* `run_planned`: the plan of a run leads to the outcome of the run, and to no other.
-/
namespace Lox
namespace Command

/-- What goes wrong when a text is printed. -/
def Output.trouble? (text : List Char) : Output → Option Trouble
  | .working => none
  | .full => if text = [] then none else some .full

/-- What is around a run. -/
structure World where
  output : Output
  lines : List Bytes
  files : Files

/-- What is around a run at its start. -/
def Start.world (s : Start) : World := ⟨s.output, Session.lines s.input, s.files⟩

def World.makeFolders (w : World) (path : Path) : Option Trouble × World :=
  ((w.files.makeFolders path).2, { w with files := (w.files.makeFolders path).1 })

def World.writeFile (w : World) (path : Path) (content : Bytes) : Option Trouble × World :=
  match w.files.write path content with
  | .error t => (some t, w)
  | .ok files => (none, { w with files := files })

namespace Plan

open Utf8 (encode)

/-- In a world a plan leads to what is written, to an ending, and to the files that are left. -/
inductive Leads : Plan → World → Transcript → Ending → Files → Prop
  | stop {w : World} {e : Ending} : Leads (.stop e) w {} e w.files
  | tell {w : World} {text : List Char} {next : Plan} {t : Transcript} {e : Ending} {f : Files} :
    Leads next w t e f → Leads (.tell text next) w (⟨[], text⟩ ++ t) e f
  | print {w : World} {text : List Char} {next : Option Trouble → Plan} {t : Transcript}
      {e : Ending} {f : Files} :
    Leads (next (w.output.trouble? text)) w t e f →
    Leads (.print text next) w (⟨w.output.taken text, []⟩ ++ t) e f
  | readLine {w : World} {next : Except Trouble Bytes → Plan} {t : Transcript} {e : Ending}
      {f : Files} :
    Leads (next (.ok (w.lines.headD []))) { w with lines := w.lines.tail } t e f →
    Leads (.readLine next) w t e f
  | exists? {w : World} {path : Path} {next : Bool → Plan} {t : Transcript} {e : Ending}
      {f : Files} :
    Leads (next (w.files.exists? path)) w t e f → Leads (.exists? path next) w t e f
  | readFile {w : World} {path : Path} {next : Except Trouble Bytes → Plan} {t : Transcript}
      {e : Ending} {f : Files} :
    Leads (next (w.files.read path)) w t e f → Leads (.readFile path next) w t e f
  | makeFolders {w : World} {path : Path} {next : Option Trouble → Plan} {t : Transcript}
      {e : Ending} {f : Files} :
    Leads (next (w.makeFolders path).1) (w.makeFolders path).2 t e f →
    Leads (.makeFolders path next) w t e f
  | writeFile {w : World} {path : Path} {content : Bytes} {next : Option Trouble → Plan}
      {t : Transcript} {e : Ending} {f : Files} :
    Leads (next (w.writeFile path content).1) (w.writeFile path content).2 t e f →
    Leads (.writeFile path content next) w t e f
  | prompt {w : World} {s : Session} {t : Transcript} {e : Ending} {f : Files} :
    Leads (turn s) w t e f → Leads (.prompt s) w t e f

section

variable {p : Plan} {w : World} {t t' : Transcript} {e e' : Ending} {f f' : Files}

theorem Leads.unique (h : Leads p w t e f) (h' : Leads p w t' e' f') :
    t' = t ∧ e' = e ∧ f' = f := by
  induction h generalizing t' e' f' with
  | stop =>
    cases h'
    exact ⟨rfl, rfl, rfl⟩
  | tell _ ih =>
    cases h' with
    | tell h' =>
      obtain ⟨rfl, rfl, rfl⟩ := ih h'
      exact ⟨rfl, rfl, rfl⟩
  | print _ ih =>
    cases h' with
    | print h' =>
      obtain ⟨rfl, rfl, rfl⟩ := ih h'
      exact ⟨rfl, rfl, rfl⟩
  | readLine _ ih =>
    cases h' with
    | readLine h' => exact ih h'
  | exists? _ ih =>
    cases h' with
    | exists? h' => exact ih h'
  | readFile _ ih =>
    cases h' with
    | readFile h' => exact ih h'
  | makeFolders _ ih =>
    cases h' with
    | makeFolders h' => exact ih h'
  | writeFile _ ih =>
    cases h' with
    | writeFile h' => exact ih h'
  | prompt _ ih =>
    cases h' with
    | prompt h' => exact ih h'

end

/-! ## Printing -/

theorem append_nothing (t : Transcript) : t ++ ({} : Transcript) = t := by
  simp [Transcript.append_eq]

/-- A full output is noticed exactly if there is something to print, and nothing is told before
printing that would not be told on a full output. -/
structure Noticed (outcome : Output → Transcript × Ending) : Prop where
  silent : (outcome .full).1.output = []
  early : (outcome .full).1.errors <+: (outcome .working).1.errors
  same : (outcome .working).1.output = [] → outcome .full = outcome .working

section

variable {outcome : Output → Transcript × Ending} {next : Ending → Plan} {w : World}
  {t : Transcript} {e : Ending} {f : Files}

/-- Everything is printed. -/
theorem leads_printed (h : Noticed outcome)
    (hnone : w.output.trouble? (outcome .working).1.output = none)
    (htaken : w.output.taken (outcome .working).1.output = (outcome .working).1.output)
    (hnext : Leads (next (outcome .working).2) w t e f) :
    Leads (carry outcome next) w ((outcome .working).1 ++ t) e f := by
  obtain ⟨late, hlate⟩ := h.early
  have hdrop : (outcome .working).1.errors.drop (outcome .full).1.errors.length = late := by
    rw [← hlate, List.drop_left]
  have hall : (⟨[], (outcome .full).1.errors⟩ : Transcript) ++
      (⟨w.output.taken (outcome .working).1.output, []⟩ ++ (⟨[], late⟩ ++ t)) =
        (outcome .working).1 ++ t := by
    simp [Transcript.append_eq, htaken, ← hlate]
  rw [← hall]
  refine .tell (.print ?_)
  simp only [hnone, hdrop]
  exact .tell hnext

/-- Nothing is printed. -/
theorem leads_broken (h : Noticed outcome) (hne : (outcome .working).1.output ≠ [])
    (hfull : w.output = .full) (hnext : Leads (next (outcome .full).2) w t e f) :
    Leads (carry outcome next) w ((outcome .full).1 ++ t) e f := by
  have htrouble : w.output.trouble? (outcome .working).1.output = some .full := by
    rw [hfull]
    exact if_neg hne
  have hall : (⟨[], (outcome .full).1.errors⟩ : Transcript) ++
      (⟨w.output.taken (outcome .working).1.output, []⟩ ++ t) = (outcome .full).1 ++ t := by
    simp [Transcript.append_eq, hfull, Output.taken, h.silent]
  rw [← hall]
  refine .tell (.print ?_)
  simp only [htrouble]
  exact hnext

/-- **Printing** without knowing the output comes to what is meant for it. -/
theorem leads_carry (h : Noticed outcome) (hnext : Leads (next (outcome w.output).2) w t e f) :
    Leads (carry outcome next) w ((outcome w.output).1 ++ t) e f := by
  cases houtput : w.output with
  | working =>
    rw [houtput] at hnext
    exact leads_printed h (by rw [houtput]; rfl) (by rw [houtput]; rfl) hnext
  | full =>
    rw [houtput] at hnext
    by_cases hnil : (outcome .working).1.output = []
    · have hall := h.same hnil
      rw [hall] at hnext ⊢
      refine leads_printed h ?_ ?_ hnext
      · rw [houtput]
        exact if_pos hnil
      · rw [houtput]
        exact hnil.symm
    · exact leads_broken h hnil houtput hnext

/-- Printing, where that is the last thing to do. -/
theorem leads_carry_stop (h : Noticed outcome)
    (hnext : next (outcome w.output).2 = .stop (outcome w.output).2) :
    Leads (carry outcome next) w (outcome w.output).1 (outcome w.output).2 w.files := by
  rw [← append_nothing (outcome w.output).1]
  apply leads_carry h
  rw [hnext]
  exact .stop

theorem leads_carry_done {p : Plan} (h : Noticed outcome) (hdone : (outcome w.output).2 = .done)
    (hnext : Leads p w t e f) :
    Leads (carry outcome (onDone p)) w ((outcome w.output).1 ++ t) e f := by
  apply leads_carry h
  rw [hdone]
  exact hnext

theorem onDone_eq {p : Plan} {e : Ending} (h : e ≠ .done) : onDone p e = .stop e := by
  cases e with
  | done => exact absurd rfl h
  | failed failure => rfl
  | brokenOff cause => rfl

end

/-! ## The configuration file -/

theorem noticed_line (text : List Char) : Noticed (Output.print ⟨text ++ ['\n'], []⟩) where
  silent := rfl
  early := List.nil_prefix
  same hnil := absurd hnil (List.append_ne_nil_of_right_ne_nil _ (List.cons_ne_nil _ _))

section

variable {w : World} {t : Transcript} {ending : Ending} {f : Files}

theorem leads_load {e : Environment} {next : Config × Option ConfigFailure → Plan}
    (h : Leads (next (Config.load w.files e)) w t ending f) : Leads (load e next) w t ending f := by
  refine .exists? ?_
  rw [Config.load] at h
  cases hexists : w.files.exists? (Config.path e) with
  | false =>
    rw [hexists] at h
    exact h
  | true =>
    rw [hexists] at h
    exact .readFile h

/-- Writing the file, from what is known of saving to folders that are there. -/
theorem leads_fill {c : Config} {path : Path} {next : Option ConfigFailure → Plan}
    {saved : Files × Option ConfigFailure}
    (herror : ∀ trouble, w.files.write path (encode c.write) = .error trouble →
      saved = (w.files, some (.access path trouble)))
    (hok : ∀ g, w.files.write path (encode c.write) = .ok g → saved = (g, none))
    (h : Leads (next saved.2) { w with files := saved.1 } t ending f) :
    Leads (fill c path next) w t ending f := by
  refine .writeFile ?_
  rw [World.writeFile]
  cases hwrite : w.files.write path (encode c.write) with
  | error trouble =>
    rw [herror trouble hwrite] at h
    exact h
  | ok g =>
    rw [hok g hwrite] at h
    exact h

theorem leads_save {c : Config} {path : Path} {next : Option ConfigFailure → Plan}
    (h : Leads (next (c.save w.files path).2) { w with files := (c.save w.files path).1 }
      t ending f) :
    Leads (save c path next) w t ending f := by
  have hsave := Config.save_eq c w.files path
  unfold save
  cases hparent : path.parent? with
  | none =>
    simp only [Config.folders, hparent] at hsave
    refine leads_fill ?_ ?_ h
    · intro trouble hwrite
      rw [hsave, hwrite]
    · intro g hwrite
      rw [hsave, hwrite]
  | some above =>
    refine .makeFolders ?_
    rw [World.makeFolders]
    cases hmade : w.files.makeFolders above with
    | mk made trouble =>
      simp only [Config.folders, hparent, hmade] at hsave
      cases trouble with
      | some trouble =>
        rw [hsave] at h
        exact h
      | none =>
        simp only at hsave
        show Leads (fill c path next) { w with files := made } t ending f
        refine leads_fill ?_ ?_ h
        · intro trouble hwrite
          rw [hsave, hwrite]
        · intro g hwrite
          rw [hsave, hwrite]

theorem leads_configure (c : Config) (path : Path) (action : ConfigAction) :
    let done := Command.configure w.output c path w.files action
    Leads (configure path c action) w done.1.1 done.1.2 done.2 := by
  cases action with
  | print => exact leads_carry_stop (noticed_line _) rfl
  | locate => exact leads_carry_stop (noticed_line _) rfl
  | create =>
    refine .exists? ?_
    simp only [Command.configure]
    cases w.files.exists? path with
    | true => exact leads_carry_stop (noticed_line _) rfl
    | false =>
      refine leads_save ?_
      cases Config.save {} w.files path with
      | mk files failure =>
        cases failure with
        | none => exact leads_carry_stop (noticed_line _) rfl
        | some failure => exact .stop

end

/-! ## Sessions -/

section

variable (s : Session)

theorem noticed_showPrompt : Noticed fun output => (s.on output).showPrompt where
  silent := by
    show (s.on .full).showPrompt.1.output = []
    rw [Session.showPrompt_full rfl]
    split
    · rfl
    · split <;> rfl
  early := by
    show (s.on .full).showPrompt.1.errors <+: _
    rw [Loop.showPrompt_errors]
    exact List.nil_prefix
  same := by
    have hworking : (s.on .working).showPrompt = (⟨s.prompt, []⟩, .done) :=
      Session.showPrompt_working rfl
    have hfull := @Session.showPrompt_full (s.on .full) rfl
    intro hnil
    rw [hworking] at hnil
    have hprompt : s.prompt = [] := hnil
    have hprompt' : (s.on .full).prompt = [] := hnil
    rw [hprompt', if_neg (by decide), if_pos rfl] at hfull
    rw [hworking, hfull, hprompt]

theorem noticed_answer (line : Bytes) : Noticed fun output => (s.on output).answer line := by
  unfold Session.answer
  cases Utf8.decode? line with
  | none => exact ⟨rfl, List.prefix_rfl, fun _ => rfl⟩
  | some text =>
    refine ⟨rfl, List.prefix_append _ _, ?_⟩
    intro hnil
    exact absurd hnil (Session.echo_ne_nil (Session.tokens_ne_nil _) s.format)

theorem noticed_script (path : Path) (content : Except Trouble Bytes) :
    Noticed fun output => (s.on output).script path content := by
  cases content with
  | error t => exact ⟨rfl, List.prefix_rfl, fun _ => rfl⟩
  | ok bytes =>
    refine ⟨rfl, List.prefix_rfl, ?_⟩
    intro hnil
    exact absurd hnil (Session.echo_ne_nil (Session.tokens_ne_nil _) s.format)

theorem leads_script (w : World) (path : Path) :
    Leads (script s path) w ((s.on w.output).script path (w.files.read path)).1
      ((s.on w.output).script path (w.files.read path)).2 w.files :=
  .readFile (leads_carry_stop (noticed_script s path (w.files.read path)) rfl)

/-- A session goes no further than a line that cannot be answered. -/
theorem prompted_unanswered {line : Bytes} {shown answered : Transcript} {ending : Ending}
    (hshow : s.showPrompt = (shown, .done)) (hanswer : s.answer line = (answered, ending))
    (hending : ending ≠ .done) (rest : List Bytes) :
    s.prompted (line :: rest) = (shown ++ answered, ending) := by
  rw [Session.prompted, hshow, hanswer]
  cases ending with
  | done => exact absurd rfl hending
  | failed failure => rfl
  | brokenOff cause => rfl

/-- **The prompt.** A plan for one line at a time leads to what the session makes of all lines. -/
theorem leads_prompt (output : Output) (files : Files) {lines : List Bytes}
    (hlines : ∀ line ∈ lines, line ≠ []) :
    Leads (.prompt s) ⟨output, lines, files⟩ ((s.on output).prompted lines).1
      ((s.on output).prompted lines).2 files := by
  have hprompt := noticed_showPrompt s
  rcases hshow : (s.on output).showPrompt with ⟨shown, ending⟩
  have hshown : shown = (s.on output).showPrompt.1 := by rw [hshow]
  have hending : ending = (s.on output).showPrompt.2 := by rw [hshow]
  by_cases hdone : ending = .done
  case neg =>
    have hstop : onDone (.readLine (hear s)) ending = .stop ending := onDone_eq hdone
    rw [Loop.prompted_stopped hshow hdone]
    subst hshown hending
    exact .prompt (leads_carry_stop hprompt hstop)
  subst hdone
  induction lines with
  | nil =>
    rw [Session.prompted, hshow, ← append_nothing shown, hshown]
    exact .prompt (leads_carry_done hprompt hending.symm (.readLine .stop))
  | cons line rest ih =>
    obtain ⟨hline, hrest⟩ := List.forall_mem_cons.1 hlines
    obtain ⟨b, bs, rfl⟩ := List.exists_cons_of_ne_nil hline
    have hanswer := noticed_answer s (b :: bs)
    refine .prompt ?_
    rcases hans : (s.on output).answer (b :: bs) with ⟨answered, ending⟩
    have hanswered : answered = ((s.on output).answer (b :: bs)).1 := by rw [hans]
    have hafter : ending = ((s.on output).answer (b :: bs)).2 := by rw [hans]
    by_cases hdone : ending = .done
    case neg =>
      have hstop : onDone (.prompt s) ending = .stop ending := onDone_eq hdone
      rw [prompted_unanswered (s.on output) hshow hans hdone, hshown, hanswered]
      refine leads_carry_done hprompt hending.symm (.readLine ?_)
      subst hafter
      exact leads_carry_stop hanswer hstop
    case pos =>
      subst hdone
      rw [Session.prompted, hshow, hans]
      show Leads _ _ (shown ++ answered ++ ((s.on output).prompted rest).1) _ _
      rw [Transcript.append_assoc, hshown, hanswered]
      refine leads_carry_done hprompt hending.symm (.readLine ?_)
      exact leads_carry_done hanswer hafter.symm (ih hrest)

end

/-! ## Whole runs -/

theorem noticed_text (text : List Char) :
    Noticed fun output => (⟨output.taken text, []⟩, .done) where
  silent := rfl
  early := List.prefix_rfl
  same := by
    intro hnil
    have htext : text = [] := hnil
    rw [htext]
    rfl

theorem lines_filled (input : Bytes) : ∀ line ∈ Session.lines input, line ≠ [] := by
  induction input with
  | nil => exact List.forall_mem_nil _
  | cons b bs ih =>
    rw [Session.lines]
    split
    · exact List.forall_mem_cons.2 ⟨List.cons_ne_nil _ _, ih⟩
    · split
      · exact List.forall_mem_singleton.2 (List.cons_ne_nil _ _)
      · rename_i hlines
        rw [hlines] at ih
        exact List.forall_mem_cons.2 ⟨List.cons_ne_nil _ _, (List.forall_mem_cons.1 ih).2⟩

theorem leads_perform (s : Start) (c : Config) (log : Log.Filter) (task : Task) :
    Leads (perform s.environment c log task) s.world (Command.perform s c log task).1.1
      (Command.perform s c log task).1.2 (Command.perform s c log task).2 := by
  cases task with
  | config action => exact leads_configure c (Config.path s.environment) action
  | scan script format =>
    cases script with
    | some path => exact leads_script (Session.ofConfig c format log) s.world path
    | none =>
      exact leads_prompt (Session.ofConfig c format log) s.output s.files (lines_filled s.input)

theorem leads_unlogged {s : Start} (hlog : Log.Filter.ofText? s.config.logLevel = none)
    (task : Task) :
    Leads (load s.environment (begin s.environment task)) s.world {} (.brokenOff .logFilter)
      s.files := by
  refine leads_load ?_
  show Leads (begin _ _ (Config.load s.files s.environment)) _ _ _ _
  rw [Start.config] at hlog
  rw [begin, hlog]
  exact .stop

theorem leads_logged {s : Start} {log : Log.Filter}
    (hlog : Log.Filter.ofText? s.config.logLevel = some log) (task : Task) :
    Leads (load s.environment (begin s.environment task)) s.world
      (⟨[], loadWarning log (Config.load s.files s.environment).2⟩ ++
        (Command.perform s s.config log task).1.1)
      (Command.perform s s.config log task).1.2 (Command.perform s s.config log task).2 := by
  refine leads_load ?_
  show Leads (begin _ _ (Config.load s.files s.environment)) _ _ _ _
  have htask := leads_perform s s.config log task
  rw [Start.config] at hlog htask ⊢
  rw [begin, hlog]
  exact .tell htask

theorem leads_run (s : Start) :
    ∃ t e f, Leads (ofArguments s.arguments s.environment) s.world t e f ∧
      run s =
        { exitCode := e.exitCode
          output := t.output
          errors := t.errors ++ e.lines
          files := f } := by
  unfold ofArguments
  cases hrequest : Request.ofArguments? s.arguments with
  | none => exact ⟨_, _, _, .stop, by rw [run, hrequest]; rfl⟩
  | some request =>
    cases request with
    | help =>
      exact ⟨_, _, _, leads_carry_stop (noticed_text helpText) rfl, by rw [run, hrequest]; rfl⟩
    | version =>
      exact ⟨_, _, _, leads_carry_stop (noticed_text versionText) rfl, by rw [run, hrequest]; rfl⟩
    | task task =>
      cases hlog : Log.Filter.ofText? s.config.logLevel with
      | none => exact ⟨_, _, _, leads_unlogged hlog task, run_unlogged hrequest hlog⟩
      | some log => exact ⟨_, _, _, leads_logged hlog task, run_logged hrequest hlog rfl⟩

/-- **Plans.** The plan of a run leads to one outcome, and that is the outcome of the run. -/
theorem run_planned (s : Start) :
    ∃ t e f,
      (∀ t' e' f', Leads (ofArguments s.arguments s.environment) s.world t' e' f' ↔
        t' = t ∧ e' = e ∧ f' = f) ∧
      run s =
        { exitCode := e.exitCode
          output := t.output
          errors := t.errors ++ e.lines
          files := f } := by
  obtain ⟨t, e, f, hleads, hrun⟩ := leads_run s
  refine ⟨t, e, f, ?_, hrun⟩
  intro t' e' f'
  constructor
  · exact hleads.unique
  · rintro ⟨rfl, rfl, rfl⟩
    exact hleads

end Plan
end Command
end Lox

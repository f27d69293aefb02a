import Lox.Command.Run

/-!
# What a run comes to

A run first finds its configuration and sets up the log. Where the log cannot be set up, the run is
broken off before it does anything; otherwise it does its task, and tells of its configuration
before. A task about the configuration file prints one line at its end, which a full output has no
room for, so all but that line is as on an output that works.

Results:
* `run_unlogged`, `run_logged`: a run, from what its task does.
* `configure_full`: a task about the configuration file on a full output.
* `run_configures_full`: the outcome of a run that does such a task.
-/
namespace Lox
namespace Command

/-- The configuration that a run works with. -/
def Start.config (s : Start) : Config := (Config.load s.files s.environment).1

section

variable {s : Start} {task : Task} (h : Request.ofArguments? s.arguments = some (.task task))
include h

theorem run_unlogged (hlog : Log.Filter.ofText? s.config.logLevel = none) :
    run s =
      { exitCode := 101, errors := (Ending.brokenOff .logFilter).lines, files := s.files } := by
  rw [Start.config] at hlog
  unfold run
  rw [h]
  simp only [hlog]
  rfl

/-- A run does its task, behind a warning about its configuration. -/
theorem run_logged {log : Log.Filter} (hlog : Log.Filter.ofText? s.config.logLevel = some log)
    {written : Transcript} {ending : Ending} {files : Files}
    (hdone : perform s s.config log task = ((written, ending), files)) :
    run s =
      { exitCode := ending.exitCode
        output := written.output
        errors := loadWarning log (Config.load s.files s.environment).2 ++ written.errors ++
          ending.lines
        files := files } := by
  rw [Start.config] at hlog hdone
  unfold run
  rw [h]
  simp only [hlog, hdone]

end

/-! ## Tasks about the configuration file -/

/-- A full output has no part in what becomes of the files, nor in a failure. What would be done is
broken off. -/
theorem configure_full (c : Config) (path : Path) (files : Files) (action : ConfigAction) :
    let done := configure .working c path files action
    configure .full c path files action =
      (if done.1.2 = .done then ({}, .brokenOff (.print .full)) else done.1, done.2) := by
  cases action with
  | print => rfl
  | locate => rfl
  | create =>
    simp only [configure]
    split
    · rfl
    · split <;> rfl

theorem configure_cases (c : Config) (path : Path) (files : Files) (action : ConfigAction) :
    (configure .working c path files action).1.2 = .done ∨
    ∃ failure, (configure .working c path files action).1 = ({}, .failed (.config failure)) := by
  cases action with
  | print => exact .inl rfl
  | locate => exact .inl rfl
  | create =>
    simp only [configure]
    split
    · exact .inl rfl
    · split
      · exact .inr ⟨_, rfl⟩
      · exact .inl rfl

/-- **A full output.** A run about the configuration file leaves the files as it would with an output
that works, and writes nothing. Where it would exit with 0 it is broken off with 101, and otherwise
it fails as it would. -/
theorem run_configures_full {s : Start} {action : ConfigAction} {log : Log.Filter}
    (h : Request.ofArguments? s.arguments = some (.task (.config action)))
    (hlog : Log.Filter.ofText? s.config.logLevel = some log) (hfull : s.output = .full) :
    let working := run { s with output := .working }
    (run s).output = [] ∧ (run s).files = working.files ∧
      (run s).exitCode = if working.exitCode = 0 then 101 else working.exitCode := by
  have hfulldone := configure_full s.config (Config.path s.environment) s.files action
  have hcases := configure_cases s.config (Config.path s.environment) s.files action
  cases hdone : configure .working s.config (Config.path s.environment) s.files action with
  | mk outcome files =>
  obtain ⟨written, ending⟩ := outcome
  have hworking := @run_logged { s with output := .working } _ h _ hlog _ _ _ hdone
  rw [hdone] at hfulldone hcases
  rcases hcases with hending | ⟨failure, houtcome⟩
  · cases hending
    rw [← hfull] at hfulldone
    rw [run_logged h hlog hfulldone, hworking]
    exact ⟨rfl, rfl, rfl⟩
  · cases houtcome
    rw [← hfull] at hfulldone
    rw [run_logged h hlog hfulldone, hworking]
    exact ⟨rfl, rfl, rfl⟩

end Command
end Lox

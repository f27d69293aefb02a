import Lox.Proofs.Create
import Lox.Proofs.Loading

/-!
# Creating the configuration takes effect

A path that can be saved to leads to the saved file afterwards, even if folders had to be made on
the way, through which it goes on or comes back. So a run that has created the configuration has
left a file that is found and loaded, and the next such run leaves everything as it is.

The log is set up before anything is created. A level that cannot be used for that breaks the run
off, whatever the files are.

Results:
* `creates_cases`: the four ways in which a run that creates the configuration can go.
* `create_settles`: what such a run leaves for the next one, and its exit codes.
* `create_breaks_off`: a run that is broken off where the file is there.
-/
namespace Lox
namespace Command

open Utf8 (encode)

/-- A run that is asked to create the configuration file, and can say what it did. -/
structure Start.Creates (s : Start) : Prop where
  request : Request.ofArguments? s.arguments = some (.task (.config .create))
  output : s.output = .working

/-- The same run on the files that it left. -/
def Start.again (s : Start) : Start := { s with files := (run s).files }

theorem Start.Creates.again {s : Start} (h : s.Creates) : s.again.Creates := ⟨h.request, h.output⟩

variable {s : Start}

/-! ## One run -/

/-- The two messages differ at their first letter. -/
theorem alreadyThere_ne_created (p : Path) : (alreadyThere p).output ≠ (created p).output := by
  intro h
  have hfirst : some 'C' = some 'I' := congrArg List.head? h
  exact absurd hfirst (by decide)

theorem creates_unlogged (h : s.Creates) (hlog : Log.Filter.ofText? s.config.logLevel = none) :
    (run s).exitCode = 101 ∧ (run s).files = s.files := by
  rw [run_unlogged h.request hlog]
  exact ⟨rfl, rfl⟩

theorem creates_logged (h : s.Creates) {log : Log.Filter}
    (hlog : Log.Filter.ofText? s.config.logLevel = some log) {written : Transcript}
    {ending : Ending} {files : Files}
    (hdone : configure .working s.config (Config.path s.environment) s.files .create =
      ((written, ending), files)) :
    (run s).exitCode = ending.exitCode ∧ (run s).output = written.output ∧
      (run s).files = files := by
  rw [← h.output] at hdone
  rw [run_logged h.request hlog hdone]
  exact ⟨rfl, rfl, rfl⟩

/-- The file is there already. -/
theorem run_present (h : s.Creates) {log : Log.Filter}
    (hlog : Log.Filter.ofText? s.config.logLevel = some log)
    (hexists : s.files.exists? (Config.path s.environment) = true) :
    (run s).exitCode = 0 ∧ (run s).output = (alreadyThere (Config.path s.environment)).output ∧
      (run s).files = s.files :=
  creates_logged h hlog (if_pos hexists)

/-- The file is missing, and is saved or not. -/
theorem run_missing (h : s.Creates) {log : Log.Filter}
    (hlog : Log.Filter.ofText? s.config.logLevel = some log)
    (hmissing : s.files.exists? (Config.path s.environment) = false) :
    (run s).files = (Config.save {} s.files (Config.path s.environment)).1 ∧
      (((Config.save {} s.files (Config.path s.environment)).2 = none ∧ (run s).exitCode = 0 ∧
          (run s).output = (created (Config.path s.environment)).output) ∨
        ((Config.save {} s.files (Config.path s.environment)).2 ≠ none ∧
          (run s).exitCode = 78)) := by
  cases hsave : Config.save {} s.files (Config.path s.environment) with
  | mk files failure =>
    cases failure with
    | none =>
      have hconfigure : configure .working s.config (Config.path s.environment) s.files .create =
          ((created (Config.path s.environment), .done), files) := by
        simp only [configure, hmissing, Bool.false_eq_true, if_false, hsave, Output.print]
      obtain ⟨hcode, houtput, hfiles⟩ := creates_logged h hlog hconfigure
      exact ⟨hfiles, .inl ⟨rfl, hcode, houtput⟩⟩
    | some failure =>
      have hconfigure : configure .working s.config (Config.path s.environment) s.files .create =
          (({}, .failed (.config failure)), files) := by
        simp only [configure, hmissing, Bool.false_eq_true, if_false, hsave]
      obtain ⟨hcode, -, hfiles⟩ := creates_logged h hlog hconfigure
      exact ⟨hfiles, .inr ⟨Option.some_ne_none _, hcode⟩⟩

/-! ## The next run -/

theorem config_missing (h : s.files.exists? (Config.path s.environment) = false) :
    s.config.logLevel = s.bareLevel :=
  load_level (Bool.eq_false_iff.1 h)

/-- What was created is loaded. -/
theorem load_created (h : (Config.save {} s.files (Config.path s.environment)).2 = none) :
    Config.load (Config.save {} s.files (Config.path s.environment)).1 s.environment =
      ({ logLevel := s.bareLevel }, none) :=
  Config.load_ok (Config.loadFrom_of_saved (Prod.ext rfl h))

theorem exists?_of_saved (h : (Config.save {} s.files (Config.path s.environment)).2 = none) :
    (Config.save {} s.files (Config.path s.environment)).1.exists? (Config.path s.environment) =
      true :=
  Config.exists?_of_loadFrom (Config.loadFrom_of_saved (Prod.ext rfl h))

/-- **The four ways** in which a run can go: the log cannot be set up; the file is there; it is
missing, and is saved; it is missing, and cannot be saved. -/
theorem creates_cases (h : s.Creates) :
    (Log.Filter.ofText? s.config.logLevel = none ∧ (run s).exitCode = 101) ∨
    (∃ log, Log.Filter.ofText? s.config.logLevel = some log ∧
      ((s.files.exists? (Config.path s.environment) = true ∧ (run s).exitCode = 0 ∧
          (run s).output = (alreadyThere (Config.path s.environment)).output ∧
          (run s).files = s.files) ∨
        (s.files.exists? (Config.path s.environment) = false ∧
          (Config.save {} s.files (Config.path s.environment)).2 = none ∧ (run s).exitCode = 0 ∧
          (run s).files = (Config.save {} s.files (Config.path s.environment)).1) ∨
        (s.files.exists? (Config.path s.environment) = false ∧
          (Config.save {} s.files (Config.path s.environment)).2 ≠ none ∧
          (run s).exitCode = 78))) := by
  cases hlog : Log.Filter.ofText? s.config.logLevel with
  | none => exact .inl ⟨rfl, (creates_unlogged h hlog).1⟩
  | some log =>
    refine .inr ⟨log, rfl, ?_⟩
    cases hexists : s.files.exists? (Config.path s.environment) with
    | true =>
      obtain ⟨hcode, houtput, hfiles⟩ := run_present h hlog hexists
      exact .inl ⟨rfl, hcode, houtput, hfiles⟩
    | false =>
      obtain ⟨hfiles, ⟨hsaved, hcode, -⟩ | ⟨hfailed, hcode⟩⟩ := run_missing h hlog hexists
      · exact .inr (.inl ⟨rfl, hsaved, hcode, hfiles⟩)
      · exact .inr (.inr ⟨rfl, hfailed, hcode⟩)

/-- Where the file is there and the log can be set up, the next run changes nothing. -/
theorem run_again (h : s.Creates) {log : Log.Filter}
    (hlog : Log.Filter.ofText? s.again.config.logLevel = some log)
    (hexists : (run s).files.exists? (Config.path s.environment) = true) :
    (run s.again).exitCode = 0 ∧ (run s.again).files = (run s).files := by
  obtain ⟨hcode, -, hfiles⟩ := run_present h.again hlog hexists
  exact ⟨hcode, hfiles⟩

/-- **Creating settles things.** A run that exits with 0 leaves a file at the path, which the next
run in the same environment leaves as it is, with all others; and if it says that it has created the
file, the defaults are loaded from it. Where the log can be set up, a run exits with another code
exactly if the path did not exist and could not be saved to, and then with 78. Where it cannot be
set up, the run is broken off with 101, whatever the files are, and they stay as they are. -/
theorem create_settles (h : s.Creates) :
    ((run s).exitCode = 0 →
      (run s).files.exists? (Config.path s.environment) = true ∧
      (run s.again).exitCode = 0 ∧ (run s.again).files = (run s).files ∧
      ((run s).output = (created (Config.path s.environment)).output →
        Config.load (run s).files s.environment = ({ logLevel := s.bareLevel }, none))) ∧
    ((Log.Filter.ofText? s.config.logLevel).isSome = true →
      ((run s).exitCode ≠ 0 ↔ s.files.exists? (Config.path s.environment) = false ∧
        (Config.save {} s.files (Config.path s.environment)).2 ≠ none) ∧
      ((run s).exitCode ≠ 0 → (run s).exitCode = 78)) ∧
    (Log.Filter.ofText? s.config.logLevel = none →
      (run s).exitCode = 101 ∧ (run s).files = s.files) := by
  refine ⟨?_, ?_, creates_unlogged h⟩
  · intro hzero
    rcases creates_cases h with ⟨-, hcode⟩ | ⟨log, hlog, hcases⟩
    · rw [hcode] at hzero
      cases hzero
    rcases hcases with ⟨hexists, -, houtput, hfiles⟩ | ⟨hmissing, hsaved, -, hfiles⟩ | ⟨-, -, hcode⟩
    · have hagain : s.again.config = s.config := by
        simp only [Start.config, Start.again, hfiles]
      obtain ⟨hcode, hsame⟩ := run_again h (hagain ▸ hlog) (hfiles ▸ hexists)
      refine ⟨hfiles ▸ hexists, hcode, hsame, ?_⟩
      exact fun hcreated => absurd (houtput.symm.trans hcreated) (alreadyThere_ne_created _)
    · have hload := load_created hsaved
      have hexists := exists?_of_saved hsaved
      rw [← hfiles] at hload hexists
      have hlevel : s.again.config.logLevel = s.config.logLevel := by
        rw [config_missing hmissing, Start.config, Start.again, hload]
      obtain ⟨hcode, hsame⟩ := run_again h (hlevel ▸ hlog) hexists
      exact ⟨hexists, hcode, hsame, fun _ => hload⟩
    · rw [hcode] at hzero
      cases hzero
  · intro hlogged
    rcases creates_cases h with ⟨hlog, -⟩ | ⟨log, hlog, hcases⟩
    · rw [hlog] at hlogged
      cases hlogged
    rcases hcases with ⟨hexists, hcode, -⟩ | ⟨hmissing, hsaved, hcode, -⟩ |
      ⟨hmissing, hfailed, hcode⟩
    · exact ⟨⟨fun hne => absurd hcode hne, fun hno => absurd hexists (by simp [hno.1])⟩,
        fun hne => absurd hcode hne⟩
    · exact ⟨⟨fun hne => absurd hcode hne, fun hno => absurd hsaved hno.2⟩,
        fun hne => absurd hcode hne⟩
    · exact ⟨⟨fun _ => ⟨hmissing, hfailed⟩, fun _ => by rw [hcode]; decide⟩, fun _ => hcode⟩

/-- A run with an empty folder for its configuration. -/
def firstStart : Start where
  arguments := [word "config", word "init"]
  files :=
    { root := .folder [(word ".lox", .folder [(word "default", .folder [])])]
      here := [] }

theorem firstStart_path : Config.path firstStart.environment = word "./.lox/default/config.json" := by
  decide

theorem firstStart_saved :
    Config.save {} firstStart.files (word "./.lox/default/config.json") =
      (atDefault (encode ({} : Config).write), none) := by
  have hoccupied : firstStart.files.makeFolder (word "./.lox/default") = .error .occupied := rfl
  have hmade : firstStart.files.makeFolders (word "./.lox/default") =
      firstStart.files.settle (word "./.lox/default") :=
    Files.makeFolders_of_ne_missing (by decide) (by rw [hoccupied]; exact nofun)
  have hfolders : Config.folders firstStart.files (word "./.lox/default/config.json") =
      firstStart.files.settle (word "./.lox/default") := hmade
  rw [Config.save_eq, hfolders]
  rfl

/-- The file is created, the defaults are loaded from it, and the next run leaves it. -/
theorem create_settles_first :
    firstStart.Creates ∧ (run firstStart).exitCode = 0 ∧
    (run firstStart).files = atDefault (encode ({} : Config).write) ∧
    (run firstStart.again).exitCode = 0 ∧ (run firstStart.again).files = (run firstStart).files ∧
    Config.load (run firstStart).files firstStart.environment = ({}, none) := by
  have hcreates : firstStart.Creates := ⟨by decide, rfl⟩
  have hmissing : firstStart.files.exists? (Config.path firstStart.environment) = false := by decide
  have hsaved := firstStart_saved
  rw [← firstStart_path] at hsaved
  have hlog : Log.Filter.ofText? firstStart.config.logLevel = some (Log.Filter.upTo .warn) := by
    rw [config_missing hmissing]
    decide
  obtain ⟨hfiles, ⟨-, hcode, houtput⟩ | ⟨hfailed, -⟩⟩ := run_missing hcreates hlog hmissing
  · rw [hsaved] at hfiles
    obtain ⟨hzero, -, -⟩ := create_settles hcreates
    obtain ⟨-, hagain, hsame, hload⟩ := hzero hcode
    exact ⟨hcreates, hcode, hfiles, hagain, hsame, hload houtput⟩
  · rw [hsaved] at hfailed
    exact absurd rfl hfailed

/-- A run whose level starts with a blank of three bytes, before a level for one target. The file is
there. -/
def brokenStart : Start where
  arguments := [word "config", word "init"]
  environment := { home := some (word "."), logLevel := some (word "\u3000a=debug") }
  files := atDefault (encode ({} : Config).write)

theorem create_breaks_off :
    brokenStart.Creates ∧ brokenStart.files.exists? (Config.path brokenStart.environment) = true ∧
    (run brokenStart).exitCode = 101 := by
  have hrequest : Request.ofArguments? brokenStart.arguments = some (.task (.config .create)) := by
    decide
  have hpath : Config.path brokenStart.environment = word "./.lox/default/config.json" := by
    simp only [Config.path, brokenStart, Environment.pathOr, Environment.text?, word,
      Option.bind_some, Utf8.decode?_encode]
    decide
  have hlevel : brokenStart.config.logLevel = "\u3000a=debug".toList :=
    Config.load_logLevel (Utf8.decode?_encode _)
  have hlog : Log.Filter.ofText? brokenStart.config.logLevel = none := by
    rw [hlevel]
    decide
  refine ⟨⟨hrequest, rfl⟩, ?_, (creates_unlogged ⟨hrequest, rfl⟩ hlog).1⟩
  rw [hpath]
  rfl

end Command
end Lox

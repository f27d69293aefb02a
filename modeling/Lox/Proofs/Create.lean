import Lox.Proofs.Runs
import Lox.Proofs.Save

/-!
# Creating the configuration file

Creating looks first whether the configuration file exists, and then saves the default
configuration. A folder that is missing at first makes the file look missing too; when it has been
made, and steps up lead out of it again, the path may end at a file that was there all along. That
is a detour, and the only way in which a file is lost.

Results:
* `Detour.up_mem`: a detour to something that exists goes up somewhere.
* `create_keeps_iff`: a run that creates the configuration keeps all files exactly if its path is no
  detour to a file, and what it loses otherwise.
* `create_loses_file`: a run that loses a file.
-/
namespace Lox

/-! ## Detours -/

namespace Files

variable {f g : Files} {p : Path}

/-- A way that cannot be gone at first, and that only folders are missing on. -/
structure Detour (f : Files) (p : Path) : Prop where
  usable : check p = none
  start : f.root.item? (f.start p) = some .folder
  clear : f.root.Clear (f.start p) p.steps
  gap : ¬ f.root.Passable (f.start p) p.steps

/-- Without a step up, what is at the end of a detour is missing. -/
theorem Detour.up_mem (h : Detour f p) (hgoal : f.root.item? (f.goal p) ≠ none) : .up ∈ p.steps :=
  Classical.byContradiction fun hup => h.gap (Node.passable_of_no_up hup h.clear hgoal)

theorem Detour.writable (h : Detour f p) : Writable f p := by
  obtain ⟨hbase, hshort⟩ := Node.clear_last h.clear
  exact ⟨h.usable, h.start, (Node.clear_snoc_stay.1 hbase).1, hshort⟩

/-- Every file is still there, with the same content. -/
def Keeps (f g : Files) : Prop :=
  ∀ place content, f.root.at? place = some (.file content) → g.root.at? place = some (.file content)

theorem Grown.keeps (h : Grown f g) : Keeps f g := by
  intro place content hfile
  exact Node.item?_eq_file.1 (h.file_iff.2 (Node.item?_eq_file.2 hfile))

end Files

/-! ## Runs that create the configuration file -/

namespace Command

/-- A run that is asked to create the configuration file. -/
def Start.creating (s : Start) : Start := { s with arguments := [word "config", word "init"] }

theorem creating_request (s : Start) :
    Request.ofArguments? s.creating.arguments = some (.task (.config .create)) := by
  show Request.ofArguments? [word "config", word "init"] = _
  decide

/-- The level of the log where no configuration file is found. -/
def Start.bareLevel (s : Start) : List Char :=
  (Environment.text? s.environment.logLevel).getD ({} : Config).logLevel

theorem load_level {s : Start} (h : ¬ s.files.exists? (Config.path s.environment) = true) :
    s.config.logLevel = s.bareLevel := by
  simp only [Start.config, Config.load, if_neg h]
  rfl

theorem configure_create (output : Output) (c : Config) (p : Path) (f : Files) :
    (configure output c p f .create).2 =
      if f.exists? p = true then f else (Config.save {} f p).1 := by
  unfold configure
  by_cases hexists : f.exists? p = true
  · simp only [if_pos hexists]
  · simp only [if_neg hexists]
    cases Config.save {} f p with
    | mk g failure => cases failure <;> rfl

theorem files_unlogged {s : Start} (h : Log.Filter.ofText? s.config.logLevel = none) :
    (run s.creating).files = s.files := by
  rw [run_unlogged (creating_request s) h]
  rfl

theorem files_logged {s : Start} {log : Log.Filter}
    (h : Log.Filter.ofText? s.config.logLevel = some log) :
    (run s.creating).files =
      (configure s.output s.config (Config.path s.environment) s.files .create).2 := by
  rw [run_logged (creating_request s) h rfl]
  rfl

/-- **The files after creating.** They are touched only if the log can be set up and the
configuration file does not exist. -/
theorem files_creating (s : Start) :
    (run s.creating).files =
      if (Log.Filter.ofText? s.bareLevel).isSome = true ∧
        ¬ s.files.exists? (Config.path s.environment) = true then
        (Config.save {} s.files (Config.path s.environment)).1
      else s.files := by
  have hconfigure := configure_create s.output s.config (Config.path s.environment) s.files
  by_cases hexists : s.files.exists? (Config.path s.environment) = true
  · rw [if_neg fun h => h.2 hexists]
    cases hlog : Log.Filter.ofText? s.config.logLevel with
    | none => exact files_unlogged hlog
    | some log => rw [files_logged hlog, hconfigure, if_pos hexists]
  · cases hlog : Log.Filter.ofText? s.bareLevel with
    | none =>
      rw [files_unlogged ((load_level hexists).symm ▸ hlog)]
      rfl
    | some log =>
      rw [files_logged ((load_level hexists).symm ▸ hlog), hconfigure, if_neg hexists]
      exact (if_pos ⟨rfl, hexists⟩).symm

/-- The path is a detour to a file that does not hold the default configuration already. -/
structure Overwrites (s : Start) : Prop where
  log : (Log.Filter.ofText? s.bareLevel).isSome = true
  detour : Files.Detour s.files (Config.path s.environment)
  file : ∃ content, s.files.root.at? (s.files.goal (Config.path s.environment)) =
    some (.file content) ∧ content ≠ Utf8.encode ({} : Config).write

theorem Overwrites.written {s : Start} (h : Overwrites s) :
    (run s.creating).files.root.at? (s.files.goal (Config.path s.environment)) =
      some (.file (Utf8.encode ({} : Config).write)) := by
  obtain ⟨old, hold, -⟩ := h.file
  obtain ⟨q, hq⟩ := Config.path_eq s.environment
  have hexists : ¬ s.files.exists? (Config.path s.environment) = true :=
    fun he => h.detour.gap (Files.exists?_iff.1 he).2
  have hsaved : (Config.save {} s.files (Config.path s.environment)).2 = none :=
    Config.save_of_writable Config.fileName_step Config.slash_notMem_fileName hq h.detour.writable
      (Node.item?_eq_file.2 hold)
  rw [files_creating, if_pos ⟨h.log, hexists⟩]
  rcases Config.save_cases {} s.files (Config.path s.environment) with
    ⟨hfailed, -⟩ | ⟨-, -, g, -, hitems⟩
  · exact absurd hsaved hfailed
  · exact Node.item?_eq_file.1 ((hitems _).trans (if_pos rfl))

/-- The only file that creating can change is the one at the end of a detour. -/
theorem file_creating {s : Start} {place : Place} {content : Bytes}
    (h : s.files.root.at? place = some (.file content)) :
    (run s.creating).files.root.at? place = some (.file content) ∨
    (Overwrites s ∧ place = s.files.goal (Config.path s.environment)) := by
  rw [files_creating]
  by_cases htouched : (Log.Filter.ofText? s.bareLevel).isSome = true ∧
      ¬ s.files.exists? (Config.path s.environment) = true
  case neg =>
    rw [if_neg htouched]
    exact .inl h
  rw [if_pos htouched]
  obtain ⟨hlog, hexists⟩ := htouched
  rcases Config.save_cases {} s.files (Config.path s.environment) with
    ⟨-, hgrown⟩ | ⟨-, ⟨hp, hstart, hclear, -⟩, g, hgrown, hitems⟩
  · exact .inl (hgrown.keeps place content h)
  by_cases hplace : place = s.files.goal (Config.path s.environment)
  · by_cases hcontent : content = Utf8.encode ({} : Config).write
    · refine .inl (Node.item?_eq_file.1 ?_)
      rw [hitems, if_pos hplace, hcontent]
    · obtain ⟨q, hq⟩ := Config.path_eq s.environment
      refine .inr ⟨⟨hlog, ⟨hp, hstart, ?_, fun hpass => hexists (Files.exists?_iff.2 ⟨hp, hpass⟩)⟩,
        content, hplace ▸ h, hcontent⟩, hplace⟩
      rw [hq] at hclear ⊢
      rw [Path.splitLast_named Config.fileName_step Config.slash_notMem_fileName] at hclear
      exact Node.clear_named Config.fileName_step Config.slash_notMem_fileName
        Config.fileName_length hclear
  · refine .inl (Node.item?_eq_file.1 ?_)
    rw [hitems, if_neg hplace]
    exact Node.item?_eq_file.2 (hgrown.keeps place content h)

/-- **When creating loses a file.** A run that creates the configuration keeps every file, with its
content, exactly if its path is no detour to a file. Otherwise it loses the one at the end of the
path, which then holds the default configuration, and keeps all others. A detour goes up
somewhere. -/
theorem create_keeps_iff (s : Start) :
    (Files.Keeps s.files (run s.creating).files ↔ ¬ Overwrites s) ∧
    (∀ place content, s.files.root.at? place = some (.file content) →
      (run s.creating).files.root.at? place = some (.file content) ∨
      (place = s.files.goal (Config.path s.environment) ∧
        (run s.creating).files.root.at? place = some (.file (Utf8.encode ({} : Config).write)))) ∧
    (Overwrites s → .up ∈ (Config.path s.environment).steps) := by
  refine ⟨⟨?_, ?_⟩, ?_, ?_⟩
  · intro hkeeps hover
    obtain ⟨old, hold, hne⟩ := hover.file
    have hsame := (hkeeps _ _ hold).symm.trans hover.written
    cases hsame
    exact hne rfl
  · intro hnot place content h
    rcases file_creating h with hkept | ⟨hover, -⟩
    · exact hkept
    · exact absurd hover hnot
  · intro place content h
    rcases file_creating h with hkept | ⟨hover, hplace⟩
    · exact .inl hkept
    · exact .inr ⟨hplace, hplace ▸ hover.written⟩
  · intro hover
    obtain ⟨old, hold, -⟩ := hover.file
    refine hover.detour.up_mem ?_
    rw [Node.item?_of_at? hold]
    exact Option.some_ne_none _

/-- A configuration file in the default environment, and the name of an environment that leads there
through a folder that is missing. -/
def detoured : Start where
  arguments := []
  environment := { home := some (word "home"), profile := some (word "new/../default") }
  files :=
    { root := .folder [(word "home", .folder [(word ".lox", .folder [(word "default", .folder
        [(word "config.json", .file (word "mine"))])])])]
      here := [] }

theorem detoured_path :
    Config.path detoured.environment = word "home/.lox/new/../default/config.json" := by
  simp only [Config.path, detoured, Environment.pathOr, Environment.text?, word, Option.bind_some,
    Utf8.decode?_encode, Option.getD_some]
  decide

theorem create_loses_file :
    detoured.files.root.at? [word "home", word ".lox", word "default", word "config.json"] =
      some (.file (word "mine")) ∧
    (run detoured.creating).files.root.at?
        [word "home", word ".lox", word "default", word "config.json"] =
      some (.file (Utf8.encode ({} : Config).write)) ∧
    ¬ Files.Keeps detoured.files (run detoured.creating).files := by
  have hgoal : detoured.files.goal (Config.path detoured.environment) =
      [word "home", word ".lox", word "default", word "config.json"] := by
    rw [detoured_path]
    decide
  have hold : detoured.files.root.at?
      [word "home", word ".lox", word "default", word "config.json"] = some (.file (word "mine")) := by
    rfl
  have hover : Overwrites detoured := by
    refine ⟨?_, ⟨?_, ?_, ?_, ?_⟩, word "mine", hgoal ▸ hold, ?_⟩
    · decide
    · rw [detoured_path]; decide
    · rw [detoured_path]; decide
    · rw [detoured_path]; decide
    · rw [detoured_path]; decide
    · decide
  have hwritten := hover.written
  rw [hgoal] at hwritten
  refine ⟨hold, hwritten, ?_⟩
  intro hkeeps
  have hsame := Option.some.inj ((hkeeps _ _ hold).symm.trans hwritten)
  exact absurd (Node.file.inj hsame) (by decide)

end Command
end Lox

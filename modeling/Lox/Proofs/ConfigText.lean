import Lox.Proofs.ConfigObject
import Lox.Proofs.JsonEcho
import Lox.Proofs.Runs
import Lox.Proofs.Save

/-!
# Written configurations are read back

The writer lays a configuration out as one record, a member a line. That is an object whose members
agree with the configuration and name each field once, so its text gives that configuration.

Results:
* `read_write`: the whole text, with any blanks behind it.
* `load_of_written`: loading the written text from the path of the configuration.
* `config_reads_back`: so a saved configuration is loaded again, and one that was shown too.
-/
namespace Lox
namespace Config

open Json (Blanks newLine quote ObjectText)
open Utf8 (encode)

/-! ## What is written -/

/-- A member on a line of its own. -/
def line (c : Config) (k : Field) : Json.Member where
  before := newLine 1
  key := k.name
  quoted := quote k.name
  inner := [' ']
  value := quote (c.textOf k)

/-- The written configuration, with blanks behind it. -/
def written (c : Config) (ending : List Char) : ObjectText where
  members := Field.all.map c.line
  inside := newLine 0
  ending := ending

theorem write_eq (c : Config) (ending : List Char) : c.write ++ ending = (c.written ending).text := by
  have hpretty : c.write = Json.prettyList 0 Json.Bracket.object.marks.1 Json.Bracket.object.marks.2
      (Field.all.map fun k => quote k.name ++ ':' :: ([' '] ++ quote (c.textOf k))) := rfl
  rw [hpretty, Json.prettyList_eq, if_neg (by simp [Field.all]), ObjectText.text, written,
    List.map_map, List.map_map]
  simp [Function.comp_def, line, Json.Member.item, Json.Item.text, Json.Member.lead]

theorem line_wellFormed (c : Config) (k : Field) : (c.line k).WellFormed where
  before := Json.blanks_newLine 1
  key := Json.quoted_quote k.name
  gap := List.forall_mem_nil _
  inner := List.forall_mem_singleton.2 rfl
  value := .string (Json.quoted_quote (c.textOf k))
  after := List.forall_mem_nil _

theorem written_wellFormed (c : Config) {ending : List Char} (hending : Blanks ending) :
    (c.written ending).WellFormed where
  opening := List.forall_mem_nil _
  members := List.forall_mem_map.2 fun k _ => c.line_wellFormed k
  inside := Json.blanks_newLine 0
  ending := hending

theorem agrees_line (c : Config) : Agrees c (Field.all.map c.line) := by
  intro x hx k hk
  obtain ⟨l, -, rfl⟩ := List.mem_map.1 hx
  have hl : Field.ofName? (c.line l).key = some k := ofName?_iff.2 hk
  obtain rfl : l = k := Option.some.inj ((ofName?_fieldName l).symm.trans hl)
  exact Json.quoted_quote _

theorem fields_line (c : Config) : fields (Field.all.map c.line) = Field.all := by
  simp [fields, Field.all, line, ofName?_fieldName]

/-! ## The whole text -/

theorem read_write (c : Config) {ending : List Char} (hending : Blanks ending) :
    read (encode (c.write ++ ending)) = .ok c := by
  have hall : ∀ k, k ∈ Field.all := by intro k; cases k <;> decide
  rw [write_eq]
  refine read_told (c.written_wellFormed hending) c.agrees_line ?_ ?_
  · rw [written, fields_line]
    decide
  · intro k hk
    rw [written, fields_line] at hk
    exact absurd (hall k) hk

/-- A file that holds the text of a configuration, and blanks behind it. -/
theorem ofFile_write (c : Config) {ending : List Char} (hending : Blanks ending) (p : Path) :
    ofFile p (.ok (encode (c.write ++ ending))) = .ok c := by
  simp only [ofFile, Utf8.decode?_encode, read_write c hending]

/-! ## Files -/

variable {c : Config} {f g : Files}

theorem loadFrom_of_saved {p : Path} (h : c.save f p = (g, none)) : loadFrom g p = .ok c := by
  rw [save_eq] at h
  split at h
  · cases h
  split at h
  · cases h
  rename_i hwrite
  cases h
  have hread := ofFile_write c (List.forall_mem_nil _) p
  rw [List.append_nil] at hread
  rw [loadFrom, (Files.write_cases hwrite).read, hread]

/-- The level of the environment comes before any other. -/
theorem load_logLevel {e : Environment} {level : List Char}
    (h : Environment.text? e.logLevel = some level) : (load f e).1.logLevel = level := by
  simp [load, effective, h]

/-- A configuration that an environment leaves as it is. -/
def Settled (e : Environment) (c : Config) : Prop :=
  ∀ level, Environment.text? e.logLevel = some level → c.logLevel = level

theorem settled_load (f : Files) (e : Environment) : Settled e (load f e).1 := by
  intro level hlevel
  exact load_logLevel hlevel

/-- Loading what was written, blanks behind it or not. -/
theorem load_of_written {e : Environment} {ending : List Char} (hending : Blanks ending)
    (h : f.write (path e) (encode (c.write ++ ending)) = .ok g) :
    loadFrom g (path e) = .ok c ∧ (Settled e c → load g e = (c, none)) := by
  have hwritten := Files.write_cases h
  have hread : loadFrom g (path e) = .ok c := by
    rw [loadFrom, hwritten.read, ofFile_write c hending]
  refine ⟨hread, ?_⟩
  intro hsettled
  have hsame : (Environment.text? e.logLevel).getD c.logLevel = c.logLevel := by
    cases hl : Environment.text? e.logLevel with
    | none => rfl
    | some level => exact (hsettled level hl).symm
  simp only [load, hwritten.exists?, if_true, hread, effective, hsame]

end Config

/-! ## Showing the configuration -/

namespace Command

/-- A run that is asked to show the configuration. -/
def Start.showing (s : Start) : Start := { s with arguments := [word "config", word "show"] }

theorem showing_request (s : Start) :
    Request.ofArguments? s.showing.arguments = some (.task (.config .print)) := by
  show Request.ofArguments? [word "config", word "show"] = _
  decide

/-- A run shows its configuration if the log can be set up. -/
theorem run_showing {s : Start} {log : Log.Filter} (hworking : s.output = .working)
    (hlog : Log.Filter.ofText? s.config.logLevel = some log) :
    run s.showing =
      { exitCode := 0
        output := s.config.write ++ ['\n']
        errors := loadWarning log (Config.load s.files s.environment).2
        files := s.files } := by
  have hdone : perform s.showing s.showing.config log (.config .print) =
      ((printed s.config, .done), s.files) := by
    show (s.output.print (printed s.config), s.files) = _
    rw [hworking]
    rfl
  rw [run_logged (showing_request s) hlog hdone]
  simp only [Start.showing, printed, Ending.exitCode, Ending.lines, List.append_nil]

/-- **Configurations are read back**: from the text that is written for them, and from any path where
they were saved. What is shown on an output that works is that text, for every configuration; if it
is written to the path of the configuration, then the configuration is read from there again, and
loaded as it is where it was in use. So it is for a run that can set up the log. -/
theorem config_reads_back :
    (∀ (c : Config) (p : Path), Config.ofFile p (.ok (Utf8.encode c.write)) = .ok c) ∧
    (∀ (c : Config) (f g : Files) (p : Path), c.save f p = (g, none) →
      Config.loadFrom g p = .ok c) ∧
    (∀ (c : Config) (e : Environment) (files : Files),
      let shown := configure .working c (Config.path e) files .print
      shown = ((⟨c.write ++ ['\n'], []⟩, .done), files) ∧
      ∀ f g : Files, f.write (Config.path e) (Utf8.encode shown.1.1.output) = .ok g →
        Config.loadFrom g (Config.path e) = .ok c ∧
        ∀ h : Files, (Config.load h e).1 = c → Config.load g e = (c, none)) ∧
    ∀ (s : Start) (log : Log.Filter), s.output = .working →
      Log.Filter.ofText? s.config.logLevel = some log →
      run s.showing =
        { exitCode := 0
          output := s.config.write ++ ['\n']
          errors := loadWarning log (Config.load s.files s.environment).2
          files := s.files } ∧
      ∀ f g : Files,
        f.write (Config.path s.environment) (Utf8.encode (run s.showing).output) = .ok g →
        Config.load g s.environment = (s.config, none) := by
  have hline : Json.Blanks ['\n'] := List.forall_mem_singleton.2 rfl
  refine ⟨?text, fun c f g p => Config.loadFrom_of_saved, ?shown, ?run⟩
  case text =>
    intro c p
    have h := Config.ofFile_write c (List.forall_mem_nil _) p
    rwa [List.append_nil] at h
  case shown =>
    intro c e files shown
    refine ⟨rfl, ?_⟩
    intro f g hwrite
    obtain ⟨hread, hload⟩ := Config.load_of_written hline hwrite
    refine ⟨hread, ?_⟩
    rintro h rfl
    exact hload (Config.settled_load h e)
  case run =>
    intro s log hworking hlog
    have hrun := run_showing hworking hlog
    refine ⟨hrun, ?_⟩
    intro f g hwrite
    rw [hrun] at hwrite
    exact (Config.load_of_written hline hwrite).2 (Config.settled_load s.files s.environment)

/-- A configuration of characters that need an escape or more than one byte. -/
def quoted : Config where
  prompt := ['"', '\\', '\n', '\x7f', '\u2028', '😀']
  format := .json
  logLevel := []

/-- A file in the working folder. -/
def inPlace (content : Bytes) : Files where
  root := .folder [(word "lox.json", .file content)]
  here := []

/-- A file where the default environment looks for the configuration. -/
def atDefault (content : Bytes) : Files where
  root := .folder [(word ".lox", .folder [(word "default", .folder
    [(word "config.json", .file content)])])]
  here := []

def quotedStart : Start where
  arguments := []
  files := atDefault (Utf8.encode quoted.write)

/-- The configuration of a run that finds it in its file. -/
theorem config_of_file {s : Start} {c : Config} (hlevel : s.environment.logLevel = none)
    (hexists : s.files.exists? (Config.path s.environment) = true)
    (hread : s.files.read (Config.path s.environment) = .ok (Utf8.encode c.write)) :
    s.config = c := by
  have hfile := Config.ofFile_write c (List.forall_mem_nil _) (Config.path s.environment)
  rw [List.append_nil, ← hread] at hfile
  simp only [Start.config, Config.load, hexists, if_true, Config.loadFrom, hfile, hlevel]
  rfl

theorem quotedStart_config : quotedStart.config = quoted :=
  config_of_file rfl (by rfl) (by rfl)

/-- A configuration whose level cuts a character in two, so that no log can be set up for it. -/
def unlogged : Config where
  logLevel := "\u3000a=debug".toList

/-- A file in the working folder takes the text and gives it back. A configuration that no run could
work with is shown and read again like any other. The file of the default environment is shown, what
was shown is written in its place, and it is loaded again. -/
theorem config_reads_back_quoted :
    quoted.save (inPlace []) (word "lox.json") = (inPlace (Utf8.encode quoted.write), none) ∧
    Config.loadFrom (inPlace (Utf8.encode quoted.write)) (word "lox.json") = .ok quoted ∧
    Log.Filter.ofText? unlogged.logLevel = none ∧
    configure .working unlogged (Config.path {}) (atDefault []) .print =
      ((⟨unlogged.write ++ ['\n'], []⟩, .done), atDefault []) ∧
    (atDefault []).write (Config.path {}) (Utf8.encode (unlogged.write ++ ['\n'])) =
      .ok (atDefault (Utf8.encode (unlogged.write ++ ['\n']))) ∧
    (Config.load (atDefault (Utf8.encode unlogged.write)) {}).1 = unlogged ∧
    Config.load (atDefault (Utf8.encode (unlogged.write ++ ['\n']))) {} = (unlogged, none) ∧
    Log.Filter.ofText? quotedStart.config.logLevel = some (Log.Filter.upTo .error) ∧
    (run quotedStart.showing).output = quoted.write ++ ['\n'] ∧
    quotedStart.files.write (Config.path {}) (Utf8.encode (quoted.write ++ ['\n'])) =
      .ok (atDefault (Utf8.encode (quoted.write ++ ['\n']))) ∧
    Config.load (atDefault (Utf8.encode (quoted.write ++ ['\n']))) {} = (quoted, none) := by
  obtain ⟨-, hload, hshown, hrun⟩ := config_reads_back
  have hsaved : quoted.save (inPlace []) (word "lox.json") =
      (inPlace (Utf8.encode quoted.write), none) := by
    have hparent : Path.parent? (word "lox.json") = some [] := by decide
    simp only [Config.save, hparent, Files.makeFolders_nil]
    rfl
  have hunlogged : (Config.load (atDefault (Utf8.encode unlogged.write)) {}).1 = unlogged :=
    @config_of_file { arguments := [], files := atDefault (Utf8.encode unlogged.write) } unlogged
      rfl (by rfl) (by rfl)
  have hput (c : Config) : (atDefault []).write (Config.path {}) (Utf8.encode (c.write ++ ['\n'])) =
      .ok (atDefault (Utf8.encode (c.write ++ ['\n']))) := by rfl
  have hwritten : quotedStart.files.write (Config.path {}) (Utf8.encode (quoted.write ++ ['\n'])) =
      .ok (atDefault (Utf8.encode (quoted.write ++ ['\n']))) := by rfl
  have hlog : Log.Filter.ofText? quotedStart.config.logLevel = some (Log.Filter.upTo .error) := by
    rw [quotedStart_config]
    decide
  obtain ⟨hprinted, hagain⟩ := hshown unlogged {} (atDefault [])
  obtain ⟨houtput, hback⟩ := hrun quotedStart _ rfl hlog
  rw [houtput, quotedStart_config] at hback
  rw [quotedStart_config] at houtput
  exact ⟨hsaved, hload _ _ _ _ hsaved, by decide, hprinted, hput unlogged, hunlogged,
    (hagain _ _ (hput unlogged)).2 _ hunlogged, hlog, congrArg Outcome.output houtput, hwritten,
    hback _ _ hwritten⟩

end Command
end Lox

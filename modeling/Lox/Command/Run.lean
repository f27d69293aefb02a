import Lox.Command.Request
import Lox.Command.Session

/-!
# Runs

A run reads its arguments, loads the configuration, and does what is asked for: it scans a script
or the input, or it shows, creates or locates the configuration file. Creating leaves a file that
is already there as it is.
-/
namespace Lox
namespace Command

def versionText : List Char := "lox-scanner 0.1.0\n".toList

def helpText : List Char :=
  ("Lox scanner\n\n" ++
    "Usage: lox [--format <FORMAT>] [SCRIPT]\n" ++
    "       lox config <show|init|path>\n\n" ++
    "  [SCRIPT]           Script to scan. Starts an interactive prompt when omitted\n" ++
    "  --format <FORMAT>  How to echo the scanned tokens: text or json\n" ++
    "  -h, --help         Print help\n" ++
    "  -V, --version      Print version\n").toList

/-- What a run starts from. -/
structure Start where
  arguments : List Bytes
  environment : Environment := {}
  input : Bytes := []
  output : Output := .working
  files : Files
  deriving Repr

/-- What a run leaves behind. -/
structure Outcome where
  exitCode : Nat
  output : List Char := []
  errors : List Char := []
  files : Files
  deriving Repr

/-- What an output takes of a text about the program itself. Such a text is lost without trouble if
the output is full. -/
def Output.taken (text : List Char) : Output → List Char
  | .working => text
  | .full => []

/-- Prints a line. It does not wait in the buffer, so a full output breaks the run off. -/
def Output.print (line : Transcript) : Output → Transcript × Ending
  | .working => (line, .done)
  | .full => ({}, .brokenOff (.print .full))

/-- The log line about a configuration that could not be loaded. -/
def loadWarning (log : Log.Filter) : Option ConfigFailure → List Char
  | none => []
  | some failure => log.write (.defaultConfig failure)

/-! ## The configuration file -/

def printed (c : Config) : Transcript := ⟨c.write ++ ['\n'], []⟩

def located (path : Path) : Transcript := ⟨path.display ++ ['\n'], []⟩

def alreadyThere (path : Path) : Transcript :=
  ⟨"Config file already exists at: ".toList ++ path.display ++ ['\n'], []⟩

def created (path : Path) : Transcript :=
  ⟨"Initialized new config file at: ".toList ++ path.display ++ ['\n'], []⟩

/-- Does something with the configuration file at `path`. -/
def configure (output : Output) (c : Config) (path : Path) (files : Files) :
    ConfigAction → (Transcript × Ending) × Files
  | .print => (output.print (printed c), files)
  | .locate => (output.print (located path), files)
  | .create =>
    if files.exists? path then (output.print (alreadyThere path), files)
    else
      match Config.save {} files path with
      | (files, some failure) => (({}, .failed (.config failure)), files)
      | (files, none) => (output.print (created path), files)

/-! ## Whole runs -/

/-- The session of a run, from its configuration and the format that was asked for. -/
def Session.ofConfig (c : Config) (format : Option Format) (log : Log.Filter) : Session :=
  { prompt := c.prompt, format := format.getD c.format, log := log }

/-- The session with another output. -/
def Session.on (s : Session) (output : Output) : Session := { s with output := output }

/-- Does a task under a configuration. -/
def perform (s : Start) (c : Config) (log : Log.Filter) : Task → (Transcript × Ending) × Files
  | .config action => configure s.output c (Config.path s.environment) s.files action
  | .scan (some path) format =>
    (((Session.ofConfig c format log).on s.output).script path (s.files.read path), s.files)
  | .scan none format =>
    (((Session.ofConfig c format log).on s.output).prompted (Session.lines s.input), s.files)

def run (s : Start) : Outcome :=
  match Request.ofArguments? s.arguments with
  | none =>
    { exitCode := Failure.usage.exitCode, errors := Failure.usage.message ++ ['\n'], files := s.files }
  | some .help => { exitCode := 0, output := s.output.taken helpText, files := s.files }
  | some .version => { exitCode := 0, output := s.output.taken versionText, files := s.files }
  | some (.task task) =>
    let (c, failure) := Config.load s.files s.environment
    match Log.Filter.ofText? c.logLevel with
    | none =>
      let ending := Ending.brokenOff .logFilter
      { exitCode := ending.exitCode, errors := ending.lines, files := s.files }
    | some log =>
      let ((written, ending), files) := perform s c log task
      { exitCode := ending.exitCode
        output := written.output
        errors := loadWarning log failure ++ written.errors ++ ending.lines
        files := files }

end Command
end Lox

import Lox.Command.Run

/-!
# Plans

A run told step by step, for a world that answers each step. A plan says what is asked of the world
next, and how to go on with the answer. Whether the output works is learned when something is
printed, and not before, so what comes of that is planned for both cases.

A session at the prompt goes on for as long as there are lines. It is planned one line at a time, and
comes back to its start; all else in a plan leads on to an end.
-/
namespace Lox
namespace Command

inductive Plan
  | stop (ending : Ending)
  /-- Tells the error output. -/
  | tell (text : List Char) (next : Plan)
  /-- Prints a text and flushes the output. -/
  | print (text : List Char) (next : Option Trouble → Plan)
  /-- Reads the next line of the input, which is empty at the end. -/
  | readLine (next : Except Trouble Bytes → Plan)
  | exists? (path : Path) (next : Bool → Plan)
  | readFile (path : Path) (next : Except Trouble Bytes → Plan)
  | makeFolders (path : Path) (next : Option Trouble → Plan)
  | writeFile (path : Path) (content : Bytes) (next : Option Trouble → Plan)
  | prompt (session : Session)

namespace Plan

/-- Tells and prints what is written, on an output that works or is full. What is told on a full
output is told before anything is printed. -/
def carry (outcome : Output → Transcript × Ending) (next : Ending → Plan) : Plan :=
  let (early, broken) := outcome .full
  let (written, ending) := outcome .working
  .tell early.errors (.print written.output fun
    | some _ => next broken
    | none => .tell (written.errors.drop early.errors.length) (next ending))

/-! ## The configuration file -/

def load (e : Environment) (next : Config × Option ConfigFailure → Plan) : Plan :=
  let path := Config.path e
  let found (file : Option (Except ConfigFailure Config)) : Plan :=
    next (Config.effective (Environment.text? e.logLevel) file)
  .exists? path fun
    | false => found none
    | true => .readFile path fun content => found (some (Config.ofFile path content))

def fill (c : Config) (path : Path) (next : Option ConfigFailure → Plan) : Plan :=
  .writeFile path (Utf8.encode c.write) fun
    | none => next none
    | some t => next (some (.access path t))

def save (c : Config) (path : Path) (next : Option ConfigFailure → Plan) : Plan :=
  match path.parent? with
  | none => fill c path next
  | some above => .makeFolders above fun
    | none => fill c path next
    | some t => next (some (.access path t))

def configure (path : Path) (c : Config) : ConfigAction → Plan
  | .print => carry (Output.print (printed c)) .stop
  | .locate => carry (Output.print (located path)) .stop
  | .create => .exists? path fun
    | true => carry (Output.print (alreadyThere path)) .stop
    | false => save {} path fun
      | none => carry (Output.print (created path)) .stop
      | some failure => .stop (.failed (.config failure))

/-! ## Sessions -/

def script (s : Session) (path : Path) : Plan :=
  .readFile path fun content => carry (fun output => (s.on output).script path content) .stop

/-- Goes on after what is done, and stops after everything else. -/
def onDone (next : Plan) : Ending → Plan
  | .done => next
  | ending => .stop ending

/-- What follows a prompt, with the line that was read. -/
def hear (s : Session) : Except Trouble Bytes → Plan
  | .error t => .stop (.failed (.output t))
  | .ok [] => .stop .done
  | .ok (b :: bs) => carry (fun output => (s.on output).answer (b :: bs)) (onDone (.prompt s))

/-- One line at the prompt, from its prompt to the next one. -/
def turn (s : Session) : Plan :=
  carry (fun output => (s.on output).showPrompt) (onDone (.readLine (hear s)))

/-! ## Whole runs -/

def perform (e : Environment) (c : Config) (log : Log.Filter) : Task → Plan
  | .config action => configure (Config.path e) c action
  | .scan (some path) format => script (Session.ofConfig c format log) path
  | .scan none format => .prompt (Session.ofConfig c format log)

/-- Does a task once the configuration is loaded, if the log can be set up. -/
def begin (e : Environment) (task : Task) (loaded : Config × Option ConfigFailure) : Plan :=
  match Log.Filter.ofText? loaded.1.logLevel with
  | none => .stop (.brokenOff .logFilter)
  | some log => .tell (loadWarning log loaded.2) (perform e loaded.1 log task)

/-- Prints a text about the program itself. -/
def inform (text : List Char) : Plan := carry (fun output => (⟨output.taken text, []⟩, .done)) .stop

/-- The plan of a run with the arguments, in the environment. -/
def ofArguments (arguments : List Bytes) (e : Environment) : Plan :=
  match Request.ofArguments? arguments with
  | none => .stop (.failed .usage)
  | some .help => inform helpText
  | some .version => inform versionText
  | some (.task task) => load e (begin e task)

end Plan
end Command
end Lox

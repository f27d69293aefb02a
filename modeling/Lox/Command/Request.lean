import Lox.Files.Path
import Lox.Token.Record

/-!
# Requests

What a list of arguments asks for. Arguments are read from left to right; a help or version flag
ends the reading, and what cannot be read before it is a usage error.

Only the very first argument can name a command. After a format the name of a command is a script
like any other word, and after `--` every argument is a script.
-/
namespace Lox
namespace Command

/-- What is to be done with the configuration. -/
inductive ConfigAction
  | print
  | create
  | locate
  deriving DecidableEq, Repr

/-- What needs a configuration to be loaded. -/
inductive Task
  | config (action : ConfigAction)
  | scan (script : Option Path) (format : Option Format)
  deriving DecidableEq, Repr

inductive Request
  | help
  | version
  | task (t : Task)
  deriving DecidableEq, Repr

/-! ## Arguments -/

/-- The bytes of a plain word. -/
def word (s : String) : Bytes := Utf8.encode s.toList

def ConfigAction.name : ConfigAction → Bytes
  | print => word "show"
  | create => word "init"
  | locate => word "path"

def ConfigAction.ofName? (arg : Bytes) : Option ConfigAction :=
  [print, create, locate].find? (·.name = arg)

def dash : UInt8 := Utf8.ascii '-'

/-- `-` followed by more than another dash; the first letter decides. -/
def shortFlag? (arg : Bytes) : Option UInt8 :=
  match arg with
  | a :: b :: _ => if a = dash ∧ b ≠ dash then some b else none
  | _ => none

def isLongFlag (arg : Bytes) : Bool := (word "--").isPrefixOf arg

def isHelp (arg : Bytes) : Bool :=
  arg == word "--help" || shortFlag? arg == some (Utf8.ascii 'h')

def isVersion (arg : Bytes) : Bool :=
  arg == word "--version" || shortFlag? arg == some (Utf8.ascii 'V')

def formatOf? (arg : Bytes) : Option Format := Format.all.find? fun f => Utf8.encode f.name = arg

/-- A format that is given for the first time. -/
def onlyFormat? (old : Option Format) (arg : Bytes) : Option Format :=
  if old.isSome then none else formatOf? arg

/-! ## Commands -/

/-- Help about a command by its names. -/
def helpAbout : List Bytes → Option Request
  | [] => some .help
  | [a] => if a = word "config" ∨ a = word "help" then some .help else none
  | [a, b] =>
    if a = word "config" ∧ (b = word "help" ∨ (ConfigAction.ofName? b).isSome) then some .help
    else none
  | _ => none

def afterAction (action : ConfigAction) : List Bytes → Option Request
  | [] => some (.task (.config action))
  | a :: rest =>
    if isHelp a then some .help
    else if a = word "--" ∧ rest = [] then some (.task (.config action))
    else none

def afterConfig : List Bytes → Option Request
  | [] => none
  | a :: rest =>
    if isHelp a then some .help
    else if a = word "help" then helpAbout (word "config" :: rest)
    else (ConfigAction.ofName? a).bind (afterAction · rest)

/-! ## Scripts and formats -/

/-- A script that is given for the first time, and is not empty. -/
def onlyScript? (old : Option Path) (arg : Bytes) : Option Path :=
  if old.isSome ∨ arg = [] then none else some arg

/-- The arguments after `--`. -/
def scripts (script : Option Path) (format : Option Format) : List Bytes → Option Request
  | [] => some (.task (.scan script format))
  | a :: rest => (onlyScript? script a).bind fun s => scripts (some s) format rest

/-- The arguments that belong to no command, from some place on, with what was given before them. -/
def arguments (script : Option Path) (format : Option Format) : List Bytes → Option Request
  | [] => some (.task (.scan script format))
  | a :: rest =>
    if a = word "--" then scripts script format rest
    else if isHelp a then some .help
    else if isVersion a then some .version
    else if a = word "--format" then
      match rest with
      | [] => none
      | v :: rest => (onlyFormat? format v).bind fun f => arguments script (some f) rest
    else if (word "--format=").isPrefixOf a then
      (onlyFormat? format (a.drop (word "--format=").length)).bind fun f =>
        arguments script (some f) rest
    else if isLongFlag a ∨ (shortFlag? a).isSome then none
    else (onlyScript? script a).bind fun s => arguments (some s) format rest

/-- What the arguments ask for; nothing for a usage error. -/
def Request.ofArguments? (args : List Bytes) : Option Request :=
  if args.head? = some (word "config") then afterConfig args.tail
  else if args.head? = some (word "help") then helpAbout args.tail
  else arguments none none args

end Command
end Lox

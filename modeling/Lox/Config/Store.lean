import Lox.Config.Reader
import Lox.Failure
import Lox.Files.Basic

/-!
# Where configurations are kept

The configuration file lies in the home folder, in a folder for the environment that is in use.
Where it does not exist the defaults are used; where it cannot be read they are used too, and the
failure is kept. A log level in the environment comes before any other.

A variable that is no UTF-8 counts as not set.
-/
namespace Lox

/-- The variables that matter, as far as they are set. -/
structure Environment where
  home : Option Bytes := none        -- HOME
  profile : Option Bytes := none     -- LOX_ENV
  logLevel : Option Bytes := none    -- LOX_LOG
  deriving DecidableEq, Repr

namespace Environment

/-- The text of a variable. -/
def text? (v : Option Bytes) : Option (List Char) := v.bind Utf8.decode?

/-- The path that a variable holds, or its default. -/
def pathOr (v : Option Bytes) (default : List Char) : Path :=
  Utf8.encode ((text? v).getD default)

end Environment

namespace Config

def path (e : Environment) : Path :=
  let home := Environment.pathOr e.home ".".toList
  let profile := Environment.pathOr e.profile "default".toList
  ((home.join (Utf8.encode ".lox".toList)).join profile).join (Utf8.encode "config.json".toList)

/-! ## Loading -/

/-- The configuration in a file that was read. -/
def ofFile (path : Path) (content : Except Trouble Bytes) : Except ConfigFailure Config :=
  match content with
  | .error t => .error (.access path t)
  | .ok bytes =>
    match Utf8.decode? bytes with
    | none => .error (.access path .notText)
    | some _ =>
      match read bytes with
      | .error fault => .error (.invalid path fault)
      | .ok c => .ok c

/-- The configuration to use and the failure to tell, from what the file held if there was one. -/
def effective (level : Option (List Char)) (found : Option (Except ConfigFailure Config)) :
    Config × Option ConfigFailure :=
  let (c, failure) : Config × Option ConfigFailure :=
    match found with
    | none => ({}, none)
    | some (.ok c) => (c, none)
    | some (.error failure) => ({}, some failure)
  ({ c with logLevel := level.getD c.logLevel }, failure)

def loadFrom (f : Files) (p : Path) : Except ConfigFailure Config := ofFile p (f.read p)

def load (f : Files) (e : Environment) : Config × Option ConfigFailure :=
  let p := path e
  effective (Environment.text? e.logLevel) (if f.exists? p then some (loadFrom f p) else none)

/-! ## Saving -/

/-- Writes a configuration file, and makes the folders above it. -/
def save (c : Config) (f : Files) (p : Path) : Files × Option ConfigFailure :=
  let (f, trouble) :=
    match p.parent? with
    | none => (f, none)
    | some above => f.makeFolders above
  match trouble with
  | some t => (f, some (.access p t))
  | none =>
    match f.write p (Utf8.encode c.write) with
    | .error t => (f, some (.access p t))
    | .ok f => (f, none)

end Config
end Lox

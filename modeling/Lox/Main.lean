import Lox.Command.Plan

/-!
# The program

Carries out the plan of a run on the real files, streams and variables. What is done, and how to go
on with what comes of it, is decided by the plan; here each step is only tried.
-/
namespace Lox
namespace Main

open Command

/-- The trouble behind an error of the system. -/
def troubleOf : IO.Error → Trouble
  | .noFileOrDirectory .. => .missing
  | .alreadyExists .. => .occupied
  | .inappropriateType _ 20 _ => .notFolder
  | .inappropriateType _ 21 _ => .isFolder
  | .resourceExhausted _ 28 _ => .full
  | .invalidArgument _ 36 _ => .nameTooLong
  | e => .other (toString e).toList

def attempt {α : Type} (act : IO α) : IO (Except Trouble α) := do
  try return .ok (← act) catch e => return .error (troubleOf e)

/-- What went wrong, if anything did. -/
def troubleIn (act : IO Unit) : IO (Option Trouble) := do
  match ← attempt act with
  | .ok () => return none
  | .error t => return some t

def fileName (p : Path) : String := String.ofList p.display

def valueOf (name : String) : IO (Option Bytes) := do
  return (← IO.getEnv name).map fun s => Utf8.encode s.toList

def environment : IO Environment := do
  return ⟨← valueOf "HOME", ← valueOf "LOX_ENV", ← valueOf "LOX_LOG"⟩

def tell (text : List Char) : IO Unit := do
  (← IO.getStderr).putStr (String.ofList text)

def print (text : List Char) : IO Unit := do
  let stdout ← IO.getStdout
  stdout.putStr (String.ofList text)
  stdout.flush

/-- The next line of the input, with its line feed; empty at the end. -/
partial def readLine (input : IO.FS.Stream) (line : Bytes) : IO Bytes := do
  match (← input.read 1).toList with
  | [] => return line
  | b :: _ => if b = Utf8.ascii '\n' then return line ++ [b] else readLine input (line ++ [b])

/-- A path leads somewhere if all links on it can be followed. -/
def leadsSomewhere (p : Path) : IO Bool := do
  return (← attempt (IO.FS.realPath (fileName p))).toBool

/-- Carries out a plan, step by step. -/
partial def carryOut : Plan → IO Ending
  | .stop ending => return ending
  | .tell text next => do
    tell text
    carryOut next
  | .print text next => do carryOut (next (← troubleIn (print text)))
  | .readLine next => do carryOut (next (← attempt (readLine (← IO.getStdin) [])))
  | .exists? path next => do carryOut (next (← leadsSomewhere path))
  | .readFile path next => do
    carryOut (next (← attempt do return (← IO.FS.readBinFile (fileName path)).toList))
  | .makeFolders path next => do
    carryOut (next (← troubleIn (IO.FS.createDirAll (fileName path))))
  | .writeFile path content next => do
    carryOut (next (← troubleIn (IO.FS.writeBinFile (fileName path) content.toByteArray)))
  | .prompt session => carryOut (Plan.turn session)

end Main
end Lox

def main (args : List String) : IO UInt32 := do
  let plan := Lox.Command.Plan.ofArguments (args.map Lox.Command.word) (← Lox.Main.environment)
  let ending ← Lox.Main.carryOut plan
  Lox.Main.tell ending.lines
  return UInt32.ofNat ending.exitCode

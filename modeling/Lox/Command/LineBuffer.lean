import Lox.Command.Session

/-!
# The buffer before the output

The output of a session goes through a buffer that works by lines. What a text has up to its last
line end is passed on at once. What stands behind it is held, and passed on when the buffer is
flushed, when a later text has a line end, or when there is no room for a later text. A text as long
as the buffer is never held. Where something cannot be passed on, writing stops.

A session writes a prompt as one text, and an echo as many texts, one after the other; how an echo is
divided is left open here. Both are flushed at their end. A prompt that cannot be written breaks the
session off, and in all other cases trouble with the output is a failure.

A run about the configuration file prints one text with a line end, which is divided too. It is not
flushed, and breaks the run off if it cannot be written.
-/
namespace Lox
namespace Command

structure LineBuffer where
  output : Output
  held : List Char := []
  passed : List Char := []
  deriving DecidableEq, Repr

namespace LineBuffer

/-- Something that is done with a buffer, and may go wrong. -/
abbrev Action (ε : Type) := EStateM ε LineBuffer

/-- The size of a text in bytes. -/
def size (text : List Char) : Nat := (Utf8.encode text).length

/-- What a text has up to its last line end. -/
def closedLines (text : List Char) : List Char := (text.reverse.dropWhile (· != '\n')).reverse

/-- What a text has behind its last line end. -/
def openLine (text : List Char) : List Char := (text.reverse.takeWhile (· != '\n')).reverse

/-- Passes a text on to the output. If it is empty, then there is nothing to do. -/
def pass (text : List Char) : Action Trouble Unit := fun b =>
  match b.output with
  | .working => .ok () { b with passed := b.passed ++ text }
  | .full => if text = [] then .ok () b else .error .full b

def flush : Action Trouble Unit := do
  pass (← get).held
  modify fun b => { b with held := [] }

/-- Takes a text without regard to lines. -/
def hold (text : List Char) : Action Trouble Unit := do
  if Session.bufferSize < size (← get).held + size text then flush
  if Session.bufferSize ≤ size text then pass text
  else modify fun b => { b with held := b.held ++ text }

/-- Writes a text. A line that is over is not held any longer. -/
def write (text : List Char) : Action Trouble Unit := do
  if '\n' ∈ text then
    if (← get).held = [] then pass (closedLines text)
    else
      hold (closedLines text)
      flush
    hold (openLine text)
  else
    if (← get).held.getLast? = some '\n' then flush
    hold text

/-- The text does not wait in a buffer that holds nothing. -/
def AtOnce (text : List Char) : Prop := '\n' ∈ text ∨ Session.bufferSize ≤ size text

instance (text : List Char) : Decidable (AtOnce text) := inferInstanceAs (Decidable (_ ∨ _))

/-- Writes texts one after the other, and flushes the buffer. -/
def writeAll (texts : List (List Char)) : Action Trouble Unit := do
  texts.forM write
  flush

end LineBuffer

/-- How a text is divided into the parts that are written. -/
structure Division where
  parts : List Char → List (List Char)
  joins : ∀ text, (parts text).flatten = text

/-- Prints a text that breaks off what is done if it cannot be written. -/
def LineBuffer.printAll (texts : List (List Char)) : Action Ending Unit :=
  EStateM.adaptExcept (fun t => .brokenOff (.print t)) (texts.forM write)

namespace Session

open LineBuffer (Action)

def printPrompt (s : Session) : Action Ending Unit := do
  EStateM.adaptExcept (fun t => .brokenOff (.print t)) (LineBuffer.write s.prompt)
  EStateM.adaptExcept (fun t => .failed (.output t)) LineBuffer.flush

def printEcho (s : Session) (d : Division) (tokens : List Token) : Action Ending Unit :=
  EStateM.adaptExcept (fun t => .failed (.output t))
    (LineBuffer.writeAll (d.parts (s.format.echo tokens)))

/-- What is printed about a script, and how that ends. -/
def printScript (s : Session) (d : Division) (path : Path) :
    Except Trouble Bytes → Action Ending Unit
  | .error t => throw (.failed (.script path t))
  | .ok bytes => do
    let scanned := scan (Utf8.decode bytes)
    s.printEcho d scanned.tokens
    if scanned.diagnostics ≠ [] then throw (.failed (.scan scanned.diagnostics.length))

/-- What is printed about a line, and how that ends. -/
def printAnswer (s : Session) (d : Division) (line : Bytes) : Action Ending Unit :=
  match Utf8.decode? line with
  | none => throw (.failed (.output .notText))
  | some text => s.printEcho d (scan (trimEnd text)).tokens

/-- What is printed about lines at the prompt, and how that ends. -/
def printPrompted (s : Session) (d : Division) : List Bytes → Action Ending Unit
  | [] => s.printPrompt
  | line :: rest => do
    s.printPrompt
    s.printAnswer d line
    s.printPrompted d rest

end Session
end Command
end Lox

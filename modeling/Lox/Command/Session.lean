import Lox.Config.Store
import Lox.Log.Event
import Lox.Report
import Lox.Token.Record

/-!
# Sessions

A session scans one script, or the lines that are typed at a prompt one by one. It writes the echo
of the tokens to the output, and log lines and diagnostics to the error output. A script with
diagnostics fails at its end. A line with diagnostics is forgotten before the next one, and a line
that is no UTF-8 ends the session.

The output may be full, so that nothing can be written to it. It takes text at once if that has a
line end or is longer than its buffer, and otherwise when it is flushed. A prompt that is taken at
once and cannot be written breaks the session off; all other text that cannot be written is a
failure.
-/
namespace Lox
namespace Command

/-- What was written. -/
structure Transcript where
  output : List Char := []
  errors : List Char := []
  deriving DecidableEq, Repr

def Transcript.append (a b : Transcript) : Transcript := ⟨a.output ++ b.output, a.errors ++ b.errors⟩

instance : Append Transcript := ⟨Transcript.append⟩

/-- What breaks a run off, without a failure that could be told. -/
inductive Breakdown
  | print (trouble : Trouble)
  | logFilter
  deriving DecidableEq, Repr

def Breakdown.message : Breakdown → List Char
  | print trouble => "failed printing to stdout: ".toList ++ trouble.message
  | logFilter => "log filter cut inside a character".toList

inductive Ending
  | done
  | failed (failure : Failure)
  | brokenOff (cause : Breakdown)
  deriving DecidableEq, Repr

namespace Ending

def exitCode : Ending → Nat
  | done => 0
  | failed failure => failure.exitCode
  | brokenOff _ => 101

/-- The last lines on the error output. The diagnostics of a scan were written before. -/
def lines : Ending → List Char
  | done => []
  | failed (.scan _) => []
  | failed failure => failure.message ++ ['\n']
  | brokenOff cause => cause.message ++ ['\n']

end Ending

/-- Whether the output can be written to. -/
inductive Output
  | working
  | full
  deriving DecidableEq, Repr

/-- What holds for a whole session. -/
structure Session where
  prompt : List Char
  format : Format
  log : Log.Filter
  output : Output := .working
  deriving Repr

namespace Session

/-! ## Scripts -/

/-- What a scan tells the log, from its first finding to its end. -/
def logged (s : Session) (scan : Scan) : List Char :=
  scan.findings.flatMap (fun x => s.log.write (.ofFinding x)) ++ s.log.write (.finished scan)

/-- Writes the echo of the tokens. -/
def echo (s : Session) (tokens : List Token) : Except Failure (List Char) :=
  match s.output with
  | .working => .ok (s.format.echo tokens)
  | .full => .error (.output .full)

def script (s : Session) (path : Path) (content : Except Trouble Bytes) : Transcript × Ending :=
  match content with
  | .error t => ({}, .failed (.script path t))
  | .ok bytes =>
    let source := Utf8.decode bytes
    let scanned := scan source
    let errors := s.log.write (.scanning path (Utf8.encode source).length) ++ s.logged scanned ++
      scanned.diagnostics.flatMap (·.message ++ ['\n'])
    match s.echo scanned.tokens with
    | .error failure => (⟨[], errors⟩, .failed failure)
    | .ok text =>
      (⟨text, errors⟩,
        if scanned.diagnostics = [] then .done else .failed (.scan scanned.diagnostics.length))

/-! ## The prompt -/

/-- The lines of an input, each with its line feed if it has one. -/
def lines : Bytes → List Bytes
  | [] => []
  | b :: bs =>
    if b = Utf8.ascii '\n' then [b] :: lines bs
    else
      match lines bs with
      | [] => [[b]]
      | line :: rest => (b :: line) :: rest

/-- A line without any line feeds and carriage returns at its end. -/
def trimEnd (line : List Char) : List Char :=
  (line.reverse.dropWhile fun c => c == '\n' || c == '\r').reverse

/-- What a finding at the prompt writes: its log line, and then a diagnostic. -/
def reported (s : Session) (x : Finding) : List Char :=
  s.log.write (.ofFinding x) ++
    match x.diagnostic? with
    | none => []
    | some d => d.message ++ ['\n']

/-- Answers a line. -/
def answer (s : Session) (line : Bytes) : Transcript × Ending :=
  match Utf8.decode? line with
  | none => ({}, .failed (.output .notText))
  | some text =>
    let scanned := scan (trimEnd text)
    let errors := scanned.findings.flatMap s.reported ++ s.log.write (.finished scanned)
    match s.echo scanned.tokens with
    | .error failure => (⟨[], errors⟩, .failed failure)
    | .ok echoed =>
      let count := scanned.diagnostics.length
      (⟨echoed, errors ++ if count = 0 then [] else s.log.write (.badLine count)⟩, .done)

/-- The size of the buffer before the output, in bytes. -/
def bufferSize : Nat := 1024

/-- Shows the prompt, and flushes the output. -/
def showPrompt (s : Session) : Transcript × Ending :=
  match s.output with
  | .working => (⟨s.prompt, []⟩, .done)
  | .full =>
    if '\n' ∈ s.prompt ∨ bufferSize ≤ (Utf8.encode s.prompt).length then ({}, .brokenOff (.print .full))
    else if s.prompt = [] then ({}, .done)
    else ({}, .failed (.output .full))

/-- Answers line after line, with a prompt before each and one at the end. -/
def prompted (s : Session) : List Bytes → Transcript × Ending
  | [] => s.showPrompt
  | line :: rest =>
    match s.showPrompt with
    | (shown, .done) =>
      match s.answer line with
      | (answered, .done) =>
        let (later, ending) := s.prompted rest
        (shown ++ answered ++ later, ending)
      | (answered, ending) => (shown ++ answered, ending)
    | (shown, ending) => (shown, ending)

end Session
end Command
end Lox

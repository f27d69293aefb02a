import Lox.Command.Session

/-!
# The loop of the prompt

A session at the prompt told turn by turn, with what the program keeps from one turn to the next:
the input that is left, one buffer that every line is read into, and one reporter that counts the
diagnostics. The log and the reporter write to the same outlet, as things come.

A turn shows the prompt, empties the buffer, reads a line behind what is in it, and answers the
line; then the reporter is reset. The loop ends where nothing can be read, and at every failure.

* `turn_length`: a turn that does not end the loop leaves less of the input.
-/
namespace Lox
namespace Command
namespace Loop

structure State where
  input : Bytes
  buffer : List Char := []
  reporter : Stream := {}
  output : List Char := []
  deriving DecidableEq, Repr

/-! ## Reading a line -/

def lineFeed : UInt8 := Utf8.ascii '\n'

/-- The bytes up to a line feed and the line feed itself, and what is left. -/
def nextLine (input : Bytes) : Bytes × Bytes :=
  let rest := input.dropWhile (· != lineFeed)
  (input.takeWhile (· != lineFeed) ++ rest.take 1, rest.drop 1)

/-- Reads a line into the buffer, behind what is there, and tells how many bytes it has. -/
def readLine (t : State) : Except Trouble (Nat × State) :=
  let (line, rest) := nextLine t.input
  match Utf8.decode? line with
  | none => .error .notText
  | some text => .ok (line.length, { t with input := rest, buffer := t.buffer ++ text })

/-! ## Answering a line -/

/-- Writes to the outlet of the reporter, past the reporter. -/
def State.say (t : State) (text : List Char) : State :=
  { t with reporter := { t.reporter with outlet := t.reporter.outlet.write text } }

/-- A finding of the scan: the log comes first, then the reporter. -/
def State.hear (s : Session) (t : State) (x : Finding) : State :=
  let t := t.say (s.log.write (.ofFinding x))
  match x.diagnostic? with
  | none => t
  | some d => { t with reporter := Reporter.report t.reporter d }

/-- Tells the log of a bad line, and forgets its diagnostics. -/
def State.reset (s : Session) (t : State) : State :=
  let t :=
    if Reporter.hadError t.reporter then t.say (s.log.write (.badLine (Reporter.count t.reporter)))
    else t
  { t with reporter := Reporter.reset t.reporter }

/-- Answers the line in the buffer. -/
def answer (s : Session) (t : State) : State × Option Ending :=
  let scanned := scan (Session.trimEnd t.buffer)
  let t := (scanned.findings.foldl (State.hear s) t).say (s.log.write (.finished scanned))
  match s.echo scanned.tokens with
  | .error failure => (t, some (.failed failure))
  | .ok echoed => ({ t with output := t.output ++ echoed }.reset s, none)

/-! ## Turns -/

/-- One turn, and how the loop ends if it does. -/
def turn (s : Session) (t : State) : State × Option Ending :=
  match s.showPrompt with
  | (shown, .done) =>
    let t := { t with output := t.output ++ shown.output, buffer := [] }
    match readLine t with
    | .error trouble => (t, some (.failed (.output trouble)))
    | .ok (0, t) => (t, some .done)
    | .ok (_, t) => answer s t
  | (shown, ending) => ({ t with output := t.output ++ shown.output }, some ending)

theorem nextLine_append (input : Bytes) : (nextLine input).1 ++ (nextLine input).2 = input := by
  rw [nextLine, List.append_assoc, List.take_append_drop, List.takeWhile_append_dropWhile]

theorem input_reset (s : Session) (t : State) : (t.reset s).input = t.input := by
  unfold State.reset
  split <;> rfl

theorem input_hear (s : Session) (t : State) (x : Finding) : (t.hear s x).input = t.input := by
  unfold State.hear
  split <;> rfl

theorem input_answer (s : Session) (t : State) : (answer s t).1.input = t.input := by
  have hheard (fs : List Finding) : (fs.foldl (State.hear s) t).input = t.input := by
    induction fs generalizing t with
    | nil => rfl
    | cons x fs ih => rw [List.foldl_cons, ih, input_hear]
  unfold answer
  dsimp only
  split
  · exact hheard _
  · exact (input_reset s _).trans (hheard _)

theorem readLine_length {t t' : State} {n : Nat} (h : readLine t = .ok (n, t')) :
    n + t'.input.length = t.input.length := by
  have hlen := congrArg List.length (nextLine_append t.input)
  unfold readLine at h
  dsimp only at h
  split at h
  · cases h
  · cases h
    rw [← hlen, List.length_append]

theorem turn_length {s : Session} {t t' : State} (h : turn s t = (t', none)) :
    t'.input.length < t.input.length := by
  unfold turn at h
  split at h
  · dsimp only at h
    split at h
    · cases h
    · cases h
    · rename_i n read hpos hread
      have hlen := readLine_length hread
      have hinput : t'.input = read.input := by rw [← input_answer s read, h]
      have hn : n ≠ 0 := hpos
      simp only at hlen
      rw [hinput]
      omega
  · cases h

/-- Turn after turn, to the end. -/
def run (s : Session) (t : State) : State × Ending :=
  match _h : turn s t with
  | (t, some ending) => (t, ending)
  | (t, none) => run s t
termination_by t.input.length
decreasing_by exact turn_length _h

end Loop
end Command
end Lox

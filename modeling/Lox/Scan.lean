import Lox.Diagnostic
import Lox.Piece

/-!
# Scanning

A scan walks over the pieces of a source text and keeps its place. Strings, numbers, words and
symbols give tokens; stray characters and an unclosed string give diagnostics; blanks and comments
give nothing. The findings stand in the order of the text, and a token at the end of the text
closes the list of tokens.

Results: a scan stops at the place after the whole text (`stop_scan`), and every finding comes from
a piece of it (`findings_append`).
-/
namespace Lox

/-- What a scan can come across. -/
inductive Finding
  | token (t : Token)
  | problem (d : Diagnostic)
  deriving DecidableEq, Repr

namespace Finding

def token? : Finding → Option Token
  | token t => some t
  | problem _ => none

def diagnostic? : Finding → Option Diagnostic
  | token _ => none
  | problem d => some d

end Finding

/-- What a piece that starts at `p` gives. -/
def Piece.finding? (p : Position) (q : Piece) : Option Finding :=
  match q with
  | blank _ | comment _ => none
  | string body => some (.token ⟨.string, q.text, some (.string body), p⟩)
  | number whole fraction =>
    let places := (fraction.getD []).length
    let value := Binary64.ofDigits (whole ++ fraction.getD []) places
    some (.token ⟨.number, q.text, some (.number value), p⟩)
  | word text => some (.token ⟨.ofWord text, text, none, p⟩)
  | symbol s => some (.token ⟨.symbol s, s.spelling, none, p⟩)
  | unclosed _ => some (.problem ⟨p.after q.text, .unterminated⟩)
  | stray c => some (.problem ⟨p, .unexpected c⟩)

/-- What pieces that stand one after the other from `p` on give. -/
def findings (p : Position) : List Piece → List Finding
  | [] => []
  | q :: qs => (q.finding? p).toList ++ findings (p.after q.text) qs

theorem findings_append (p : Position) (as bs : List Piece) :
    findings p (as ++ bs) = findings p as ++ findings (p.after (as.flatMap Piece.text)) bs := by
  induction as generalizing p with
  | nil => rfl
  | cons q qs ih => simp [findings, ih, Position.after_append]

/-- The findings in a text, and the place after its last character. -/
structure Scan where
  findings : List Finding
  stop : Position
  deriving DecidableEq, Repr

def scan (source : List Char) : Scan :=
  { findings := findings {} (pieces source), stop := Position.after {} source }

theorem stop_scan (source : List Char) : (scan source).stop = Position.after {} source := rfl

namespace Scan

def tokens (s : Scan) : List Token :=
  s.findings.filterMap Finding.token? ++ [Token.endOfText s.stop]

def diagnostics (s : Scan) : List Diagnostic := s.findings.filterMap Finding.diagnostic?

end Scan
end Lox

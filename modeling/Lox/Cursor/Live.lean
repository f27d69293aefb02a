import Lox.Cursor
import Lox.Report

/-!
# Reporting on the way

A scan that keeps no list of problems. Each step starts with nothing found, and what it found is
handed over at once: a token is kept, and a problem goes to the reporter. The reporter is never
asked for anything.
-/
namespace Lox
namespace Cursor

structure Live (ρ : Type) where
  cursor : State := {}
  tokens : List Token := []
  reporter : ρ

namespace Live

variable {ρ : Type} [Reporter ρ]

def handOver (l : Live ρ) : Finding → Live ρ
  | .token t => { l with tokens := l.tokens ++ [t] }
  | .problem d => { l with reporter := Reporter.report l.reporter d }

def step (source : List Char) (l : Live ρ) : Except Fault (Live ρ) := do
  let s ← Cursor.step source { l.cursor with found := [] }
  return s.found.foldl handOver { l with cursor := s }

/-- The scan after so many steps, with the reporter that it was given. -/
def states (source : List Char) (r : ρ) : Nat → Except Fault (Live ρ)
  | 0 => .ok { reporter := r }
  | n + 1 => do
    let l ← states source r n
    step source l

/-- What a scan gives that has halted. -/
def result (l : Live ρ) : List Token × ρ :=
  (l.tokens ++ [Token.endOfText l.cursor.place], l.reporter)

end Live
end Cursor
end Lox

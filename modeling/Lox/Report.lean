import Lox.Scan

/-!
# Reports

Diagnostics are received in one of two ways. A collection keeps them. A stream writes each one as a
line as soon as it arrives and only counts them; if its outlet fails, the line is lost and the
count goes on. A reset forgets the diagnostics but not what was written. Each knows in its own way
whether there was an error since then.
-/
namespace Lox

class Reporter (ρ : Type) where
  report : ρ → Diagnostic → ρ
  reset : ρ → ρ
  count : ρ → Nat
  hadError : ρ → Bool

namespace Reporter

variable {ρ : Type} [Reporter ρ]

def reportAll (r : ρ) (ds : List Diagnostic) : ρ := ds.foldl report r

/-- Scans a text, and reports its diagnostics to `r`. -/
def scanInto (r : ρ) (source : List Char) : List Token × ρ :=
  ((scan source).tokens, reportAll r (scan source).diagnostics)

end Reporter

/-- Keeps the diagnostics. -/
structure Collection where
  reported : List Diagnostic := []
  deriving DecidableEq, Repr

instance : Reporter Collection where
  report r d := { r with reported := r.reported ++ [d] }
  reset _ := {}
  count r := r.reported.length
  hadError r := !r.reported.isEmpty

/-- Where a stream writes its lines. -/
inductive Outlet
  | open (written : List Char)
  | broken
  deriving DecidableEq, Repr

namespace Outlet

def written : Outlet → List Char
  | .open text => text
  | .broken => []

def write (text : List Char) : Outlet → Outlet
  | .open old => .open (old ++ text)
  | .broken => .broken

def writeLine (line : List Char) : Outlet → Outlet
  | .open text => .open (text ++ line ++ ['\n'])
  | .broken => .broken

end Outlet

/-- Writes the diagnostics, and counts those since the last reset. -/
structure Stream where
  outlet : Outlet := .open []
  count : Nat := 0
  deriving DecidableEq, Repr

instance : Reporter Stream where
  report r d := ⟨r.outlet.writeLine d.message, r.count + 1⟩
  reset r := { r with count := 0 }
  count := Stream.count
  hadError r := 0 < r.count

end Lox

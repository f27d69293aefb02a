import Lox.Files.Path
import Lox.Files.Trouble
import Lox.Json.Fault

/-!
# Failures

Every way in which a run can fail has a message and an exit code of its own. A failure may have a
cause that has a message too.
-/
namespace Lox

/-- What is wrong with a configuration file. -/
inductive ConfigFailure
  | access (path : Path) (trouble : Trouble)
  | invalid (path : Path) (fault : Json.Located)
  deriving DecidableEq, Repr

def ConfigFailure.message : ConfigFailure → List Char
  | access path trouble =>
    "cannot access ".toList ++ path.display ++ ": ".toList ++ trouble.message
  | invalid path fault =>
    "invalid config file ".toList ++ path.display ++ ": ".toList ++ fault.message

inductive Failure
  | usage
  | script (path : Path) (trouble : Trouble)
  | config (failure : ConfigFailure)
  | scan (count : Nat)
  | output (trouble : Trouble)
  deriving DecidableEq, Repr

namespace Failure

def message : Failure → List Char
  | usage => "Usage: lox [script]".toList
  | script path trouble =>
    "IOError: cannot read ".toList ++ path.display ++ ": ".toList ++ trouble.message
  | config failure => "ConfigError: ".toList ++ failure.message
  | scan count => "ScanError: ".toList ++ Nat.toDigits 10 count ++ " error(s) reported".toList
  | output trouble => "OutputError: ".toList ++ trouble.message

def exitCode : Failure → Nat
  | usage => 64
  | scan _ => 65
  | script .. => 66
  | output _ => 74
  | config _ => 78

/-- The message of the cause. -/
def cause? : Failure → Option (List Char)
  | usage => none
  | scan _ => none
  | script _ trouble => some trouble.message
  | output trouble => some trouble.message
  | config failure => some failure.message

end Failure
end Lox

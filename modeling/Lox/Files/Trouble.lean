/-!
# Trouble with files and streams

What can go wrong when a file or a stream is used. Causes that the operating system reports carry
its number; text that is no UTF-8 is a cause of its own.
-/
namespace Lox

inductive Trouble
  | missing
  | occupied
  | notFolder
  | isFolder
  | full
  | nameTooLong
  | nulInName
  | notText
  | other (message : List Char)
  deriving DecidableEq, Repr

def Trouble.message : Trouble → List Char
  | missing => "No such file or directory (os error 2)".toList
  | occupied => "File exists (os error 17)".toList
  | notFolder => "Not a directory (os error 20)".toList
  | isFolder => "Is a directory (os error 21)".toList
  | full => "No space left on device (os error 28)".toList
  | nameTooLong => "File name too long (os error 36)".toList
  | nulInName => "file name contained an unexpected NUL byte".toList
  | notText => "stream did not contain valid UTF-8".toList
  | other message => message

end Lox

import Lox.Token.Record

/-!
# Configurations

A configuration is the text of the prompt, the format of the echo and the level of the log. What is
not set has a default. It is written as one pretty JSON record.
-/
namespace Lox

structure Config where
  prompt : List Char := "> ".toList
  format : Format := .text
  logLevel : List Char := "warn".toList
  deriving DecidableEq, Repr

namespace Config

inductive Field
  | prompt
  | format
  | logLevel
  deriving DecidableEq, Repr

namespace Field

def all : List Field := [prompt, format, logLevel]

def name : Field → List Char
  | prompt => "prompt".toList
  | format => "format".toList
  | logLevel => "log_level".toList

def ofName? (text : List Char) : Option Field := all.find? (·.name = text)

end Field

def record (c : Config) : Json.Record :=
  [(Field.prompt.name, .text c.prompt),
   (Field.format.name, .text c.format.name),
   (Field.logLevel.name, .text c.logLevel)]

/-- The text of a configuration file. -/
def write (c : Config) : List Char := c.record.pretty 0

end Config
end Lox

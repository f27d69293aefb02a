import Lox.Decimal.Style

/-!
# JSON records

The JSON that is written holds records of plain values: null, text, numbers and counts. Text is
quoted with short escapes where JSON has them, other control characters below U+0020 as `\u00xx`,
and everything else as it is. Numbers keep a `.0`, and turn scientific below 10^-5 and from 10^16
on, with a sign in the exponent; what is not finite is null.

The compact form has no blanks. The pretty form has one member a line, two spaces a level.
-/
namespace Lox
namespace Json

/-! ## Quoted text -/

def hexDigit (n : Nat) : Char := (Nat.digitChar (n % 16))

/-- How a character stands inside quotes. -/
def escape (c : Char) : List Char :=
  if c = '"' then ['\\', '"']
  else if c = '\\' then ['\\', '\\']
  else if c = '\x08' then ['\\', 'b']
  else if c = '\x0c' then ['\\', 'f']
  else if c = '\n' then ['\\', 'n']
  else if c = '\r' then ['\\', 'r']
  else if c = '\t' then ['\\', 't']
  else if c.toNat < 0x20 then
    ['\\', 'u', '0', '0', hexDigit (c.toNat / 16), hexDigit c.toNat]
  else [c]

def quote (text : List Char) : List Char := '"' :: (text.flatMap escape ++ ['"'])

/-! ## Plain values -/

inductive Scalar
  | null
  | text (s : List Char)
  | number (x : Binary64)
  | count (n : Nat)
  deriving DecidableEq, Repr

def style : Decimal.Style where
  positional leading := -5 ≤ leading && leading < 16
  wholePoint := true
  exponentPlus := true
  tie := .toEven

def number (x : Binary64) : List Char := if x.isFinite then style.write x else "null".toList

def Scalar.write : Scalar → List Char
  | null => "null".toList
  | text s => quote s
  | number x => Json.number x
  | count n => Nat.toDigits 10 n

/-! ## Records -/

/-- Members in their order. -/
abbrev Record := List (List Char × Scalar)

/-- A bracketed list, its items separated by commas. -/
def compactList (opening closing : Char) (items : List (List Char)) : List Char :=
  opening :: (List.intercalate [','] items ++ [closing])

/-- A bracketed list at a depth, one item a line; an empty one stays on its line. -/
def prettyList (depth : Nat) (opening closing : Char) (items : List (List Char)) : List Char :=
  let line (level : Nat) := '\n' :: List.replicate (2 * level) ' '
  if items.isEmpty then [opening, closing]
  else
    opening :: (List.intercalate [','] (items.map (line (depth + 1) ++ ·)) ++ line depth ++ [closing])

namespace Record

def compact (r : Record) : List Char :=
  compactList '\x7b' '\x7d' (r.map fun (key, value) => quote key ++ ':' :: value.write)

def pretty (depth : Nat) (r : Record) : List Char :=
  prettyList depth '\x7b' '\x7d' (r.map fun (key, value) => quote key ++ ':' :: ' ' :: value.write)

/-- A list of records, in pretty form. -/
def prettyAll (rs : List Record) : List Char := prettyList 0 '[' ']' (rs.map (pretty 1))

end Record
end Json
end Lox

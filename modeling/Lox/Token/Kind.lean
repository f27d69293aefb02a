/-!
# Token kinds

Punctuation and operators have one spelling each, of one or two characters; a two-character
spelling is a one-character spelling and `=`. Reserved words are matched exactly, and every other
word is an identifier. A kind has an upper-case name, which for a reserved word is the word itself.

Results: spellings determine symbols and reserved words (`Symbol.spelling_injective`,
`Keyword.ofWord?_eq_some_iff`).
-/
namespace Lox

/-! ## Symbols -/

/-- Punctuation and operators. -/
inductive Symbol
  | leftParen | rightParen | leftBrace | rightBrace
  | comma | dot | minus | plus | semicolon | slash | star
  | bang | bangEqual | equal | equalEqual
  | greater | greaterEqual | less | lessEqual
  deriving DecidableEq, Repr

namespace Symbol

def all : List Symbol :=
  [.leftParen, .rightParen, .leftBrace, .rightBrace, .comma, .dot, .minus, .plus, .semicolon,
    .slash, .star, .bang, .bangEqual, .equal, .equalEqual, .greater, .greaterEqual, .less,
    .lessEqual]

def spelling : Symbol → List Char
  | leftParen => ['(']
  | rightParen => [')']
  | leftBrace => ['\x7b']
  | rightBrace => ['\x7d']
  | comma => [',']
  | dot => ['.']
  | minus => ['-']
  | plus => ['+']
  | semicolon => [';']
  | slash => ['/']
  | star => ['*']
  | bang => ['!']
  | bangEqual => ['!', '=']
  | equal => ['=']
  | equalEqual => ['=', '=']
  | greater => ['>']
  | greaterEqual => ['>', '=']
  | less => ['<']
  | lessEqual => ['<', '=']

def name : Symbol → List Char
  | leftParen => "LEFT_PAREN".toList
  | rightParen => "RIGHT_PAREN".toList
  | leftBrace => "LEFT_BRACE".toList
  | rightBrace => "RIGHT_BRACE".toList
  | comma => "COMMA".toList
  | dot => "DOT".toList
  | minus => "MINUS".toList
  | plus => "PLUS".toList
  | semicolon => "SEMICOLON".toList
  | slash => "SLASH".toList
  | star => "STAR".toList
  | bang => "BANG".toList
  | bangEqual => "BANG_EQUAL".toList
  | equal => "EQUAL".toList
  | equalEqual => "EQUAL_EQUAL".toList
  | greater => "GREATER".toList
  | greaterEqual => "GREATER_EQUAL".toList
  | less => "LESS".toList
  | lessEqual => "LESS_EQUAL".toList

/-- The symbol that one character spells. -/
def single? (c : Char) : Option Symbol := all.find? (·.spelling = [c])

/-- The symbol that a spelling becomes when `=` follows it. -/
def withEqual? (s : Symbol) : Option Symbol := all.find? (·.spelling = s.spelling ++ ['='])

theorem spelling_injective {s t : Symbol} (h : s.spelling = t.spelling) : s = t := by
  cases s <;> cases t <;> first | rfl | (exact absurd h (by decide))

theorem mem_all (s : Symbol) : s ∈ all := by cases s <;> decide

theorem single?_eq_some_iff {c : Char} {s : Symbol} : single? c = some s ↔ s.spelling = [c] := by
  constructor
  · intro h; simpa using List.find?_some h
  · intro h
    cases hf : single? c with
    | none => simpa [h] using List.find?_eq_none.1 hf s (mem_all s)
    | some t =>
      have : t.spelling = [c] := by simpa using List.find?_some hf
      rw [spelling_injective (this.trans h.symm)]

theorem spelling_of_withEqual? {s t : Symbol} (h : s.withEqual? = some t) :
    t.spelling = s.spelling ++ ['='] := by
  simpa using List.find?_some h

end Symbol

/-! ## Reserved words -/

inductive Keyword
  | andWord | classWord | elseWord | falseWord | funWord | forWord | ifWord | nilWord
  | orWord | printWord | returnWord | superWord | thisWord | trueWord | varWord | whileWord
  deriving DecidableEq, Repr

namespace Keyword

def all : List Keyword :=
  [.andWord, .classWord, .elseWord, .falseWord, .funWord, .forWord, .ifWord, .nilWord, .orWord,
    .printWord, .returnWord, .superWord, .thisWord, .trueWord, .varWord, .whileWord]

def spelling : Keyword → List Char
  | andWord => "and".toList
  | classWord => "class".toList
  | elseWord => "else".toList
  | falseWord => "false".toList
  | funWord => "fun".toList
  | forWord => "for".toList
  | ifWord => "if".toList
  | nilWord => "nil".toList
  | orWord => "or".toList
  | printWord => "print".toList
  | returnWord => "return".toList
  | superWord => "super".toList
  | thisWord => "this".toList
  | trueWord => "true".toList
  | varWord => "var".toList
  | whileWord => "while".toList

def name (w : Keyword) : List Char := w.spelling.map Char.toUpper

/-- The reserved word that a text spells. -/
def ofWord? (text : List Char) : Option Keyword := all.find? (·.spelling = text)

theorem spelling_injective {v w : Keyword} (h : v.spelling = w.spelling) : v = w := by
  cases v <;> cases w <;> first | rfl | (exact absurd h (by decide))

theorem mem_all (w : Keyword) : w ∈ all := by cases w <;> decide

theorem ofWord?_eq_some_iff {text : List Char} {w : Keyword} :
    ofWord? text = some w ↔ w.spelling = text := by
  constructor
  · intro h; simpa using List.find?_some h
  · intro h
    cases hf : ofWord? text with
    | none => simpa [h] using List.find?_eq_none.1 hf w (mem_all w)
    | some v =>
      have : v.spelling = text := by simpa using List.find?_some hf
      rw [spelling_injective (this.trans h.symm)]

end Keyword

/-! ## Kinds -/

inductive Kind
  | symbol (s : Symbol)
  | identifier
  | string
  | number
  | keyword (w : Keyword)
  | eof
  deriving DecidableEq, Repr

namespace Kind

def all : List Kind :=
  Symbol.all.map symbol ++ [identifier, string, number] ++ Keyword.all.map keyword ++ [eof]

def name : Kind → List Char
  | symbol s => s.name
  | identifier => "IDENTIFIER".toList
  | string => "STRING".toList
  | number => "NUMBER".toList
  | keyword w => w.name
  | eof => "EOF".toList

def ofName? (text : List Char) : Option Kind := all.find? (·.name = text)

/-- The kind of a word. -/
def ofWord (text : List Char) : Kind := ((Keyword.ofWord? text).map keyword).getD identifier

end Kind

end Lox

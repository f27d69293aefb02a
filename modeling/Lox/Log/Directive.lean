import Lox.Log.Level
import Lox.Log.Pattern
import Lox.Text.Alphanumeric
import Lox.Text.Blank
import Lox.Text.Utf8

/-!
# Log directives

A directive is a level, a target, or a target and a level with `=` between them. A target may be
followed by brackets, which name a span, and inside them by braces, which name a value of an event
and may ask for a pattern. A level without a target is for every target, and a target without a
level shows everything.

Blanks around a directive are left out when its parts are looked for. The places of the parts, which
count bytes, are then taken in the directive with its blanks, so that blanks at the start move every
part; a place can so come to lie inside a character, and the directive cannot even be refused.

Results: a part that starts and ends between characters is found (`part_encode`).
-/
namespace Lox
namespace Log

/-! ## Parts -/

/-- Why a directive was not read. -/
inductive Refusal
  | unreadable
  | insideCharacter
  deriving DecidableEq, Repr

/-- Whether a place lies between two characters, given the bytes from there on. -/
def betweenCharacters (rest : Bytes) : Bool :=
  match rest with
  | [] => true
  | b :: _ => b.toNat < 0x80 || 0xC0 ≤ b.toNat

/-- The part of a text between two places. -/
def part (text : Bytes) (start stop : Nat) : Except Refusal (List Char) :=
  if betweenCharacters (text.drop start) && betweenCharacters (text.drop stop) then
    .ok (Utf8.decode ((text.take stop).drop start))
  else .error .insideCharacter

/-- The number of bytes of a text. -/
def size (text : List Char) : Nat := (Utf8.encode text).length

theorem betweenCharacters_encode (cs : List Char) : betweenCharacters (Utf8.encode cs) := by
  cases cs with
  | nil => rfl
  | cons c cs =>
    obtain ⟨b, bs, h⟩ := List.exists_cons_of_ne_nil (Utf8.encodeChar_ne_nil c)
    have hf := Utf8.first_encodeChar c (Utf8.encode cs) h
    rw [Utf8.encode_cons, h, List.cons_append, betweenCharacters]
    by_cases hb : b.toNat < 0x80 ∨ 0xC0 ≤ b.toNat
    · simpa using hb
    · have hl : Utf8.lead? b = none := by
        simp only [Utf8.lead?]
        rw [if_neg (by omega), if_pos (by omega)]
      simp [Utf8.first, hl] at hf

theorem part_encode (before word after : List Char) :
    part (Utf8.encode (before ++ word ++ after)) (size before) (size before + size word) =
      .ok word := by
  have e : Utf8.encode (before ++ word ++ after) =
      Utf8.encode before ++ (Utf8.encode word ++ Utf8.encode after) := by
    simp [Utf8.encode, List.flatMap_append]
  have h1 : (Utf8.encode (before ++ word ++ after)).drop (size before) =
      Utf8.encode (word ++ after) := by
    rw [e, size, List.drop_left]; simp [Utf8.encode, List.flatMap_append]
  have h2 : (Utf8.encode (before ++ word ++ after)).drop (size before + size word) =
      Utf8.encode after := by
    rw [← List.drop_drop, h1]; simp [size, Utf8.encode, List.flatMap_append]
  have h3 : ((Utf8.encode (before ++ word ++ after)).take (size before + size word)).drop
      (size before) = Utf8.encode word := by
    rw [List.drop_take, h1]; simp [size, Utf8.encode, List.flatMap_append]
  rw [part, h1, h2, h3, betweenCharacters_encode, betweenCharacters_encode, Utf8.decode_encode]
  rfl

/-! ## Directives -/

/-- The events for which a directive can hold. A span has to be open around an event for a directive
that names one, or that asks for a pattern. -/
inductive Scope
  | all
  | having (value : List Char)
  | inSpan
  deriving DecidableEq, Repr

structure Directive where
  target : List Char
  scope : Scope := .all
  reach : Reach
  deriving DecidableEq, Repr

namespace Directive

/-- Whether a directive may start with the character. -/
def startsWith (c : Char) : Bool :=
  c == '-' || c == ':' || c == '_' || Text.isAlphanumeric c

/-- A level, or a target that is shown whole. -/
def ofWord (text : List Char) : Directive :=
  match Reach.ofText? text with
  | some r => { target := [], reach := r }
  | none => { target := text, reach := .everything }

/-- The level from a place to the end. -/
def levelAt (text : Bytes) (place : Nat) : Except Refusal Reach :=
  match part text place text.length with
  | .error r => .error r
  | .ok [] => .ok .everything
  | .ok word =>
    match Reach.ofText? word with
    | some r => .ok r
    | none => .error .unreadable

/-- What follows the brackets: nothing, or a level. -/
def afterBrackets (text : Bytes) (target : List Char) (scope : Scope) (place : Nat) :
    List Char → Except Refusal Directive
  | [] => .ok ⟨target, scope, .everything⟩
  | '=' :: _ =>
    match levelAt text (place + 1) with
    | .error r => .error r
    | .ok reach => .ok ⟨target, scope, reach⟩
  | _ => .error .unreadable

/-- What stands in braces: the name of a value, perhaps with a pattern. -/
def scopeOfValue (word : List Char) : Except Refusal Scope :=
  let name := word.takeWhile (· != '=')
  if word = [] then .error .unreadable
  else if name = word then .ok (.having name)
  else if isPattern ((word.drop (name.length + 1)).takeWhile (· != '=')) then .ok .inSpan
  else .error .unreadable

/-- What stands in brackets, from after the opening one on, and what follows. -/
def brackets (text : Bytes) (target : List Char) (place : Nat) (cs : List Char) :
    Except Refusal Directive :=
  let name := cs.takeWhile fun c => c != ']' && c != '\x7b'
  let after := place + size name
  match cs.dropWhile fun c => c != ']' && c != '\x7b' with
  | [] => .error .unreadable
  | c :: rest =>
    match part text place after with
    | .error r => .error r
    | .ok span =>
      if c = ']' then afterBrackets text target .inSpan (after + 1) rest
      else
        let value := rest.takeWhile (· != '\x7d')
        let last := after + 1 + size value
        match rest.dropWhile (· != '\x7d') with
        | [] => .error .unreadable
        | _ :: rest =>
          match part text (after + 1) last with
          | .error r => .error r
          | .ok word =>
            match scopeOfValue word, rest with
            | .error r, _ => .error r
            | .ok scope, ']' :: rest =>
              afterBrackets text target (if span = [] then scope else .inSpan) (last + 2) rest
            | .ok _, _ => .error .unreadable

def ofText (text : List Char) : Except Refusal Directive :=
  let bytes := Utf8.encode text
  match Text.trim text with
  | [] => .error .unreadable
  | '[' :: rest => brackets bytes [] 1 rest
  | c :: cs =>
    if !startsWith c then .error .unreadable
    else
      let word := (c :: cs).takeWhile fun c => c != '=' && c != '['
      match (c :: cs).dropWhile fun c => c != '=' && c != '[' with
      | [] => .ok (ofWord text)
      | sign :: rest =>
        match part bytes 0 (size word) with
        | .error r => .error r
        | .ok target =>
          if sign = '[' then brackets bytes target (size word + 1) rest
          else afterBrackets bytes target .all (size word) (sign :: rest)

end Directive
end Log
end Lox

import Lox.Json.Skip
import Lox.Proofs.JsonNumber
import Lox.Proofs.JsonText

/-!
# JSON values

A reader for any JSON text, in the way the language is usually read: numbers are kept as the exact
decimals that they denote, strings as the text that they stand for, and the members of an object in
their order. How deep brackets may be nested is a parameter, and a text is read with its own length
for it, which no text can be nested deeper than.

Results: no reader gives back as much as it was given (`Reader.items_length`, `readFrom_length`), so
that lists are read in finitely many steps.
-/
namespace Lox
namespace Json

open Utf8 (ascii encode)

inductive Value
  | null
  | bool (b : Bool)
  | number (negative : Bool) (size : Decimal)
  | text (s : List Char)
  | list (items : List Value)
  | object (members : List (List Char × Value))

/-! ## Readers -/

/-- Takes something from the front of a text, at least one byte. -/
structure Reader (α : Type) where
  read : Bytes → Except Fault (α × Bytes)
  shorter {bs rest : Bytes} {a : α} : read bs = .ok (a, rest) → rest.length < bs.length

namespace Reader

variable {α : Type}

/-- Items with commas between them, up to the closing bracket. -/
def items (r : Reader α) (o : Bracket) (bs : Bytes) : Except Fault (List α × Bytes) :=
  match _h : r.read bs with
  | .error f => .error f
  | .ok (a, left) =>
    match _hb : skipBlanks left with
    | [] => .error ⟨o.atEnd, []⟩
    | b :: rest =>
      if b = o.closing then .ok ([a], rest)
      else if b ≠ ascii ',' then .error ⟨o.noComma, rest⟩
      else match items r o rest with
        | .error f => .error f
        | .ok (more, rest) => .ok (a :: more, rest)
termination_by bs.length
decreasing_by
  have hread := r.shorter _h
  have hblanks := skipBlanks_length left
  rw [_hb, List.length_cons] at hblanks
  omega

/-- What stands behind an opening bracket. -/
def within (r : Reader α) (o : Bracket) (bs : Bytes) : Except Fault (List α × Bytes) :=
  match skipBlanks bs with
  | [] => .error ⟨o.atEnd, []⟩
  | b :: rest => if b = o.closing then .ok ([], rest) else r.items o (b :: rest)

theorem items_length (r : Reader α) {o : Bracket} {bs rest : Bytes} {as : List α}
    (h : r.items o bs = .ok (as, rest)) : rest.length < bs.length := by
  fun_induction items r o bs generalizing as with
  | case1 => cases h
  | case2 => cases h
  | case3 bs a left hread rest' hblanks =>
    cases h
    have := r.shorter hread
    have := skipBlanks_length left
    rw [hblanks, List.length_cons] at this
    omega
  | case4 => cases h
  | case5 => cases h
  | case6 bs a left hread b rest' hblanks _ _ more last hmore ih =>
    cases h
    have := r.shorter hread
    have := skipBlanks_length left
    rw [hblanks, List.length_cons] at this
    have := ih hmore
    omega

theorem within_length (r : Reader α) {o : Bracket} {bs rest : Bytes} {as : List α}
    (h : r.within o bs = .ok (as, rest)) : rest.length < bs.length := by
  have hblanks := skipBlanks_length bs
  unfold within at h
  split at h
  · cases h
  rename_i b left hb
  rw [hb] at hblanks
  split at h
  · cases h
    exact hblanks
  · have := r.items_length h
    omega

/-- A key, a colon and a value. -/
def member (r : Reader Value) : Reader (List Char × Value) where
  read bs :=
    match skipBlanks bs with
    | [] => .error ⟨.endInObject, []⟩
    | b :: rest =>
      if b ≠ ascii '"' then .error ⟨.keyNotText, rest⟩
      else match string rest with
        | .error f => .error f
        | .ok (key, rest) =>
          match colon rest with
          | .error f => .error f
          | .ok rest =>
            match r.read rest with
            | .error f => .error f
            | .ok (v, rest) => .ok ((key, v), rest)
  shorter := by
    intro bs rest a h
    have hblanks := skipBlanks_length bs
    split at h
    · cases h
    rename_i b left hb
    rw [hb, List.length_cons] at hblanks
    split at h
    · cases h
    split at h
    · cases h
    rename_i hkey
    have := string_length hkey
    split at h
    · cases h
    rename_i hcolon
    have := colon_length hcolon
    split at h
    · cases h
    rename_i hvalue
    have := r.shorter hvalue
    cases h
    omega

end Reader

namespace Value

/-- A number, after its sign. -/
def readNumber (negative : Bool) (bs : Bytes) : Except Fault (Value × Bytes) :=
  match numberParts .endInValue bs with
  | .error f => .error f
  | .ok (p, rest) => .ok (number negative p.decimal, rest)

/-- A value that starts with the byte `b`; the values inside it are read by `inner`. -/
def readFrom (inner : Reader Value) (b : UInt8) (bs : Bytes) : Except Fault (Value × Bytes) :=
  if b = ascii 'n' then (word ("ull".toList.map ascii) bs).map fun rest => (null, rest)
  else if b = ascii 't' then (word ("rue".toList.map ascii) bs).map fun rest => (bool true, rest)
  else if b = ascii 'f' then (word ("alse".toList.map ascii) bs).map fun rest => (bool false, rest)
  else if b = ascii '-' then readNumber true bs
  else if isDigit b then readNumber false (b :: bs)
  else if b = ascii '"' then (string bs).map fun (s, rest) => (text s, rest)
  else if b = ascii '[' then (inner.within .list bs).map fun (vs, rest) => (list vs, rest)
  else if b = ascii '\x7b' then
    (inner.member.within .object bs).map fun (ms, rest) => (object ms, rest)
  else .error ⟨.expectedValue, bs⟩

theorem map_eq_ok {α β : Type} {f : α → β} {x : Except Fault α} {b : β} (h : x.map f = .ok b) :
    ∃ a, x = .ok a ∧ f a = b := by
  cases x with
  | error e => cases h
  | ok a => exact ⟨a, rfl, Except.ok.inj h⟩

theorem readNumber_length {negative : Bool} {bs rest : Bytes} {v : Value}
    (h : readNumber negative bs = .ok (v, rest)) : rest.length < bs.length := by
  unfold readNumber at h
  split at h
  · cases h
  · rename_i hparts
    cases h
    exact numberParts_length hparts

theorem readFrom_length {inner : Reader Value} {b : UInt8} {bs rest : Bytes} {v : Value}
    (h : readFrom inner b bs = .ok (v, rest)) : rest.length ≤ bs.length := by
  unfold readFrom at h
  split at h
  · obtain ⟨a, ha, he⟩ := map_eq_ok h
    cases he
    exact word_length ha
  split at h
  · obtain ⟨a, ha, he⟩ := map_eq_ok h
    cases he
    exact word_length ha
  split at h
  · obtain ⟨a, ha, he⟩ := map_eq_ok h
    cases he
    exact word_length ha
  split at h
  · exact Nat.le_of_lt (readNumber_length h)
  split at h
  · exact Nat.le_of_lt_succ (readNumber_length h)
  split at h
  · obtain ⟨a, ha, he⟩ := map_eq_ok h
    cases he
    exact string_length ha
  split at h
  · obtain ⟨a, ha, he⟩ := map_eq_ok h
    cases he
    exact Nat.le_of_lt (inner.within_length ha)
  split at h
  · obtain ⟨a, ha, he⟩ := map_eq_ok h
    cases he
    exact Nat.le_of_lt (inner.member.within_length ha)
  · cases h

/-- A value, after any blanks; the values inside it are read by `inner`. -/
def around (inner : Reader Value) : Reader Value where
  read bs :=
    match skipBlanks bs with
    | [] => .error ⟨.endInValue, []⟩
    | b :: rest => readFrom inner b rest
  shorter := by
    intro bs rest a h
    have hblanks := skipBlanks_length bs
    split at h
    · cases h
    rename_i b left hb
    rw [hb, List.length_cons] at hblanks
    have := readFrom_length h
    omega

/-- Reads nothing. -/
def nothing : Reader Value := ⟨fun _ => .error ⟨.expectedValue, []⟩, fun h => by cases h⟩

/-- A value, with brackets up to a depth. -/
def reader : Nat → Reader Value
  | 0 => nothing
  | depth + 1 => around (reader depth)

/-- The value of a whole text. -/
def read (bs : Bytes) : Except Fault Value :=
  match (reader bs.length).read bs with
  | .error f => .error f
  | .ok (v, rest) =>
    match skipBlanks rest with
    | [] => .ok v
    | _ :: rest => .error ⟨.trailingText, rest⟩

/-! ## Parts of a value -/

/-- The first member of a name. -/
def member? (v : Value) (key : List Char) : Option Value :=
  match v with
  | object members => (members.find? (·.1 = key)).map Prod.snd
  | _ => none

/-- The binary64 number nearest to a number. -/
def float? : Value → Option Binary64
  | number negative size => some (.ofMagnitude negative size.nearest)
  | _ => none

end Value
end Json
end Lox

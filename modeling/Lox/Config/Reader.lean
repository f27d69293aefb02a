import Lox.Config.Basic
import Lox.Json.Skip

/-!
# Reading configurations

A configuration is a JSON object with known members, each at most once, in any order, among any
others; or a list of the values of the known members in their order, perhaps cut short. What is
missing takes its default. The format is a string, or an object whose one key is the string and
whose value is null.

* `member_length`, `readField_length`: a member takes at least one byte, so the list of members is
  read in finitely many steps.
-/
namespace Lox
namespace Config

open Json (Fault skipBlanks)
open Utf8 (ascii)

/-! ## Values of the wrong type -/

/-- The fault of a value that is there instead of what is expected. Plain values are read first, and
may be at fault themselves; a bracket is not taken. -/
def wrongType (expected : List Char) (b : UInt8) (bs : Bytes) : Fault :=
  let found (r : Except Fault (Json.Found × Bytes)) : Fault :=
    match r with
    | .error f => f
    | .ok (v, rest) => ⟨.wrongType v expected, rest⟩
  let plain (w : List Char) (v : Json.Found) : Fault :=
    found ((Json.word (w.map ascii) bs).map fun rest => (v, rest))
  if b = ascii 'n' then plain "ull".toList .null
  else if b = ascii 't' then plain "rue".toList (.bool true)
  else if b = ascii 'f' then plain "alse".toList (.bool false)
  else if b = ascii '-' then found (Json.readNumber true bs)
  else if Json.isDigit b then found (Json.readNumber false (b :: bs))
  else if b = ascii '"' then found ((Json.string bs).map fun (s, rest) => (.text s, rest))
  else if b = ascii '[' then ⟨.wrongType .list expected, b :: bs⟩
  else if b = ascii '\x7b' then ⟨.wrongType .object expected, b :: bs⟩
  else ⟨.expectedValue, bs⟩

/-! ## Values of members -/

def readText (bs : Bytes) : Except Fault (List Char × Bytes) :=
  match skipBlanks bs with
  | [] => .error ⟨.endInValue, []⟩
  | b :: rest =>
    if b = ascii '"' then Json.string rest else .error (wrongType "a string".toList b rest)

/-- The format that a string names, the string being read up to `rest`. -/
def named (name : List Char) (rest : Bytes) : Except Fault (Format × Bytes) :=
  match Format.ofName? name with
  | some f => .ok (f, rest)
  | none => .error ⟨.unknownVariant name (Format.all.map Format.name), rest⟩

/-- The rest after a null. -/
def readNull (bs : Bytes) : Except Fault Bytes :=
  match skipBlanks bs with
  | [] => .error ⟨.endInValue, []⟩
  | b :: rest =>
    if b = ascii 'n' then Json.word ("ull".toList.map ascii) rest
    else .error (wrongType "unit".toList b rest)

/-- A format as an object, after its opening bracket. -/
def readKeyedFormat (bs : Bytes) : Except Fault (Format × Bytes) :=
  match skipBlanks bs with
  | [] => .error ⟨.endInObject, []⟩
  | b :: rest =>
    if b = ascii '\x7d' then .error ⟨.expectedValue, rest⟩
    else if b ≠ ascii '"' then .error ⟨.keyNotText, rest⟩
    else match Json.string rest with
      | .error f => .error f
      | .ok (name, rest) =>
        match named name rest with
        | .error f => .error f
        | .ok (format, rest) =>
          match Json.colon rest with
          | .error f => .error f
          | .ok rest =>
            match readNull rest with
            | .error f => .error f
            | .ok rest =>
              match skipBlanks rest with
              | [] => .error ⟨.endInObject, []⟩
              | b :: rest =>
                if b = ascii '\x7d' then .ok (format, rest) else .error ⟨.expectedValue, b :: rest⟩

def readFormat (bs : Bytes) : Except Fault (Format × Bytes) :=
  match skipBlanks bs with
  | [] => .error ⟨.endInValue, []⟩
  | b :: rest =>
    if b = ascii '"' then
      match Json.string rest with
      | .error f => .error f
      | .ok (name, rest) => named name rest
    else if b = ascii '\x7b' then readKeyedFormat rest
    else .error ⟨.expectedValue, rest⟩

theorem readText_length {bs rest : Bytes} {s : List Char} (h : readText bs = .ok (s, rest)) :
    rest.length ≤ bs.length := by
  have hs := Json.skipBlanks_length bs
  unfold readText at h
  split at h
  · simp at h
  rename_i hb
  rw [hb, List.length_cons] at hs
  split at h
  · have := Json.string_length h; omega
  · simp at h

theorem named_rest {name : List Char} {bs rest : Bytes} {f : Format}
    (h : named name bs = .ok (f, rest)) : rest = bs := by
  unfold named at h
  split at h
  · exact (Prod.mk.inj (Except.ok.inj h)).2.symm
  · simp at h

theorem readNull_length {bs rest : Bytes} (h : readNull bs = .ok rest) :
    rest.length ≤ bs.length := by
  have hs := Json.skipBlanks_length bs
  unfold readNull at h
  split at h
  · simp at h
  rename_i hb
  rw [hb, List.length_cons] at hs
  split at h
  · have := Json.word_length h; omega
  · simp at h

theorem readKeyedFormat_length {bs rest : Bytes} {f : Format}
    (h : readKeyedFormat bs = .ok (f, rest)) : rest.length ≤ bs.length := by
  have hs := Json.skipBlanks_length bs
  unfold readKeyedFormat at h
  split at h
  · simp at h
  rename_i hb
  rw [hb, List.length_cons] at hs
  split at h
  · simp at h
  split at h
  · simp at h
  split at h
  · simp at h
  rename_i hstr
  have := Json.string_length hstr
  split at h
  · simp at h
  rename_i hn
  have := named_rest hn
  subst this
  split at h
  · simp at h
  rename_i hc
  have := Json.colon_length hc
  split at h
  · simp at h
  rename_i r hnull
  have := readNull_length hnull
  have hr := Json.skipBlanks_length r
  split at h
  · simp at h
  rename_i hb'
  rw [hb', List.length_cons] at hr
  split at h
  · obtain ⟨_, rfl⟩ := Prod.mk.inj (Except.ok.inj h); omega
  · simp at h

theorem readFormat_length {bs rest : Bytes} {f : Format} (h : readFormat bs = .ok (f, rest)) :
    rest.length ≤ bs.length := by
  have hs := Json.skipBlanks_length bs
  unfold readFormat at h
  split at h
  · simp at h
  rename_i hb
  rw [hb, List.length_cons] at hs
  split at h
  · split at h
    · simp at h
    · rename_i hstr
      have := Json.string_length hstr
      have := named_rest h
      subst this
      omega
  split at h
  · have := readKeyedFormat_length h; omega
  · simp at h

/-! ## Members -/

/-- The members read so far. -/
structure Members where
  prompt : Option (List Char) := none
  format : Option Format := none
  logLevel : Option (List Char) := none
  deriving DecidableEq, Repr

namespace Members

def has (m : Members) : Field → Bool
  | .prompt => m.prompt.isSome
  | .format => m.format.isSome
  | .logLevel => m.logLevel.isSome

def toConfig (m : Members) : Config :=
  { prompt := m.prompt.getD ({} : Config).prompt
    format := m.format.getD ({} : Config).format
    logLevel := m.logLevel.getD ({} : Config).logLevel }

end Members

/-- Reads the value of a member into its place. -/
def readField (k : Field) (m : Members) (bs : Bytes) : Except Fault (Members × Bytes) :=
  match k with
  | .prompt =>
    match readText bs with
    | .error f => .error f
    | .ok (s, rest) => .ok ({ m with prompt := some s }, rest)
  | .format =>
    match readFormat bs with
    | .error f => .error f
    | .ok (f, rest) => .ok ({ m with format := some f }, rest)
  | .logLevel =>
    match readText bs with
    | .error f => .error f
    | .ok (s, rest) => .ok ({ m with logLevel := some s }, rest)

theorem readField_length {k : Field} {m m' : Members} {bs rest : Bytes}
    (h : readField k m bs = .ok (m', rest)) : rest.length ≤ bs.length := by
  unfold readField at h
  split at h
  · split at h
    · simp at h
    · rename_i ht
      obtain ⟨_, rfl⟩ := Prod.mk.inj (Except.ok.inj h)
      exact readText_length ht
  · split at h
    · simp at h
    · rename_i hf
      obtain ⟨_, rfl⟩ := Prod.mk.inj (Except.ok.inj h)
      exact readFormat_length hf
  · split at h
    · simp at h
    · rename_i ht
      obtain ⟨_, rfl⟩ := Prod.mk.inj (Except.ok.inj h)
      exact readText_length ht

/-- A second member of one name is found at the next byte that is no blank, or after it if the
object closes there. -/
def afterRepeated (bs : Bytes) : Bytes :=
  match skipBlanks bs with
  | [] => []
  | b :: rest => if b = ascii '\x7d' then rest else b :: rest

/-- A member, after the opening quote of its key. -/
def member (m : Members) (bs : Bytes) : Except Fault (Members × Bytes) :=
  match Json.string bs with
  | .error f => .error f
  | .ok (key, rest) =>
    match Field.ofName? key with
    | some k =>
      if m.has k then .error ⟨.duplicateField key, afterRepeated rest⟩
      else match Json.colon rest with
        | .error f => .error f
        | .ok rest => readField k m rest
    | none =>
      match Json.colon rest with
      | .error f => .error f
      | .ok rest =>
        match Json.skipValue [] rest with
        | .error f => .error f
        | .ok rest => .ok (m, rest)

theorem member_length {m m' : Members} {bs rest : Bytes} (h : member m bs = .ok (m', rest)) :
    rest.length ≤ bs.length := by
  unfold member at h
  split at h
  · simp at h
  rename_i hs
  have := Json.string_length hs
  split at h
  · split at h
    · simp at h
    split at h
    · simp at h
    rename_i hc
    have := Json.colon_length hc
    have := readField_length h
    omega
  · split at h
    · simp at h
    rename_i hc
    have := Json.colon_length hc
    split at h
    · simp at h
    rename_i hv
    have := Json.skipValue_length hv
    obtain ⟨_, rfl⟩ := Prod.mk.inj (Except.ok.inj h)
    omega

/-! ## Objects and lists -/

/-- The bytes from the opening quote of the next key on, or nothing at the closing bracket, and
then the bytes after it. All members but the first have a comma before them. -/
def nextKey (first : Bool) (bs : Bytes) : Except Fault (Bool × Bytes) :=
  match skipBlanks bs with
  | [] => .error ⟨.endInObject, []⟩
  | b :: rest =>
    if b = ascii '\x7d' then .ok (false, rest)
    else if first then
      if b = ascii '"' then .ok (true, rest) else .error ⟨.keyNotText, rest⟩
    else if b ≠ ascii ',' then .error ⟨.expectedObjectComma, rest⟩
    else match skipBlanks rest with
      | [] => .error ⟨.endInValue, []⟩
      | b :: rest =>
        if b = ascii '\x7d' then .error ⟨.trailingComma, rest⟩
        else if b = ascii '"' then .ok (true, rest)
        else .error ⟨.keyNotText, rest⟩

theorem nextKey_length {first more : Bool} {bs rest : Bytes}
    (h : nextKey first bs = .ok (more, rest)) : rest.length < bs.length := by
  have hs := Json.skipBlanks_length bs
  unfold nextKey at h
  split at h
  · simp at h
  rename_i r hb
  rw [hb, List.length_cons] at hs
  split at h
  · obtain ⟨_, rfl⟩ := Prod.mk.inj (Except.ok.inj h); omega
  split at h
  · split at h
    · obtain ⟨_, rfl⟩ := Prod.mk.inj (Except.ok.inj h); omega
    · simp at h
  split at h
  · simp at h
  have hr := Json.skipBlanks_length r
  split at h
  · simp at h
  rename_i hb'
  rw [hb', List.length_cons] at hr
  split at h
  · simp at h
  split at h
  · obtain ⟨_, rfl⟩ := Prod.mk.inj (Except.ok.inj h); omega
  · simp at h

/-- The members of an object, up to its closing bracket. -/
def members (first : Bool) (m : Members) (bs : Bytes) : Except Fault (Members × Bytes) :=
  match _hk : nextKey first bs with
  | .error f => .error f
  | .ok (false, rest) => .ok (m, rest)
  | .ok (true, rest) =>
    match _hm : member m rest with
    | .error f => .error f
    | .ok (m, rest) => members false m rest
termination_by bs.length
decreasing_by
  have := nextKey_length _hk
  have := member_length _hm
  omega

/-- After the last value of a list. -/
def closeList (m : Members) (bs : Bytes) : Except Fault (Members × Bytes) :=
  match skipBlanks bs with
  | [] => .error ⟨.endInList, []⟩
  | b :: rest =>
    if b = ascii ']' then .ok (m, rest)
    else if b ≠ ascii ',' then .error ⟨.trailingText, rest⟩
    else match skipBlanks rest with
      | [] => .error ⟨.trailingText, []⟩
      | b :: rest =>
        if b = ascii ']' then .error ⟨.trailingComma, rest⟩ else .error ⟨.trailingText, rest⟩

/-- The values of a list, for the fields that are still to come. -/
def values (first : Bool) : List Field → Members → Bytes → Except Fault (Members × Bytes)
  | [], m, bs => closeList m bs
  | k :: ks, m, bs =>
    match skipBlanks bs with
    | [] => .error ⟨.endInList, []⟩
    | b :: rest =>
      if b = ascii ']' then .ok (m, rest)
      else if first then
        match readField k m (b :: rest) with
        | .error f => .error f
        | .ok (m, rest) => values false ks m rest
      else if b ≠ ascii ',' then .error ⟨.expectedListComma, rest⟩
      else match skipBlanks rest with
        | [] => .error ⟨.endInValue, []⟩
        | b :: rest =>
          if b = ascii ']' then .error ⟨.trailingComma, rest⟩
          else match readField k m (b :: rest) with
            | .error f => .error f
            | .ok (m, rest) => values false ks m rest

/-! ## Documents -/

def document (bs : Bytes) : Except Fault Config :=
  match skipBlanks bs with
  | [] => .error ⟨.endInValue, []⟩
  | b :: rest =>
    let body :=
      if b = ascii '[' then values true Field.all {} rest
      else if b = ascii '\x7b' then members true {} rest
      else .error (wrongType "struct Config".toList b rest)
    match body with
    | .error f => .error f
    | .ok (m, rest) =>
      match skipBlanks rest with
      | [] => .ok m.toConfig
      | _ :: rest => .error ⟨.trailingText, rest⟩

/-- The configuration that a whole file holds, or its first fault and where that is. -/
def read (file : Bytes) : Except Json.Located Config :=
  match document file with
  | .error f => .error (f.locate file)
  | .ok c => .ok c

end Config
end Lox

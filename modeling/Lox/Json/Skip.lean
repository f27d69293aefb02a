import Lox.Json.Number

/-!
# Skipping JSON values

A value that nobody asked for is passed over, however deep it is nested: the open brackets are kept
on a list, innermost first. Each step passes one plain value or one opening bracket, then the
brackets that close after it, and stops where the next value is due.

Skipped strings may hold any surrogates, and skipped numbers may be of any size.

Results: a step takes at least one byte (`advance_length`), and so does a whole value
(`skipValue_length`).
-/
namespace Lox
namespace Json

open Utf8 (ascii)

/-! ## Plain values -/

/-- The rest after a string, from after its opening quote on. A control character is not taken. -/
def skipString : Bytes → Except Fault Bytes
  | [] => .error ⟨.endInString, []⟩
  | b :: bs =>
    if b = ascii '"' then .ok bs
    else if b = ascii '\\' then
      match bs with
      | [] => .error ⟨.endInString, []⟩
      | e :: bs =>
        if e = ascii 'u' then
          match _h : hexUnit bs with
          | .error f => .error f
          | .ok (_, rest) => skipString rest
        else if (shortEscape? e).isSome then skipString bs
        else .error ⟨.badEscape, bs⟩
    else if b.toNat < 0x20 then .error ⟨.controlCharacter, b :: bs⟩
    else skipString bs
termination_by bs => bs.length
decreasing_by
  · have := hexUnit_length _h; simp only [List.length_cons]; omega
  · simp only [List.length_cons]; omega
  · exact Nat.lt_succ_self _

theorem skipString_length {bs rest : Bytes} (h : skipString bs = .ok rest) :
    rest.length ≤ bs.length := by
  fun_induction skipString bs with
  | case1 => simp at h
  | case2 bs => cases Except.ok.inj h; simp
  | case3 => simp at h
  | case4 => simp at h
  | case5 bs n r hu _ ih =>
    have := hexUnit_length hu
    have := ih h
    simp; omega
  | case6 e bs _ _ _ ih => have := ih h; simp; omega
  | case7 => simp at h
  | case8 => simp at h
  | case9 b bs _ _ _ ih => have := ih h; simp; omega

def skipNumber (bs : Bytes) : Except Fault Bytes :=
  match numberParts .badNumber bs with
  | .error f => .error f
  | .ok (_, rest) => .ok rest

theorem skipNumber_length {bs rest : Bytes} (h : skipNumber bs = .ok rest) :
    rest.length < bs.length := by
  unfold skipNumber at h
  split at h
  · simp at h
  · rename_i hn
    cases Except.ok.inj h
    exact numberParts_length hn

/-- The rest after a value without brackets that starts with `b`. -/
def skipPlain (b : UInt8) (bs : Bytes) : Except Fault Bytes :=
  if b = ascii 'n' then word ("ull".toList.map ascii) bs
  else if b = ascii 't' then word ("rue".toList.map ascii) bs
  else if b = ascii 'f' then word ("alse".toList.map ascii) bs
  else if b = ascii '-' then skipNumber bs
  else if isDigit b then skipNumber (b :: bs)
  else if b = ascii '"' then skipString bs
  else .error ⟨.expectedValue, bs⟩

theorem skipPlain_length {b : UInt8} {bs rest : Bytes} (h : skipPlain b bs = .ok rest) :
    rest.length ≤ bs.length := by
  unfold skipPlain at h
  split at h
  · exact word_length h
  split at h
  · exact word_length h
  split at h
  · exact word_length h
  split at h
  · exact Nat.le_of_lt (skipNumber_length h)
  split at h
  · exact Nat.le_of_lt_succ (skipNumber_length h)
  split at h
  · exact skipString_length h
  · simp at h

/-! ## Brackets -/

inductive Bracket
  | list
  | object
  deriving DecidableEq, Repr

namespace Bracket

def closing : Bracket → UInt8
  | list => ascii ']'
  | object => ascii '\x7d'

def atEnd : Bracket → Cause
  | list => .endInList
  | object => .endInObject

def noComma : Bracket → Cause
  | list => .expectedListComma
  | object => .expectedObjectComma

end Bracket

/-- The rest after a colon. -/
def colon (bs : Bytes) : Except Fault Bytes :=
  match skipBlanks bs with
  | [] => .error ⟨.endInObject, []⟩
  | b :: rest => if b = ascii ':' then .ok rest else .error ⟨.expectedColon, rest⟩

theorem colon_length {bs rest : Bytes} (h : colon bs = .ok rest) : rest.length ≤ bs.length := by
  have := skipBlanks_length bs
  unfold colon at h
  split at h
  · simp at h
  split at h
  · cases Except.ok.inj h; simp_all; omega
  · simp at h

/-- The rest after a key and its colon. -/
def skipKey (bs : Bytes) : Except Fault Bytes :=
  match skipBlanks bs with
  | [] => .error ⟨.endInObject, []⟩
  | b :: rest =>
    if b ≠ ascii '"' then .error ⟨.keyNotText, rest⟩
    else match skipString rest with
      | .error f => .error f
      | .ok rest => colon rest

theorem skipKey_length {bs rest : Bytes} (h : skipKey bs = .ok rest) :
    rest.length ≤ bs.length := by
  have := skipBlanks_length bs
  unfold skipKey at h
  split at h
  · simp at h
  split at h
  · simp at h
  split at h
  · simp at h
  · rename_i hs
    have := skipString_length hs
    have := colon_length h
    simp_all; omega

/-- Where the next value inside the open brackets starts. -/
def due (opened : List Bracket) (bs : Bytes) : Except Fault Bytes :=
  match opened with
  | .object :: _ => skipKey bs
  | _ => .ok bs

theorem due_length {opened : List Bracket} {bs rest : Bytes} (h : due opened bs = .ok rest) :
    rest.length ≤ bs.length := by
  unfold due at h
  split at h
  · exact skipKey_length h
  · cases Except.ok.inj h; exact Nat.le_refl _

/-- After a value: closes brackets up to a comma or up to the last one. -/
def close : List Bracket → Bytes → Except Fault (List Bracket × Bytes)
  | [], bs => .ok ([], bs)
  | o :: opened, bs =>
    match skipBlanks bs with
    | [] => .error ⟨o.atEnd, []⟩
    | b :: rest =>
      if b = ascii ',' then .ok (o :: opened, rest)
      else if b = o.closing then close opened rest
      else .error ⟨o.noComma, rest⟩

theorem close_length {opened left : List Bracket} {bs rest : Bytes}
    (h : close opened bs = .ok (left, rest)) : rest.length ≤ bs.length := by
  induction opened generalizing bs with
  | nil => obtain ⟨_, rfl⟩ := Prod.mk.inj (Except.ok.inj h); exact Nat.le_refl _
  | cons o opened ih =>
    have hs := skipBlanks_length bs
    unfold close at h
    split at h
    · simp at h
    rename_i b r hb
    rw [hb, List.length_cons] at hs
    split at h
    · obtain ⟨_, rfl⟩ := Prod.mk.inj (Except.ok.inj h); omega
    split at h
    · have := ih h; omega
    · simp at h

/-- After an opening bracket: it closes at once, or its first value is due. -/
def enter (o : Bracket) (opened : List Bracket) (bs : Bytes) :
    Except Fault (List Bracket × Bytes) :=
  match skipBlanks bs with
  | [] => .error ⟨o.atEnd, []⟩
  | b :: rest => if b = o.closing then close opened rest else .ok (o :: opened, b :: rest)

theorem enter_length {o : Bracket} {opened left : List Bracket} {bs rest : Bytes}
    (h : enter o opened bs = .ok (left, rest)) : rest.length ≤ bs.length := by
  have hs := skipBlanks_length bs
  unfold enter at h
  split at h
  · simp at h
  rename_i b r hb
  rw [hb] at hs
  split at h
  · have := close_length h; simp at hs; omega
  · obtain ⟨_, rfl⟩ := Prod.mk.inj (Except.ok.inj h); exact hs

/-! ## Values -/

/-- The step over what starts with the byte `b`. -/
def pass (opened : List Bracket) (b : UInt8) (rest : Bytes) :
    Except Fault (List Bracket × Bytes) :=
  if b = ascii '[' then enter .list opened rest
  else if b = ascii '\x7b' then enter .object opened rest
  else match skipPlain b rest with
    | .error f => .error f
    | .ok rest => close opened rest

theorem pass_length {opened left : List Bracket} {b : UInt8} {bs rest : Bytes}
    (h : pass opened b bs = .ok (left, rest)) : rest.length ≤ bs.length := by
  unfold pass at h
  split at h
  · exact enter_length h
  split at h
  · exact enter_length h
  split at h
  · simp at h
  · rename_i hp
    exact Nat.le_trans (close_length h) (skipPlain_length hp)

/-- One step from where a value starts: the brackets still open, and the bytes from where the next
value is due. -/
def advance (opened : List Bracket) (bs : Bytes) : Except Fault (List Bracket × Bytes) :=
  match skipBlanks bs with
  | [] => .error ⟨.endInValue, []⟩
  | b :: rest =>
    match pass opened b rest with
    | .error f => .error f
    | .ok (left, rest) =>
      match due left rest with
      | .error f => .error f
      | .ok rest => .ok (left, rest)

theorem advance_length {opened left : List Bracket} {bs rest : Bytes}
    (h : advance opened bs = .ok (left, rest)) : rest.length < bs.length := by
  have := skipBlanks_length bs
  unfold advance at h
  split at h
  · simp at h
  split at h
  · simp at h
  rename_i hp
  split at h
  · simp at h
  rename_i hd
  obtain ⟨_, rfl⟩ := Prod.mk.inj (Except.ok.inj h)
  have hpass := pass_length hp
  have hdue := due_length hd
  simp_all; omega

/-- The rest after a value and after the brackets that are open around it. -/
def skipValue (opened : List Bracket) (bs : Bytes) : Except Fault Bytes :=
  match _h : advance opened bs with
  | .error f => .error f
  | .ok ([], rest) => .ok rest
  | .ok (o :: left, rest) => skipValue (o :: left) rest
termination_by bs.length
decreasing_by exact advance_length _h

theorem skipValue_length {opened : List Bracket} {bs rest : Bytes}
    (h : skipValue opened bs = .ok rest) : rest.length < bs.length := by
  fun_induction skipValue opened bs with
  | case1 => simp at h
  | case2 _ bs r ha => cases Except.ok.inj h; exact advance_length ha
  | case3 _ bs o left r ha ih => exact Nat.lt_trans (ih h) (advance_length ha)

end Json
end Lox

import Lox.Json.Fault

/-!
# Reading JSON: blanks, words and strings

Readers take the bytes that are left and give a result and the bytes after it, or a fault. A fault
at a byte that was only looked at leaves the bytes after that byte; one at the end leaves none.

Results: no reader gives back more than it was given (`word_length`, `string_length`).
-/
namespace Lox
namespace Json

open Utf8 (ascii)

def isBlank (b : UInt8) : Bool :=
  b == ascii ' ' || b == ascii '\t' || b == ascii '\n' || b == ascii '\r'

/-- The bytes after any blanks. -/
def skipBlanks (bs : Bytes) : Bytes := bs.dropWhile isBlank

theorem skipBlanks_length (bs : Bytes) : (skipBlanks bs).length ≤ bs.length :=
  (List.dropWhile_sublist _).length_le

/-! ## Words -/

/-- Reads the rest of a word such as `null`. -/
def word : Bytes → Bytes → Except Fault Bytes
  | [], bs => .ok bs
  | _ :: _, [] => .error ⟨.endInValue, []⟩
  | w :: ws, b :: bs => if b = w then word ws bs else .error ⟨.expectedWord, bs⟩

theorem word_length {ws bs rest : Bytes} (h : word ws bs = .ok rest) :
    rest.length ≤ bs.length := by
  fun_induction word ws bs with
  | case1 => cases Except.ok.inj h; exact Nat.le_refl _
  | case2 => simp at h
  | case3 w ws bs ih => exact Nat.le_succ_of_le (ih h)
  | case4 => simp at h

/-! ## Escapes -/

def hexValue? (b : UInt8) : Option Nat :=
  let n := b.toNat
  if 0x30 ≤ n ∧ n ≤ 0x39 then some (n - 0x30)
  else if 0x41 ≤ n ∧ n ≤ 0x46 then some (n - 0x37)
  else if 0x61 ≤ n ∧ n ≤ 0x66 then some (n - 0x57)
  else none

/-- Four hexadecimal digits. All four bytes are taken before they are looked at. -/
def hexUnit : Bytes → Except Fault (Nat × Bytes)
  | a :: b :: c :: d :: rest =>
    match hexValue? a, hexValue? b, hexValue? c, hexValue? d with
    | some a, some b, some c, some d => .ok (((a * 16 + b) * 16 + c) * 16 + d, rest)
    | _, _, _, _ => .error ⟨.badEscape, rest⟩
  | _ => .error ⟨.endInString, []⟩

theorem hexUnit_length {bs rest : Bytes} {n : Nat} (h : hexUnit bs = .ok (n, rest)) :
    rest.length ≤ bs.length := by
  unfold hexUnit at h
  split at h
  · split at h <;> simp_all; omega
  · simp at h

/-- The second half of a pair of surrogates, with the `\u` before it. -/
def lowSurrogate (high : Nat) (bs : Bytes) : Except Fault (Char × Bytes) :=
  match bs with
  | [] => .error ⟨.endInString, []⟩
  | b :: bs =>
    if b ≠ ascii '\\' then .error ⟨.unpairedEscape, bs⟩
    else match bs with
      | [] => .error ⟨.endInString, []⟩
      | b :: bs =>
        if b ≠ ascii 'u' then .error ⟨.unpairedEscape, bs⟩
        else match hexUnit bs with
          | .error f => .error f
          | .ok (low, rest) =>
            if 0xDC00 ≤ low ∧ low ≤ 0xDFFF then
              .ok (.ofNat (0x10000 + (high - 0xD800) * 0x400 + (low - 0xDC00)), rest)
            else .error ⟨.loneSurrogate, rest⟩

theorem lowSurrogate_length {high : Nat} {bs rest : Bytes} {c : Char}
    (h : lowSurrogate high bs = .ok (c, rest)) : rest.length ≤ bs.length := by
  unfold lowSurrogate at h
  split at h
  · simp at h
  split at h
  · simp at h
  split at h
  · simp at h
  split at h
  · simp at h
  split at h
  · simp at h
  · rename_i hu
    have := hexUnit_length hu
    split at h
    · obtain ⟨_, rfl⟩ := Prod.mk.inj (Except.ok.inj h)
      simp; omega
    · simp at h

def unicodeEscape (bs : Bytes) : Except Fault (Char × Bytes) :=
  match hexUnit bs with
  | .error f => .error f
  | .ok (n, rest) =>
    if n < 0xD800 ∨ 0xDFFF < n then .ok (.ofNat n, rest)
    else if 0xDC00 ≤ n then .error ⟨.loneSurrogate, rest⟩
    else lowSurrogate n rest

theorem unicodeEscape_length {bs rest : Bytes} {c : Char}
    (h : unicodeEscape bs = .ok (c, rest)) : rest.length ≤ bs.length := by
  unfold unicodeEscape at h
  split at h
  · simp at h
  · rename_i hu
    have := hexUnit_length hu
    split at h
    · obtain ⟨_, rfl⟩ := Prod.mk.inj (Except.ok.inj h)
      exact this
    split at h
    · simp at h
    · exact Nat.le_trans (lowSurrogate_length h) this

/-- What a letter after a backslash stands for. -/
def shortEscape? (b : UInt8) : Option Char :=
  if b = ascii '"' then some '"'
  else if b = ascii '\\' then some '\\'
  else if b = ascii '/' then some '/'
  else if b = ascii 'b' then some '\x08'
  else if b = ascii 'f' then some '\x0c'
  else if b = ascii 'n' then some '\n'
  else if b = ascii 'r' then some '\r'
  else if b = ascii 't' then some '\t'
  else none

/-- An escape, after its backslash. -/
def escaped (bs : Bytes) : Except Fault (Char × Bytes) :=
  match bs with
  | [] => .error ⟨.endInString, []⟩
  | b :: bs =>
    if b = ascii 'u' then unicodeEscape bs
    else match shortEscape? b with
      | some c => .ok (c, bs)
      | none => .error ⟨.badEscape, bs⟩

theorem escaped_length {bs rest : Bytes} {c : Char} (h : escaped bs = .ok (c, rest)) :
    rest.length ≤ bs.length := by
  unfold escaped at h
  split at h
  · simp at h
  split at h
  · have := unicodeEscape_length h; simp; omega
  split at h
  · obtain ⟨_, rfl⟩ := Prod.mk.inj (Except.ok.inj h)
    simp
  · simp at h

/-! ## Strings -/

/-- Puts bytes before those that are read. -/
def before (s : Bytes) : Except Fault (Bytes × Bytes) → Except Fault (Bytes × Bytes)
  | .error f => .error f
  | .ok (t, rest) => .ok (s ++ t, rest)

theorem before_eq_ok {s t rest : Bytes} {r : Except Fault (Bytes × Bytes)}
    (h : before s r = .ok (t, rest)) : ∃ u, r = .ok (u, rest) ∧ t = s ++ u := by
  cases r with
  | error f => simp [before] at h
  | ok p =>
    obtain ⟨rfl, rfl⟩ := Prod.mk.inj (Except.ok.inj h)
    exact ⟨_, rfl, rfl⟩

/-- The bytes of a string, after its opening quote. -/
def stringBytes : Bytes → Except Fault (Bytes × Bytes)
  | [] => .error ⟨.endInString, []⟩
  | b :: bs =>
    if b = ascii '"' then .ok ([], bs)
    else if b = ascii '\\' then
      match _h : escaped bs with
      | .error f => .error f
      | .ok (c, rest) => before (String.utf8EncodeChar c) (stringBytes rest)
    else if b.toNat < 0x20 then .error ⟨.controlCharacter, bs⟩
    else before [b] (stringBytes bs)
termination_by bs => bs.length
decreasing_by
  · have := escaped_length _h; simp; omega
  · simp

theorem stringBytes_length {bs s rest : Bytes} (h : stringBytes bs = .ok (s, rest)) :
    rest.length ≤ bs.length := by
  fun_induction stringBytes bs generalizing s with
  | case1 => simp at h
  | case2 bs => obtain ⟨_, rfl⟩ := Prod.mk.inj (Except.ok.inj h); simp
  | case3 => simp at h
  | case4 bs c r he _ ih =>
    obtain ⟨u, hu, _⟩ := before_eq_ok h
    have := escaped_length he
    have := ih hu
    simp; omega
  | case5 => simp at h
  | case6 b bs _ _ _ ih =>
    obtain ⟨u, hu, _⟩ := before_eq_ok h
    have := ih hu
    simp; omega

/-- A string, after its opening quote. -/
def string (bs : Bytes) : Except Fault (List Char × Bytes) :=
  match stringBytes bs with
  | .error f => .error f
  | .ok (s, rest) => .ok (Utf8.decode s, rest)

theorem string_length {bs rest : Bytes} {s : List Char} (h : string bs = .ok (s, rest)) :
    rest.length ≤ bs.length := by
  unfold string at h
  split at h
  · simp at h
  · rename_i hs
    obtain ⟨_, rfl⟩ := Prod.mk.inj (Except.ok.inj h)
    exact stringBytes_length hs

end Json
end Lox

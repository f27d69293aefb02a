import Lox.Decimal.Nearest
import Lox.Json.Text

/-!
# Reading JSON: numbers

A number has a whole part, perhaps a fraction and perhaps an exponent. Without the last two it is
an integer if 64 bits hold it; everything else is a binary64 number. Of its digits, as many go into
the significand as 64 bits hold, and the exponent makes up for those of the whole part that do not;
the significand and the power of ten are rounded one by one.

Results: a number takes at least one byte (`numberParts_length`).
-/
namespace Lox
namespace Json

open Utf8 (ascii)

def isDigit (b : UInt8) : Bool := 0x30 ≤ b.toNat && b.toNat ≤ 0x39

def digitValue (b : UInt8) : Nat := b.toNat - 0x30

/-! ## Parts -/

/-- The digits of a number, and whether its exponent is negative. -/
structure NumberParts where
  whole : Bytes
  fraction : Option Bytes := none
  exponent : Option (Bool × Bytes) := none
  deriving DecidableEq, Repr

/-- The digits before the point: a zero, or digits that do not start with one. `atEnd` is the cause
of a fault where the text ends. -/
def wholePart (atEnd : Cause) (bs : Bytes) : Except Fault (Bytes × Bytes) :=
  match bs with
  | [] => .error ⟨atEnd, []⟩
  | b :: bs =>
    if !isDigit b then .error ⟨.badNumber, bs⟩
    else if b = ascii '0' then
      match bs with
      | [] => .ok ([b], [])
      | d :: ds => if isDigit d then .error ⟨.badNumber, ds⟩ else .ok ([b], d :: ds)
    else .ok (b :: bs.takeWhile isDigit, bs.dropWhile isDigit)

/-- The digits after a point, of which there is at least one. -/
def fractionPart (atEnd : Cause) (bs : Bytes) : Except Fault (Option Bytes × Bytes) :=
  match bs with
  | [] => .ok (none, [])
  | b :: bs =>
    if b ≠ ascii '.' then .ok (none, b :: bs)
    else match bs with
      | [] => .error ⟨atEnd, []⟩
      | d :: ds =>
        if isDigit d then .ok (some (d :: ds.takeWhile isDigit), ds.dropWhile isDigit)
        else .error ⟨.badNumber, ds⟩

/-- The bytes after a sign, and whether the sign is a minus. -/
def signPart (bs : Bytes) : Bool × Bytes :=
  match bs with
  | [] => (false, [])
  | b :: bs =>
    if b = ascii '+' then (false, bs) else if b = ascii '-' then (true, bs) else (false, b :: bs)

/-- The sign and digits after an `e`, of which there is at least one. -/
def exponentPart (atEnd : Cause) (bs : Bytes) : Except Fault (Option (Bool × Bytes) × Bytes) :=
  match bs with
  | [] => .ok (none, [])
  | b :: bs =>
    if b ≠ ascii 'e' ∧ b ≠ ascii 'E' then .ok (none, b :: bs)
    else match (signPart bs).2 with
      | [] => .error ⟨atEnd, []⟩
      | d :: ds =>
        if isDigit d then
          .ok (some ((signPart bs).1, d :: ds.takeWhile isDigit), ds.dropWhile isDigit)
        else .error ⟨.badNumber, ds⟩

/-- The parts of a number without sign. -/
def numberParts (atEnd : Cause) (bs : Bytes) : Except Fault (NumberParts × Bytes) :=
  match wholePart atEnd bs with
  | .error f => .error f
  | .ok (whole, bs) =>
    match fractionPart atEnd bs with
    | .error f => .error f
    | .ok (fraction, bs) =>
      match exponentPart atEnd bs with
      | .error f => .error f
      | .ok (exponent, rest) => .ok (⟨whole, fraction, exponent⟩, rest)

theorem dropDigits_length (bs : Bytes) : (bs.dropWhile isDigit).length ≤ bs.length :=
  (List.dropWhile_sublist _).length_le

theorem wholePart_length {atEnd : Cause} {bs ds rest : Bytes}
    (h : wholePart atEnd bs = .ok (ds, rest)) : rest.length < bs.length := by
  unfold wholePart at h
  split at h
  · simp at h
  rename_i b bs
  have := dropDigits_length bs
  split at h
  · simp at h
  split at h
  · split at h
    · obtain ⟨_, rfl⟩ := Prod.mk.inj (Except.ok.inj h); simp
    · split at h
      · simp at h
      · obtain ⟨_, rfl⟩ := Prod.mk.inj (Except.ok.inj h); simp
  · obtain ⟨_, rfl⟩ := Prod.mk.inj (Except.ok.inj h); simp; omega

theorem fractionPart_length {atEnd : Cause} {bs rest : Bytes} {ds : Option Bytes}
    (h : fractionPart atEnd bs = .ok (ds, rest)) : rest.length ≤ bs.length := by
  unfold fractionPart at h
  split at h
  · obtain ⟨_, rfl⟩ := Prod.mk.inj (Except.ok.inj h); simp
  split at h
  · obtain ⟨_, rfl⟩ := Prod.mk.inj (Except.ok.inj h); simp
  split at h
  · simp at h
  rename_i d ds
  have := dropDigits_length ds
  split at h
  · obtain ⟨_, rfl⟩ := Prod.mk.inj (Except.ok.inj h); simp; omega
  · simp at h

theorem signPart_length (bs : Bytes) : (signPart bs).2.length ≤ bs.length := by
  unfold signPart
  split
  · simp
  split
  · simp
  split <;> simp

theorem exponentPart_length {atEnd : Cause} {bs rest : Bytes} {e : Option (Bool × Bytes)}
    (h : exponentPart atEnd bs = .ok (e, rest)) : rest.length ≤ bs.length := by
  unfold exponentPart at h
  split at h
  · obtain ⟨_, rfl⟩ := Prod.mk.inj (Except.ok.inj h); simp
  rename_i b bs
  split at h
  · obtain ⟨_, rfl⟩ := Prod.mk.inj (Except.ok.inj h); simp
  split at h
  · simp at h
  rename_i d ds hs
  have := signPart_length bs
  have := dropDigits_length ds
  split at h
  · obtain ⟨_, rfl⟩ := Prod.mk.inj (Except.ok.inj h)
    simp_all; omega
  · simp at h

theorem numberParts_length {atEnd : Cause} {bs rest : Bytes} {n : NumberParts}
    (h : numberParts atEnd bs = .ok (n, rest)) : rest.length < bs.length := by
  unfold numberParts at h
  split at h
  · simp at h
  rename_i hw
  split at h
  · simp at h
  rename_i hf
  split at h
  · simp at h
  rename_i he
  obtain ⟨_, rfl⟩ := Prod.mk.inj (Except.ok.inj h)
  have := wholePart_length hw
  have := fractionPart_length hf
  have := exponentPart_length he
  omega

/-! ## Values -/

/-- Adds digits to a significand as long as 64 bits hold it, and counts the digits from the first
one that does not fit. -/
def significand (n : Nat) : Bytes → Nat × Nat
  | [] => (n, 0)
  | d :: ds =>
    if n * 10 + digitValue d < Nat.pow 2 64 then significand (n * 10 + digitValue d) ds
    else (n, ds.length + 1)

/-- The exponent that digits spell, or the digits after the one that takes it past 31 bits. -/
def exponentValue (n : Nat) : Bytes → Nat ⊕ Bytes
  | [] => .inl n
  | d :: ds =>
    if n * 10 + digitValue d < Nat.pow 2 31 then exponentValue (n * 10 + digitValue d) ds else .inr ds

/-- A binary64 number from a significand and an exponent. -/
def scaledNumber (negative : Bool) (n : Nat) (exponent : Int) (rest : Bytes) :
    Except Fault (Found × Bytes) :=
  match Binary64.scaled? n exponent with
  | some m => .ok (.float (.ofMagnitude negative m), rest)
  | none => .error ⟨.numberTooLarge, rest⟩

/-- The value of a number, whose parts `rest` follows. -/
def NumberParts.value (p : NumberParts) (negative : Bool) (rest : Bytes) :
    Except Fault (Found × Bytes) :=
  let (whole, skipped) := significand 0 p.whole
  let fraction := p.fraction.getD []
  let (n, unused) := significand whole fraction
  let shift : Int := skipped - (fraction.length - unused : Nat)
  match p.exponent with
  | some (below, digits) =>
    match exponentValue 0 digits with
    | .inl e => scaledNumber negative n (if below then shift - e else shift + e) rest
    | .inr left =>
      if n ≠ 0 ∧ !below then .error ⟨.numberTooLarge, left ++ rest⟩
      else .ok (.float (.ofMagnitude negative 0), rest)
  | none =>
    if p.fraction.isSome ∨ skipped ≠ 0 then scaledNumber negative n shift rest
    else if !negative then .ok (.integer n, rest)
    else if n = 0 ∨ Nat.pow 2 63 < n then
      .ok (.float (.ofMagnitude true (Binary64.nearest n 1)), rest)
    else .ok (.integer (-n), rest)

/-- A number, after its sign. -/
def readNumber (negative : Bool) (bs : Bytes) : Except Fault (Found × Bytes) :=
  match numberParts .endInValue bs with
  | .error f => .error f
  | .ok (p, rest) => p.value negative rest

end Json
end Lox

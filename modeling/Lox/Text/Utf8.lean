/-!
# UTF-8

A character is written as one to four bytes. The first byte fixes how many continuation bytes
follow and in which range the first of them lies; the range keeps out overlong forms, surrogates
and numbers past the last character. A reader that meets a byte outside its range leaves that
byte unread, so an ill-formed stretch is never longer than the start of a well-formed character.

`decode` puts U+FFFD in the place of each such stretch, and `decode?` refuses the bytes instead.

Results: writing and then reading gives the text back, for both readers (`decode_encode`,
`decode?_encode`), and where the strict reader answers, the lenient one agrees (`decode_of_decode?`).
-/
namespace Lox

/-- A sequence of bytes, such as the content of a file. -/
abbrev Bytes := List UInt8

namespace Utf8

/-- The byte of an ASCII character. -/
def ascii (c : Char) : UInt8 := UInt8.ofNat c.toNat

/-! ## Writing -/

/-- The bytes of a text. -/
def encode (text : List Char) : Bytes := text.flatMap String.utf8EncodeChar

/-! ## Reading one character -/

/-- What a first byte announces: the bits it holds, the number of bytes that follow it, and the
least and greatest value of the first of these. -/
structure Lead where
  payload : Nat
  owed : Nat
  low : Nat := 0x80
  high : Nat := 0xBF
  deriving DecidableEq, Repr

def lead? (b : UInt8) : Option Lead :=
  let n := b.toNat
  if n < 0x80 then some { payload := n, owed := 0 }
  else if n < 0xC2 then none
  else if n < 0xE0 then some { payload := n - 0xC0, owed := 1 }
  else if n = 0xE0 then some { payload := 0, owed := 2, low := 0xA0 }
  else if n = 0xED then some { payload := 0xD, owed := 2, high := 0x9F }
  else if n < 0xF0 then some { payload := n - 0xE0, owed := 2 }
  else if n = 0xF0 then some { payload := 0, owed := 3, low := 0x90 }
  else if n < 0xF4 then some { payload := n - 0xF0, owed := 3 }
  else if n = 0xF4 then some { payload := 4, owed := 3, high := 0x8F }
  else none

/-- Reads the continuation bytes that are owed, the first of them between `low` and `high`.
Gives the number that all bytes spell, and the bytes left. -/
def continuation : Nat → Nat → Nat → Nat → Bytes → Option Nat × Bytes
  | 0, _, _, number, bs => (some number, bs)
  | _ + 1, _, _, _, [] => (none, [])
  | owed + 1, low, high, number, b :: bs =>
    if low ≤ b.toNat ∧ b.toNat ≤ high then
      continuation owed 0x80 0xBF (number * 64 + (b.toNat - 0x80)) bs
    else (none, b :: bs)

/-- The character that starts with the byte `b`, and the bytes after it; no character where the
bytes are ill-formed. -/
def first (b : UInt8) (bs : Bytes) : Option Char × Bytes :=
  match lead? b with
  | none => (none, bs)
  | some l =>
    let (number, rest) := continuation l.owed l.low l.high l.payload bs
    (number.map Char.ofNat, rest)

theorem continuation_length (owed low high number : Nat) (bs : Bytes) :
    (continuation owed low high number bs).2.length ≤ bs.length := by
  fun_induction continuation owed low high number bs with
  | case1 => exact Nat.le_refl _
  | case2 => exact Nat.le_refl _
  | case3 owed low high number b bs _ ih => exact Nat.le_succ_of_le ih
  | case4 => exact Nat.le_refl _

theorem first_length (b : UInt8) (bs : Bytes) : (first b bs).2.length ≤ bs.length := by
  unfold first
  split
  · exact Nat.le_refl _
  · exact continuation_length ..

/-! ## Reading a text -/

/-- Every ill-formed stretch counts as one U+FFFD. -/
def decode : Bytes → List Char
  | [] => []
  | b :: bs => (first b bs).1.getD '\uFFFD' :: decode (first b bs).2
termination_by bs => bs.length
decreasing_by have := first_length b bs; simp; omega

/-- Nothing for bytes that are ill-formed anywhere. -/
def decode? : Bytes → Option (List Char)
  | [] => some []
  | b :: bs =>
    match (first b bs).1 with
    | none => none
    | some c => (decode? (first b bs).2).map (c :: ·)
termination_by bs => bs.length
decreasing_by have := first_length b bs; simp; omega

@[simp] theorem decode_nil : decode [] = [] := by simp [decode]

@[simp] theorem decode?_nil : decode? [] = some [] := by simp [decode?]

theorem decode_of_decode? {bs : Bytes} {cs : List Char} (h : decode? bs = some cs) :
    decode bs = cs := by
  fun_induction decode? bs generalizing cs with
  | case1 => simp_all
  | case2 => simp at h
  | case3 b bs c hc ih =>
    obtain ⟨ds, hd, rfl⟩ := Option.map_eq_some_iff.1 h
    rw [decode, hc, ih hd]
    rfl

/-! ## Reading what was written -/

theorem encodeChar_ne_nil (c : Char) : String.utf8EncodeChar c ≠ [] := by
  unfold String.utf8EncodeChar
  dsimp only
  split <;> (try split) <;> (try split) <;> simp

/-- The bytes of a character are read as that character, whatever follows. -/
theorem first_encodeChar (c : Char) {b : UInt8} {bs : Bytes} (rest : Bytes)
    (h : String.utf8EncodeChar c = b :: bs) : first b (bs ++ rest) = (some c, rest) := by
  have hc : c.val.toNat < 0xD800 ∨ 0xDFFF < c.val.toNat ∧ c.val.toNat < 0x110000 := c.valid
  have hn : Char.ofNat c.val.toNat = c := Char.ofNat_toNat c
  unfold String.utf8EncodeChar at h
  dsimp only at h
  generalize c.val.toNat = n at h hc hn
  split at h
  · obtain ⟨rfl, rfl⟩ := List.cons.inj h
    have hb : (UInt8.ofNat n).toNat = n := by simp; omega
    have hl : lead? (UInt8.ofNat n) = some { payload := n, owed := 0 } := by
      simp only [lead?, hb]; rw [if_pos (by omega)]
    simp [first, hl, continuation, hn]
  · split at h
    · obtain ⟨rfl, rfl⟩ := List.cons.inj h
      have hb : (UInt8.ofNat (n / 64 % 32 + 192)).toNat = n / 64 + 192 := by simp; omega
      have h1 : (UInt8.ofNat (n % 64 + 128)).toNat = n % 64 + 128 := by simp; omega
      have hl : lead? (UInt8.ofNat (n / 64 % 32 + 192)) = some { payload := n / 64, owed := 1 } := by
        simp only [lead?, hb]
        rw [if_neg (by omega), if_neg (by omega), if_pos (by omega)]
        simp
      have e : n / 64 * 64 + n % 64 = n := by omega
      simp only [first, hl, List.cons_append, List.nil_append, continuation, h1]
      rw [if_pos (by omega)]
      simp [e, hn]
    · split at h
      · obtain ⟨rfl, rfl⟩ := List.cons.inj h
        have hb : (UInt8.ofNat (n / 4096 % 16 + 224)).toNat = n / 4096 + 224 := by simp; omega
        have h1 : (UInt8.ofNat (n / 64 % 64 + 128)).toNat = n / 64 % 64 + 128 := by simp; omega
        have h2 : (UInt8.ofNat (n % 64 + 128)).toNat = n % 64 + 128 := by simp; omega
        have hl : ∃ low high, lead? (UInt8.ofNat (n / 4096 % 16 + 224)) =
            some ⟨n / 4096, 2, low, high⟩ ∧ low ≤ n / 64 % 64 + 128 ∧ n / 64 % 64 + 128 ≤ high := by
          simp only [lead?, hb]
          rw [if_neg (by omega), if_neg (by omega), if_neg (by omega)]
          by_cases e0 : n / 4096 + 224 = 0xE0
          · rw [if_pos e0]; exact ⟨0xA0, 0xBF, by simp; omega, by omega, by omega⟩
          · rw [if_neg e0]
            by_cases ed : n / 4096 + 224 = 0xED
            · rw [if_pos ed]; exact ⟨0x80, 0x9F, by simp; omega, by omega, by omega⟩
            · rw [if_neg ed, if_pos (by omega)]
              exact ⟨0x80, 0xBF, by simp, by omega, by omega⟩
        obtain ⟨low, high, hl, hlow, hhigh⟩ := hl
        have e : (n / 4096 * 64 + n / 64 % 64) * 64 + n % 64 = n := by omega
        simp only [first, hl, List.cons_append, List.nil_append, continuation, h1, h2]
        rw [if_pos ⟨hlow, hhigh⟩, if_pos (by omega)]
        simp [e, hn]
      · obtain ⟨rfl, rfl⟩ := List.cons.inj h
        have hb : (UInt8.ofNat (n / 262144 % 8 + 240)).toNat = n / 262144 + 240 := by simp; omega
        have h1 : (UInt8.ofNat (n / 4096 % 64 + 128)).toNat = n / 4096 % 64 + 128 := by simp; omega
        have h2 : (UInt8.ofNat (n / 64 % 64 + 128)).toNat = n / 64 % 64 + 128 := by simp; omega
        have h3 : (UInt8.ofNat (n % 64 + 128)).toNat = n % 64 + 128 := by simp; omega
        have hl : ∃ low high, lead? (UInt8.ofNat (n / 262144 % 8 + 240)) =
            some ⟨n / 262144, 3, low, high⟩ ∧ low ≤ n / 4096 % 64 + 128 ∧
              n / 4096 % 64 + 128 ≤ high := by
          simp only [lead?, hb]
          rw [if_neg (by omega), if_neg (by omega), if_neg (by omega), if_neg (by omega),
            if_neg (by omega), if_neg (by omega)]
          by_cases f0 : n / 262144 + 240 = 0xF0
          · rw [if_pos f0]; exact ⟨0x90, 0xBF, by simp; omega, by omega, by omega⟩
          · rw [if_neg f0]
            by_cases f4 : n / 262144 + 240 < 0xF4
            · rw [if_pos f4]; exact ⟨0x80, 0xBF, by simp, by omega, by omega⟩
            · rw [if_neg f4, if_pos (by omega)]; exact ⟨0x80, 0x8F, by simp; omega, by omega, by omega⟩
        obtain ⟨low, high, hl, hlow, hhigh⟩ := hl
        have e : ((n / 262144 * 64 + n / 4096 % 64) * 64 + n / 64 % 64) * 64 + n % 64 = n := by omega
        simp only [first, hl, List.cons_append, List.nil_append, continuation, h1, h2, h3]
        rw [if_pos ⟨hlow, hhigh⟩, if_pos (by omega), if_pos (by omega)]
        simp [e, hn]

@[simp] theorem encode_nil : encode [] = [] := rfl

theorem encode_cons (c : Char) (cs : List Char) :
    encode (c :: cs) = String.utf8EncodeChar c ++ encode cs := rfl

theorem decode?_encode_append (cs : List Char) (bs : Bytes) :
    decode? (encode cs ++ bs) = (decode? bs).map (cs ++ ·) := by
  induction cs with
  | nil => simp
  | cons c cs ih =>
    obtain ⟨b, t, h⟩ := List.exists_cons_of_ne_nil (encodeChar_ne_nil c)
    rw [encode_cons, h, List.append_assoc, List.cons_append, decode?]
    have hf := first_encodeChar c (encode cs ++ bs) h
    simp only [hf, ih]
    cases decode? bs <;> rfl

theorem decode?_encode (cs : List Char) : decode? (encode cs) = some cs := by
  simpa using decode?_encode_append cs []

theorem decode_encode (cs : List Char) : decode (encode cs) = cs :=
  decode_of_decode? (decode?_encode cs)

end Utf8

end Lox

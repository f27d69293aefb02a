import Lox.Json.Text
import Lox.Proofs.Ascii

/-!
# Strings are read back

A character of a string may be written in several ways: as itself, by a letter after a backslash, by
its number, or by a pair of numbers. The reader goes byte by byte. For every character it takes
exactly the bytes that spell it, and gives back the bytes of the character; so it comes to the
closing quote with the whole text. What the writer puts is one of the spellings.

Results:
* `stringBytes_spelling`: one character, however it is spelled.
* `string_spells`: the text that a string spells, whatever follows it; `Quoted.unique`: no other.
* `quoted_quote`, `string_quoted`: the text that the writer put.
* `skipBlanks_append`: blanks before a text make no difference.
-/
namespace Lox
namespace Json

open Utf8 (ascii encode)

/-! ## Spellings -/

/-- A hexadecimal digit, small or capital, and its value. -/
def HexDigit (c : Char) (n : Nat) : Prop :=
  n < 16 ∧ (c = Nat.digitChar n ∨ c = (Nat.digitChar n).toUpper)

instance (c : Char) (n : Nat) : Decidable (HexDigit c n) :=
  inferInstanceAs (Decidable (n < 16 ∧ (c = Nat.digitChar n ∨ c = (Nat.digitChar n).toUpper)))

/-- Four hexadecimal digits, and the number that they spell. -/
inductive HexUnit : List Char → Nat → Prop
  | digits {a b c d : Char} {i j k l : Nat} (ha : HexDigit a i) (hb : HexDigit b j)
      (hc : HexDigit c k) (hd : HexDigit d l) :
      HexUnit [a, b, c, d] (((i * 16 + j) * 16 + k) * 16 + l)

/-- The letters that may follow a backslash, and what they stand for. -/
def shortEscapes : List (Char × Char) :=
  [('"', '"'), ('\\', '\\'), ('/', '/'), ('b', '\x08'), ('f', '\x0c'), ('n', '\n'), ('r', '\r'),
    ('t', '\t')]

/-- The ways to write a character in a string. -/
inductive Spelling (c : Char) : List Char → Prop
  | plain (hquote : c ≠ '"') (hslash : c ≠ '\\') (hcontrol : 0x20 ≤ c.toNat) : Spelling c [c]
  | short {letter : Char} (h : (letter, c) ∈ shortEscapes) : Spelling c ['\\', letter]
  | unit {digits : List Char} (h : HexUnit digits c.toNat) : Spelling c ('\\' :: 'u' :: digits)
  | pair {high low : List Char} (hc : 0x10000 ≤ c.toNat)
      (hhigh : HexUnit high (0xD800 + (c.toNat - 0x10000) / 0x400))
      (hlow : HexUnit low (0xDC00 + (c.toNat - 0x10000) % 0x400)) :
      Spelling c ('\\' :: 'u' :: (high ++ '\\' :: 'u' :: low))

/-- The ways to write a text between quotes. -/
inductive Spells : List Char → List Char → Prop
  | nil : Spells [] []
  | cons {c : Char} {s part body : List Char} (hc : Spelling c part) (hs : Spells s body) :
      Spells (c :: s) (part ++ body)

/-- A string that stands for the text `s`. -/
def Quoted (s written : List Char) : Prop := ∃ body, Spells s body ∧ written = '"' :: (body ++ ['"'])

/-! ## One byte, one escape -/

theorem before_before (s t : Bytes) (r : Except Fault (Bytes × Bytes)) :
    before s (before t r) = before (s ++ t) r := by
  cases r with
  | error f => rfl
  | ok p => exact congrArg (fun u => Except.ok (u, p.2)) (List.append_assoc s t p.1).symm

theorem stringBytes_plain {b : UInt8} (hquote : b ≠ ascii '"') (hslash : b ≠ ascii '\\')
    (hcontrol : 0x20 ≤ b.toNat) (bs : Bytes) :
    stringBytes (b :: bs) = before [b] (stringBytes bs) := by
  rw [stringBytes, if_neg hquote, if_neg hslash, if_neg (Nat.not_lt.2 hcontrol)]

theorem stringBytes_escaped {bs rest : Bytes} {c : Char} (h : escaped bs = .ok (c, rest)) :
    stringBytes (ascii '\\' :: bs) = before (String.utf8EncodeChar c) (stringBytes rest) := by
  rw [stringBytes, if_neg (by decide), if_pos rfl]
  split
  · rename_i f hf
    rw [h] at hf
    cases hf
  · rename_i d left hd
    rw [h] at hd
    cases hd
    rfl

/-- Bytes outside ASCII stand for themselves. -/
theorem stringBytes_high {bs : Bytes} (h : ∀ b ∈ bs, 0x80 ≤ b.toNat) (rest : Bytes) :
    stringBytes (bs ++ rest) = before bs (stringBytes rest) := by
  induction bs with
  | nil =>
    cases hr : stringBytes rest with
    | error f => exact hr
    | ok p => exact hr
  | cons b bs ih =>
    obtain ⟨hb, hbs⟩ := List.forall_mem_cons.1 h
    have hquote : b ≠ ascii '"' := by rintro rfl; revert hb; decide
    have hslash : b ≠ ascii '\\' := by rintro rfl; revert hb; decide
    rw [List.cons_append, stringBytes_plain hquote hslash (by omega), ih hbs, before_before]
    rfl

/-! ## Escapes -/

/-- The bytes of a backslash and of an ASCII letter after it. -/
theorem encode_escape {letter : Char} (h : letter.toNat < 0x80) (more : List Char) (rest : Bytes) :
    encode ('\\' :: letter :: more) ++ rest =
      ascii '\\' :: ascii letter :: (encode more ++ rest) := by
  rw [Utf8.encode_cons, Utf8.encode_cons, Utf8.encodeChar_ascii (by decide),
    Utf8.encodeChar_ascii h]
  rfl

theorem HexDigit.value {c : Char} {n : Nat} (h : HexDigit c n) :
    c.toNat < 0x80 ∧ hexValue? (ascii c) = some n := by
  have hall : ∀ k < 16, (Nat.digitChar k).toNat < 0x80 ∧ (Nat.digitChar k).toUpper.toNat < 0x80 ∧
      hexValue? (ascii (Nat.digitChar k)) = some k ∧
      hexValue? (ascii (Nat.digitChar k).toUpper) = some k := by decide
  obtain ⟨hn, rfl | rfl⟩ := h
  · exact ⟨(hall n hn).1, (hall n hn).2.2.1⟩
  · exact ⟨(hall n hn).2.1, (hall n hn).2.2.2⟩

theorem hexUnit_digits {digits : List Char} {n : Nat} (h : HexUnit digits n) (rest : Bytes) :
    hexUnit (encode digits ++ rest) = .ok (n, rest) := by
  obtain ⟨ha, hb, hc, hd⟩ := h
  obtain ⟨ha', ha⟩ := ha.value
  obtain ⟨hb', hb⟩ := hb.value
  obtain ⟨hc', hc⟩ := hc.value
  obtain ⟨hd', hd⟩ := hd.value
  rw [Utf8.encode_of_ascii (by simp [ha', hb', hc', hd'])]
  simp [hexUnit, ha, hb, hc, hd]

theorem shortEscape_of_mem {letter c : Char} (h : (letter, c) ∈ shortEscapes) :
    letter.toNat < 0x80 ∧ ascii letter ≠ ascii 'u' ∧ shortEscape? (ascii letter) = some c := by
  have hall : ∀ e ∈ shortEscapes,
      e.1.toNat < 0x80 ∧ ascii e.1 ≠ ascii 'u' ∧ shortEscape? (ascii e.1) = some e.2 := by decide
  exact hall _ h

theorem escaped_unit {c : Char} {digits : List Char} (h : HexUnit digits c.toNat) (rest : Bytes) :
    escaped (ascii 'u' :: (encode digits ++ rest)) = .ok (c, rest) := by
  -- A character is no surrogate.
  have hvalid : c.toNat < 0xD800 ∨ 0xDFFF < c.toNat ∧ c.toNat < 0x110000 := c.valid
  rw [escaped, if_pos rfl, unicodeEscape, hexUnit_digits h]
  dsimp only
  rw [if_pos (by omega), Char.ofNat_toNat]

theorem escaped_pair {c : Char} {high low : List Char} (hc : 0x10000 ≤ c.toNat)
    (hhigh : HexUnit high (0xD800 + (c.toNat - 0x10000) / 0x400))
    (hlow : HexUnit low (0xDC00 + (c.toNat - 0x10000) % 0x400)) (rest : Bytes) :
    escaped (ascii 'u' :: (encode high ++ ascii '\\' :: ascii 'u' :: (encode low ++ rest))) =
      .ok (c, rest) := by
  have hvalid : c.toNat < 0xD800 ∨ 0xDFFF < c.toNat ∧ c.toNat < 0x110000 := c.valid
  have hnumber : 0x10000 + (0xD800 + (c.toNat - 0x10000) / 0x400 - 0xD800) * 0x400 +
      (0xDC00 + (c.toNat - 0x10000) % 0x400 - 0xDC00) = c.toNat := by omega
  rw [escaped, if_pos rfl, unicodeEscape, hexUnit_digits hhigh]
  dsimp only
  rw [if_neg (by omega), if_neg (by omega)]
  simp only [lowSurrogate, ne_eq, not_true_eq_false, if_false, hexUnit_digits hlow]
  rw [if_pos (by omega), hnumber, Char.ofNat_toNat]

/-! ## One character -/

/-- A character that stands for itself. -/
theorem stringBytes_self {c : Char} (hquote : c ≠ '"') (hslash : c ≠ '\\')
    (hcontrol : 0x20 ≤ c.toNat) (rest : Bytes) :
    stringBytes (encode [c] ++ rest) = before (String.utf8EncodeChar c) (stringBytes rest) := by
  have hencode : encode [c] = String.utf8EncodeChar c := List.append_nil _
  rw [hencode]
  by_cases hascii : c.toNat < 0x80
  · have hbyte := Utf8.toNat_ascii hascii
    rw [Utf8.encodeChar_ascii hascii]
    refine stringBytes_plain ?_ ?_ (by omega) rest
    · exact fun he => hquote (Utf8.ascii_injective hascii (by decide) he)
    · exact fun he => hslash (Utf8.ascii_injective hascii (by decide) he)
  · exact stringBytes_high (Utf8.high_of_mem_encodeChar (Nat.not_lt.1 hascii)) rest

/-- **One character**: the reader takes what spells it. -/
theorem stringBytes_spelling {c : Char} {part : List Char} (h : Spelling c part) (rest : Bytes) :
    stringBytes (encode part ++ rest) = before (String.utf8EncodeChar c) (stringBytes rest) := by
  cases h with
  | plain hquote hslash hcontrol => exact stringBytes_self hquote hslash hcontrol rest
  | short h =>
    obtain ⟨hascii, hunit, hshort⟩ := shortEscape_of_mem h
    rw [encode_escape hascii]
    apply stringBytes_escaped
    simp [escaped, hunit, hshort]
  | unit h =>
    rw [encode_escape (by decide)]
    exact stringBytes_escaped (escaped_unit h rest)
  | pair hc hhigh hlow =>
    rw [encode_escape (by decide), Utf8.encode_append, List.append_assoc,
      encode_escape (by decide)]
    exact stringBytes_escaped (escaped_pair hc hhigh hlow rest)

/-! ## Strings -/

theorem stringBytes_spells {s body : List Char} (h : Spells s body) (rest : Bytes) :
    stringBytes (encode body ++ ascii '"' :: rest) = .ok (encode s, rest) := by
  induction h with
  | nil => rw [Utf8.encode_nil, List.nil_append, stringBytes, if_pos rfl]
  | cons hc hs ih =>
    rw [Utf8.encode_append, List.append_assoc, stringBytes_spelling hc, ih, Utf8.encode_cons]
    rfl

/-- **A string** is read as the text that it spells, from after its opening quote on. -/
theorem string_spells {s body : List Char} (h : Spells s body) (rest : Bytes) :
    string (encode body ++ ascii '"' :: rest) = .ok (s, rest) := by
  rw [string, stringBytes_spells h]
  simp only [Utf8.decode_encode]

theorem Quoted.bytes {s written : List Char} (h : Quoted s written) (rest : Bytes) :
    ∃ inside, encode written ++ rest = ascii '"' :: inside ∧ string inside = .ok (s, rest) := by
  obtain ⟨body, hbody, rfl⟩ := h
  refine ⟨encode body ++ ascii '"' :: rest, ?_, string_spells hbody rest⟩
  rw [Utf8.encode_cons, Utf8.encode_append, Utf8.encodeChar_ascii (by decide), List.append_assoc,
    List.append_assoc]
  rfl

theorem Quoted.unique {s s' written : List Char} (h : Quoted s written) (h' : Quoted s' written) :
    s = s' := by
  obtain ⟨inside, hbytes, hread⟩ := h.bytes []
  obtain ⟨inside', hbytes', hread'⟩ := h'.bytes []
  rw [hbytes] at hbytes'
  obtain rfl := (List.cons.inj hbytes').2
  rw [hread] at hread'
  exact (Prod.mk.inj (Except.ok.inj hread')).1

/-! ## What the writer puts -/

theorem hexDigit_hexDigit (n : Nat) : HexDigit (hexDigit n) (n % 16) :=
  ⟨Nat.mod_lt n (by decide), .inl rfl⟩

theorem spelling_escape (c : Char) : Spelling c (escape c) := by
  unfold escape
  split
  · subst_vars; exact .short (by decide)
  split
  · subst_vars; exact .short (by decide)
  split
  · subst_vars; exact .short (by decide)
  split
  · subst_vars; exact .short (by decide)
  split
  · subst_vars; exact .short (by decide)
  split
  · subst_vars; exact .short (by decide)
  split
  · subst_vars; exact .short (by decide)
  split
  · rename_i hcontrol
    have hunit := HexUnit.digits (hexDigit_hexDigit 0) (hexDigit_hexDigit 0)
      (hexDigit_hexDigit (c.toNat / 16)) (hexDigit_hexDigit c.toNat)
    have hnumber : ((0 % 16 * 16 + 0 % 16) * 16 + c.toNat / 16 % 16) * 16 + c.toNat % 16 =
        c.toNat := by omega
    rw [hnumber] at hunit
    exact .unit hunit
  · rename_i hquote hslash _ _ _ _ _ hcontrol
    exact .plain hquote hslash (Nat.not_lt.1 hcontrol)

theorem spells_escape (text : List Char) : Spells text (text.flatMap escape) := by
  induction text with
  | nil => exact .nil
  | cons c cs ih => exact .cons (spelling_escape c) ih

theorem quoted_quote (text : List Char) : Quoted text (quote text) :=
  ⟨_, spells_escape text, rfl⟩

/-- **Quoted text**, from after its opening quote on. -/
theorem string_quoted (text : List Char) (rest : Bytes) :
    string (encode (text.flatMap escape) ++ ascii '"' :: rest) = .ok (text, rest) :=
  string_spells (spells_escape text) rest

/-! ## Blanks -/

theorem skipBlanks_append {bs : Bytes} (h : ∀ b ∈ bs, isBlank b = true) (rest : Bytes) :
    skipBlanks (bs ++ rest) = skipBlanks rest :=
  List.dropWhile_append_of_pos h

theorem skipBlanks_cons {b : UInt8} (h : isBlank b = false) (rest : Bytes) :
    skipBlanks (b :: rest) = b :: rest := by
  rw [skipBlanks, List.dropWhile_cons, h]
  rfl

end Json
end Lox

import Lox.Proofs.Ascii

/-!
# How bytes are read

The lenient reader takes bytes in stretches, one after the other, and puts down one character for
each. A stretch is the bytes of that character, or it is ill-formed: no character starts there, and
it goes on for as long as a character could still become of it.

Results:
* `first_exact`: a character is read from its own bytes and no others, so `decode?_iff`: the strict
  reader takes exactly the bytes that some text is written as.
* `flatMap_stretches`, `decode_eq`: the stretches are all the bytes, and give one character each.
* `stretches_cases`: a stretch that gives no character of its own is ill-formed, and as long as it
  can be.
* `count_decode`: every ASCII character is read as often as its byte is there.
-/
namespace Lox
namespace Utf8

/-! ## The forms of a character -/

/-- What the first bytes of the four forms announce. -/
theorem lead?_cases {b : UInt8} {l : Lead} (h : lead? b = some l) :
    (l.owed = 0 ∧ b.toNat = l.payload ∧ l.payload < 0x80) ∨
    (0x80 ≤ l.low ∧ l.low ≤ l.high ∧ l.high ≤ 0xBF ∧ 0x80 ≤ b.toNat ∧
      ((l.owed = 1 ∧ b.toNat = 0xC0 + l.payload ∧ 2 ≤ l.payload ∧ l.payload < 0x20) ∨
      (l.owed = 2 ∧ b.toNat = 0xE0 + l.payload ∧ l.payload < 0x10 ∧
        (l.payload = 0 → 0xA0 ≤ l.low) ∧ (l.payload = 0xD → l.high ≤ 0x9F)) ∨
      (l.owed = 3 ∧ b.toNat = 0xF0 + l.payload ∧ l.payload < 5 ∧
        (l.payload = 0 → 0x90 ≤ l.low) ∧ (l.payload = 4 → l.high ≤ 0x8F)))) := by
  unfold lead? at h
  generalize hn : b.toNat = n at h ⊢
  dsimp only at h
  repeat' split at h
  all_goals simp only [Option.some.injEq, reduceCtorEq] at h
  all_goals subst h
  all_goals simp
  all_goals omega

theorem lead?_low {b : UInt8} (h : b.toNat < 0x80) :
    lead? b = some { payload := b.toNat, owed := 0 } := by
  simp [lead?, h]

theorem toNat_ofNat {n : Nat} (h : n < 0xD800 ∨ 0xDFFF < n ∧ n < 0x110000) :
    (Char.ofNat n).val.toNat = n := by
  have hv : n.isValidChar := h
  rw [Char.ofNat, dif_pos hv]
  rfl

theorem encodeChar_one {n : Nat} (h : n < 0x80) :
    String.utf8EncodeChar (Char.ofNat n) = [UInt8.ofNat n] := by
  unfold String.utf8EncodeChar
  simp only [toNat_ofNat (n := n) (by omega)]
  rw [if_pos (by omega)]

theorem encodeChar_two {n : Nat} (h : 0x80 ≤ n) (h' : n < 0x800) :
    String.utf8EncodeChar (Char.ofNat n) =
      [UInt8.ofNat (n / 64 + 0xC0), UInt8.ofNat (n % 64 + 0x80)] := by
  unfold String.utf8EncodeChar
  simp only [toNat_ofNat (n := n) (by omega)]
  rw [if_neg (by omega), if_pos (by omega), show n / 64 % 32 = n / 64 by omega]

theorem encodeChar_three {n : Nat} (h : 0x800 ≤ n) (h' : n < 0xD800 ∨ 0xDFFF < n ∧ n < 0x10000) :
    String.utf8EncodeChar (Char.ofNat n) =
      [UInt8.ofNat (n / 4096 + 0xE0), UInt8.ofNat (n / 64 % 64 + 0x80),
        UInt8.ofNat (n % 64 + 0x80)] := by
  unfold String.utf8EncodeChar
  simp only [toNat_ofNat (n := n) (by omega)]
  rw [if_neg (by omega), if_neg (by omega), if_pos (by omega),
    show n / 4096 % 16 = n / 4096 by omega]

theorem encodeChar_four {n : Nat} (h : 0x10000 ≤ n) (h' : n < 0x110000) :
    String.utf8EncodeChar (Char.ofNat n) =
      [UInt8.ofNat (n / 262144 + 0xF0), UInt8.ofNat (n / 4096 % 64 + 0x80),
        UInt8.ofNat (n / 64 % 64 + 0x80), UInt8.ofNat (n % 64 + 0x80)] := by
  unfold String.utf8EncodeChar
  simp only [toNat_ofNat (n := n) (by omega)]
  rw [if_neg (by omega), if_neg (by omega), if_neg (by omega),
    show n / 262144 % 8 = n / 262144 by omega]

/-! ## Continuation bytes -/

section
variable {owed low high number n : Nat} {bs rest : Bytes}

theorem continuation_zero (h : continuation 0 low high number bs = (some n, rest)) :
    number = n ∧ bs = rest := by
  simpa [continuation] using h

theorem continuation_succ (h : continuation (owed + 1) low high number bs = (some n, rest)) :
    ∃ t ts, bs = t :: ts ∧ low ≤ t.toNat ∧ t.toNat ≤ high ∧
      continuation owed 0x80 0xBF (number * 64 + (t.toNat - 0x80)) ts = (some n, rest) := by
  cases bs with
  | nil => cases h
  | cons t ts =>
    rw [continuation] at h
    split at h
    · rename_i ht
      exact ⟨t, ts, rfl, ht.1, ht.2, h⟩
    · cases h

/-- What is taken are continuation bytes. -/
theorem continuation_taken (owed number : Nat) (hlow : 0x80 ≤ low) (bs : Bytes) :
    ∃ ts, ts ++ (continuation owed low high number bs).2 = bs ∧ ∀ t ∈ ts, 0x80 ≤ t.toNat := by
  fun_induction continuation owed low high number bs with
  | case1 => exact ⟨[], rfl, by simp⟩
  | case2 => exact ⟨[], rfl, by simp⟩
  | case3 owed low high number b bs hb ih =>
    obtain ⟨ts, he, hts⟩ := ih (Nat.le_refl _)
    refine ⟨b :: ts, by rw [List.cons_append, he], ?_⟩
    simp only [List.forall_mem_cons]
    exact ⟨by omega, hts⟩
  | case4 => exact ⟨[], rfl, by simp⟩

/-- Where a byte is left because it is out of its range, it does not matter what is behind it. -/
theorem continuation_stop {ts : Bytes} {d : UInt8} (us : Bytes)
    (h : continuation owed low high number (ts ++ d :: rest) = (none, d :: rest)) :
    (continuation owed low high number (ts ++ d :: us)).1 = none := by
  induction ts generalizing owed low high number with
  | nil =>
    cases owed with
    | zero => cases h
    | succ owed =>
      simp only [List.nil_append, continuation] at h ⊢
      split at h
      · have hlen := continuation_length owed 0x80 0xBF (number * 64 + (d.toNat - 0x80)) rest
        rw [h] at hlen
        simp only [List.length_cons] at hlen
        omega
      · rename_i hd
        rw [if_neg hd]
  | cons t ts ih =>
    cases owed with
    | zero => cases h
    | succ owed =>
      simp only [List.cons_append, continuation] at h ⊢
      split at h
      · rename_i ht
        rw [if_pos ht]
        exact ih h
      · have hlen := congrArg (List.length ∘ Prod.snd) h
        simp at hlen
        omega

theorem continuation_fill (owed number : Nat) (hlow : low ≤ high) (hhigh : high ≤ 0xBF) :
    ∃ us n, continuation owed low high number us = (some n, []) := by
  induction owed generalizing low high number with
  | zero => exact ⟨[], number, rfl⟩
  | succ owed ih =>
    have hb : (UInt8.ofNat low).toNat = low := by simp; omega
    obtain ⟨us, n, h⟩ := @ih 0x80 0xBF (number * 64 + (low - 0x80)) (by omega) (Nat.le_refl _)
    exact ⟨UInt8.ofNat low :: us, n, by rw [continuation, hb, if_pos ⟨Nat.le_refl _, hlow⟩, h]⟩

/-- What was taken before could have been gone on with. -/
theorem continuation_complete {ts : Bytes} (hlow : low ≤ high) (hhigh : high ≤ 0xBF)
    (h : continuation owed low high number (ts ++ rest) = (none, rest)) :
    ∃ us n, continuation owed low high number (ts ++ us) = (some n, []) := by
  induction ts generalizing owed low high number with
  | nil => exact continuation_fill owed number hlow hhigh
  | cons t ts ih =>
    cases owed with
    | zero => cases h
    | succ owed =>
      simp only [List.cons_append, continuation] at h ⊢
      split at h
      · rename_i ht
        obtain ⟨us, n, hus⟩ := ih (by omega) (Nat.le_refl _) h
        exact ⟨us, n, by rw [if_pos ht, hus]⟩
      · have hlen := congrArg (List.length ∘ Prod.snd) h
        simp at hlen
        omega

end

/-! ## Exactness -/

theorem eq_ofNat {b : UInt8} {n : Nat} (h : b.toNat = n) : UInt8.ofNat n = b := by
  rw [← h, UInt8.ofNat_toNat]

/-- **A character is read from its own bytes** and no others. -/
theorem first_exact {b : UInt8} {bs rest : Bytes} {c : Char} (h : first b bs = (some c, rest)) :
    b :: bs = String.utf8EncodeChar c ++ rest := by
  unfold first at h
  split at h
  · cases h
  rename_i l hl
  cases hc : continuation l.owed l.low l.high l.payload bs with
  | mk number left =>
    cases number with
    | none => simp [hc] at h
    | some n =>
      simp only [hc, Option.map_some, Prod.mk.injEq, Option.some.injEq] at h
      obtain ⟨rfl, rfl⟩ := h
      rcases lead?_cases hl with ⟨ho, hb, hp⟩ | 
        ⟨hlow, -, hhigh, -, ⟨ho, hb, hp⟩ | ⟨ho, hb, hp⟩ | ⟨ho, hb, hp⟩⟩ <;> rw [ho] at hc
      · obtain ⟨hn, rfl⟩ := continuation_zero hc
        rw [encodeChar_one (by omega), eq_ofNat (b := b) (by omega)]
        rfl
      · obtain ⟨t, ts, rfl, ht, ht', hc⟩ := continuation_succ hc
        obtain ⟨hn, rfl⟩ := continuation_zero hc
        rw [encodeChar_two (by omega) (by omega), eq_ofNat (b := b) (by omega),
          eq_ofNat (b := t) (by omega)]
        rfl
      · obtain ⟨t, ts, rfl, ht, ht', hc⟩ := continuation_succ hc
        obtain ⟨u, us, rfl, hu, hu', hc⟩ := continuation_succ hc
        obtain ⟨hn, rfl⟩ := continuation_zero hc
        rw [encodeChar_three (by omega) (by omega), eq_ofNat (b := b) (by omega),
          eq_ofNat (b := t) (by omega), eq_ofNat (b := u) (by omega)]
        rfl
      · obtain ⟨t, ts, rfl, ht, ht', hc⟩ := continuation_succ hc
        obtain ⟨u, us, rfl, hu, hu', hc⟩ := continuation_succ hc
        obtain ⟨v, vs, rfl, hv, hv', hc⟩ := continuation_succ hc
        obtain ⟨hn, rfl⟩ := continuation_zero hc
        rw [encodeChar_four (by omega) (by omega), eq_ofNat (b := b) (by omega),
          eq_ofNat (b := t) (by omega), eq_ofNat (b := u) (by omega), eq_ofNat (b := v) (by omega)]
        rfl

/-- **What is UTF-8**: the strict reader takes the bytes that a text is written as. -/
theorem decode?_iff {bs : Bytes} {cs : List Char} : decode? bs = some cs ↔ bs = encode cs := by
  constructor
  · intro h
    fun_induction decode? bs generalizing cs with
    | case1 => cases h; rfl
    | case2 => cases h
    | case3 b bs c hc ih =>
      obtain ⟨ds, hds, rfl⟩ := Option.map_eq_some_iff.1 h
      have hf : first b bs = (some c, (first b bs).2) := by rw [← hc]
      rw [encode_cons, ← ih hds, ← first_exact hf]
  · rintro rfl
    exact decode?_encode cs

/-! ## Stretches -/

/-- Bytes that are read in one go, and the character that they are if they are one. -/
structure Stretch where
  bytes : Bytes
  char? : Option Char
  deriving DecidableEq, Repr

/-- The character that the lenient reader puts down. -/
def Stretch.read (s : Stretch) : Char := s.char?.getD '\uFFFD'

def stretch (b : UInt8) (bs : Bytes) : Stretch :=
  ⟨b :: bs.take (bs.length - (first b bs).2.length), (first b bs).1⟩

/-- What the lenient reader takes, one stretch after the other. -/
def stretches : Bytes → List Stretch
  | [] => []
  | b :: bs => stretch b bs :: stretches (first b bs).2
termination_by bs => bs.length
decreasing_by have := first_length b bs; simp; omega

/-- A byte of ASCII is always read for itself. -/
theorem first_none {b : UInt8} {bs : Bytes} (h : (first b bs).1 = none) : 0x80 ≤ b.toNat := by
  apply Nat.le_of_not_lt
  intro hb
  simp [first, lead?_low hb, continuation] at h

/-- Behind its first byte a stretch has continuation bytes only. -/
theorem first_taken (b : UInt8) (bs : Bytes) :
    ∃ ts, ts ++ (first b bs).2 = bs ∧ ∀ t ∈ ts, 0x80 ≤ t.toNat := by
  unfold first
  split
  · exact ⟨[], rfl, by simp⟩
  · rename_i l hl
    rcases lead?_cases hl with ⟨ho, -⟩ | ⟨hlow, -⟩
    · rw [ho]
      exact ⟨[], rfl, by simp⟩
    · exact continuation_taken l.owed l.payload hlow bs

theorem stretch_bytes {b : UInt8} {bs ts : Bytes} (h : ts ++ (first b bs).2 = bs) :
    (stretch b bs).bytes = b :: ts := by
  have hlen : bs.length - (first b bs).2.length = ts.length := by
    have := congrArg List.length h
    simp only [List.length_append] at this
    omega
  unfold stretch
  rw [hlen, ← List.prefix_iff_eq_take.1 ⟨_, h⟩]

theorem stretch_append (b : UInt8) (bs : Bytes) :
    (stretch b bs).bytes ++ (first b bs).2 = b :: bs := by
  obtain ⟨ts, hts, -⟩ := first_taken b bs
  rw [stretch_bytes hts, List.cons_append, hts]

theorem stretch_char {b : UInt8} {bs : Bytes} {c : Char} (h : (first b bs).1 = some c) :
    (stretch b bs).bytes = String.utf8EncodeChar c := by
  have hexact := first_exact (Prod.ext h rfl : first b bs = (some c, (first b bs).2))
  rw [← stretch_append] at hexact
  exact List.append_cancel_right hexact

/-- **Nothing is left out.** -/
theorem flatMap_stretches (bs : Bytes) : (stretches bs).flatMap Stretch.bytes = bs := by
  fun_induction stretches bs with
  | case1 => rfl
  | case2 b bs ih => rw [List.flatMap_cons, ih, stretch_append]

theorem decode_eq (bs : Bytes) : decode bs = (stretches bs).map Stretch.read := by
  fun_induction stretches bs with
  | case1 => simp
  | case2 b bs ih =>
    rw [decode, List.map_cons, ← ih]
    rfl

/-! ## Ill-formed stretches -/

/-- The bytes of some character start with these. -/
def Begins (bs : Bytes) : Prop := ∃ c, bs <+: String.utf8EncodeChar c

/-- Bytes before the rest of an input that are ill-formed: no character starts there, there is one
byte or a character could have become of them, and one byte more would rule that out. -/
structure IllFormed (bad rest : Bytes) : Prop where
  noChar : ∀ c, ¬ String.utf8EncodeChar c <+: bad ++ rest
  short : bad.length = 1 ∨ Begins bad
  long : ∀ b ∈ rest.head?, ¬ Begins (bad ++ [b])

theorem first_of_isPrefix {b : UInt8} {bs : Bytes} {c : Char}
    (h : String.utf8EncodeChar c <+: b :: bs) : (first b bs).1 = some c := by
  obtain ⟨rest, hrest⟩ := h
  obtain ⟨d, ds, hd⟩ := List.exists_cons_of_ne_nil (encodeChar_ne_nil c)
  rw [hd, List.cons_append] at hrest
  obtain ⟨rfl, rfl⟩ := List.cons.inj hrest
  rw [first_encodeChar c rest hd]

/-- Where reading stops before a byte, it stops there whatever follows. -/
theorem first_stop {b d : UInt8} {ts rest : Bytes} (us : Bytes)
    (h : first b (ts ++ d :: rest) = (none, d :: rest)) : (first b (ts ++ d :: us)).1 = none := by
  unfold first at h ⊢
  cases hl : lead? b with
  | none => rfl
  | some l =>
    simp only [hl, Prod.mk.injEq, Option.map_eq_none_iff] at h ⊢
    exact continuation_stop us (Prod.ext h.1 h.2)

/-- What was taken before reading stopped is one byte, or begins a character. -/
theorem first_begins {b : UInt8} {ts rest : Bytes} (h : first b (ts ++ rest) = (none, rest)) :
    (b :: ts).length = 1 ∨ Begins (b :: ts) := by
  unfold first at h
  split at h
  · have hlen := congrArg (List.length ∘ Prod.snd) h
    left
    simpa using hlen
  · rename_i l hl
    simp only [Prod.mk.injEq, Option.map_eq_none_iff] at h
    rcases lead?_cases hl with ⟨ho, -⟩ | ⟨-, hrange, hhigh, -⟩
    · rw [ho] at h
      cases h.1
    · obtain ⟨us, n, hus⟩ := continuation_complete hrange hhigh (Prod.ext h.1 h.2)
      have hfirst : first b (ts ++ us) = (some (Char.ofNat n), []) := by
        unfold first
        rw [hl]
        simp only [hus, Option.map_some]
      right
      refine ⟨Char.ofNat n, us, ?_⟩
      rw [List.cons_append, first_exact hfirst, List.append_nil]

theorem stretch_illFormed {b : UInt8} {bs : Bytes} (h : (first b bs).1 = none) :
    IllFormed (stretch b bs).bytes (first b bs).2 := by
  obtain ⟨ts, hts, -⟩ := first_taken b bs
  have hfirst : first b (ts ++ (first b bs).2) = (none, (first b bs).2) := by
    rw [hts]
    exact Prod.ext h rfl
  rw [stretch_bytes hts]
  refine ⟨?_, first_begins hfirst, ?_⟩
  · intro c hc
    rw [List.cons_append, hts] at hc
    rw [first_of_isPrefix hc] at h
    cases h
  · rintro d hd ⟨c, us, hc⟩
    obtain ⟨rest, hrest⟩ := List.head?_eq_some_iff.1 hd
    rw [hrest] at hfirst
    -- the character would have been read if the byte had been taken
    have hread : (first b (ts ++ d :: us)).1 = some c := by
      apply first_of_isPrefix
      rw [← hc]
      simp
    rw [first_stop us hfirst] at hread
    cases hread

/-- **Every stretch** is the bytes of its character, or ill-formed. -/
theorem stretches_cases {bs : Bytes} {before after : List Stretch} {s : Stretch}
    (h : stretches bs = before ++ s :: after) :
    (∀ c, s.char? = some c → s.bytes = String.utf8EncodeChar c) ∧
      (s.char? = none → IllFormed s.bytes (after.flatMap Stretch.bytes)) := by
  induction before generalizing bs with
  | nil =>
    cases bs with
    | nil => simp [stretches] at h
    | cons b bs =>
      rw [stretches, List.nil_append, List.cons.injEq] at h
      obtain ⟨rfl, rfl⟩ := h
      refine ⟨fun c hc => stretch_char hc, ?_⟩
      intro hnone
      rw [flatMap_stretches]
      exact stretch_illFormed hnone
  | cons r before ih =>
    cases bs with
    | nil => simp [stretches] at h
    | cons b bs =>
      rw [stretches, List.cons_append, List.cons.injEq] at h
      exact ih h.2

/-! ## ASCII characters -/

theorem count_of_high {c : Char} (hc : c.toNat < 0x80) {bs : Bytes} (h : ∀ b ∈ bs, 0x80 ≤ b.toNat) :
    bs.count (ascii c) = 0 := by
  rw [List.count_eq_zero]
  intro hm
  have := h _ hm
  rw [toNat_ascii hc] at this
  omega

/-- A stretch has the byte of an ASCII character exactly if it is read as that character. -/
theorem count_stretch {c : Char} (hc : c.toNat < 0x80) (b : UInt8) (bs : Bytes) :
    (stretch b bs).bytes.count (ascii c) = [(stretch b bs).read].count c := by
  cases hf : (first b bs).1 with
  | none =>
    obtain ⟨ts, hts, hhigh⟩ := first_taken b bs
    have hread : (stretch b bs).read = '\uFFFD' := by simp [Stretch.read, stretch, hf]
    have hne : '\uFFFD' ≠ c := by
      rintro rfl
      exact absurd hc (by decide)
    rw [stretch_bytes hts, hread, count_of_high hc, List.count_singleton, if_neg (by simpa using hne)]
    simp only [List.forall_mem_cons]
    exact ⟨first_none hf, hhigh⟩
  | some d =>
    have hread : (stretch b bs).read = d := by simp [Stretch.read, stretch, hf]
    rw [stretch_char hf, hread]
    by_cases hd : d.toNat < 0x80
    · rw [encodeChar_ascii hd, List.count_singleton, List.count_singleton]
      by_cases he : d = c
      · simp [he]
      · have hne : ascii d ≠ ascii c := fun h => he (ascii_injective hd hc h)
        simp [he, hne]
    · rw [count_of_high hc (high_of_mem_encodeChar (by omega)), List.count_singleton, if_neg]
      intro he
      rw [beq_iff_eq] at he
      exact hd (he ▸ hc)

/-- **ASCII characters are neither lost nor made up.** -/
theorem count_decode {c : Char} (hc : c.toNat < 0x80) (bs : Bytes) :
    (decode bs).count c = bs.count (ascii c) := by
  rw [decode_eq]
  fun_induction stretches bs with
  | case1 => rfl
  | case2 b bs ih =>
    rw [← stretch_append b bs, List.count_append, count_stretch hc, ← ih, List.map_cons,
      ← List.singleton_append, List.count_append]

end Utf8
end Lox

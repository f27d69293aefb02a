import Mathlib.Data.List.DropRight
import Mathlib.Data.List.Forall2
import Lox.Proofs.JsonValue

/-!
# Laid out values are read back

A text is read as a value if the reader takes all of it wherever it stands, as long as a number at
its end is not continued there. What the writers put around items is read back as these items,
whatever blanks they put before each of them and before the closing bracket; so the compact and the
pretty layout come to the same value.

Results:
* `reads_quote`, `reads_numeral`, `reads_null`: plain values.
* `reads_list`, `reads_object`, `reads_member`: brackets around items, and members.
* `read_of_reads`: a whole text.
-/
namespace Lox
namespace Json

open Utf8 (ascii encode)

variable {α : Type}

/-- The reader takes the whole text as `a`. -/
def Reads (r : Reader α) (text : List Char) (a : α) : Prop :=
  ∀ rest, Ends rest → r.read (encode text ++ rest) = .ok (a, rest)

/-! ## Blanks -/

def Blanks (cs : List Char) : Prop := ∀ c ∈ cs, Piece.isBlank c = true

instance (cs : List Char) : Decidable (Blanks cs) :=
  List.decidableBAll (fun c => Piece.isBlank c = true) cs

theorem isBlank_of_mem_encode {cs : List Char} (h : Blanks cs) :
    ∀ b ∈ encode cs, isBlank b = true := by
  intro b hb
  obtain ⟨c, hc, hbyte⟩ := List.mem_flatMap.1 hb
  have hblank := h c hc
  simp only [Piece.isBlank, Bool.or_eq_true, beq_iff_eq, or_assoc] at hblank
  rcases hblank with rfl | rfl | rfl | rfl <;>
    (obtain rfl := List.mem_singleton.1 hbyte; decide)

theorem skipBlanks_blanks {cs : List Char} (h : Blanks cs) : skipBlanks (encode cs) = [] := by
  have hskip := skipBlanks_append (isBlank_of_mem_encode h) []
  rwa [List.append_nil] at hskip

theorem ends_of_isBlank {b : UInt8} (h : isBlank b = true) (bs : Bytes) : Ends (b :: bs) := by
  intro d hd
  obtain rfl := Option.some.inj hd
  simp only [isBlank, Bool.or_eq_true, beq_iff_eq, or_assoc] at h
  rcases h with rfl | rfl | rfl | rfl <;> decide

theorem ends_blanks {cs : List Char} (h : Blanks cs) {rest : Bytes} (hrest : Ends rest) :
    Ends (encode cs ++ rest) := by
  have hall := isBlank_of_mem_encode h
  revert hall
  generalize encode cs = bs
  intro hall
  cases bs with
  | nil => exact hrest
  | cons b bs => exact ends_of_isBlank (hall b List.mem_cons_self) _

theorem skipBlanks_skipBlanks (bs : Bytes) : skipBlanks (skipBlanks bs) = skipBlanks bs := by
  unfold skipBlanks
  exact List.dropWhile_idempotent _ _

namespace Reader

/-- Blanks at the start make no difference. -/
def SkipsBlanks (r : Reader α) : Prop := ∀ bs, r.read (skipBlanks bs) = r.read bs

/-- Nothing is read from the closing bracket. -/
def Refuses (r : Reader α) (o : Bracket) : Prop := ∀ rest x, r.read (o.closing :: rest) ≠ .ok x

theorem member_skipsBlanks (r : Reader Value) : r.member.SkipsBlanks := by
  intro bs
  simp only [member, skipBlanks_skipBlanks]

theorem member_refuses (r : Reader Value) : r.member.Refuses .object := by
  intro rest x h
  cases h

end Reader

theorem reader_skipsBlanks (depth : Nat) : (Value.reader depth).SkipsBlanks := by
  intro bs
  cases depth with
  | zero => rfl
  | succ depth => simp only [Value.reader, Value.around, skipBlanks_skipBlanks]

theorem reader_refuses (depth : Nat) : (Value.reader depth).Refuses .list := by
  intro rest x h
  cases depth with
  | zero => cases h
  | succ depth => cases h

theorem Reads.after_blanks {r : Reader α} (hr : r.SkipsBlanks) {text gap : List Char} {a : α}
    (h : Reads r text a) (hgap : Blanks gap) : Reads r (gap ++ text) a := by
  intro rest hrest
  rw [Utf8.encode_append, List.append_assoc, ← hr,
    skipBlanks_append (isBlank_of_mem_encode hgap), hr]
  exact h rest hrest

/-! ## Items -/

/-- The last item, and then the closing bracket. -/
theorem items_last {r : Reader α} {o : Bracket} {bs left rest : Bytes} {a : α}
    (hread : r.read bs = .ok (a, left)) (hb : skipBlanks left = o.closing :: rest) :
    r.items o bs = .ok ([a], rest) := by
  rw [Reader.items]
  split
  · rename_i f hf
    rw [hread] at hf
    cases hf
  · rename_i a' left' ha
    rw [hread] at ha
    cases ha
    split
    · rename_i hnil
      rw [hb] at hnil
      cases hnil
    · rename_i b' rest' hcons
      rw [hb] at hcons
      cases hcons
      exact if_pos rfl

/-- An item, a comma and more items. -/
theorem items_more {r : Reader α} {o : Bracket} {bs left rest last : Bytes} {a : α} {as : List α}
    (ho : o.closing ≠ ascii ',') (hread : r.read bs = .ok (a, left))
    (hb : skipBlanks left = ascii ',' :: rest) (hmore : r.items o rest = .ok (as, last)) :
    r.items o bs = .ok (a :: as, last) := by
  rw [Reader.items]
  split
  · rename_i f hf
    rw [hread] at hf
    cases hf
  · rename_i a' left' ha
    rw [hread] at ha
    cases ha
    split
    · rename_i hnil
      rw [hb] at hnil
      cases hnil
    · rename_i b' rest' hcons
      rw [hb] at hcons
      cases hcons
      simp only [if_neg (Ne.symm ho), ne_eq, not_true_eq_false, if_false, hmore]

/-- Items are read as the two lemmas before say, and in no other way. -/
theorem items_cases {r : Reader α} {o : Bracket} {bs last : Bytes} {as : List α}
    (h : r.items o bs = .ok (as, last)) :
    ∃ a left, r.read bs = .ok (a, left) ∧
      ((skipBlanks left = o.closing :: last ∧ as = [a]) ∨
        ∃ rest more, skipBlanks left = ascii ',' :: rest ∧ r.items o rest = .ok (more, last) ∧
          as = a :: more) := by
  rw [Reader.items] at h
  split at h
  · cases h
  rename_i a left hread
  refine ⟨a, left, hread, ?_⟩
  split at h
  · cases h
  rename_i b rest hb
  split at h
  · rename_i hclosing
    cases h
    exact .inl ⟨by rw [hb, hclosing], rfl⟩
  split at h
  · cases h
  rename_i hcomma
  split at h
  · cases h
  rename_i more last' hmore
  cases h
  exact .inr ⟨rest, more, by rw [hb, not_not.1 hcomma], hmore, rfl⟩

theorem closing_facts (o : Bracket) :
    isBlank o.closing = false ∧ o.closing ≠ ascii ',' ∧ ∀ rest, Ends (o.closing :: rest) := by
  refine ⟨by cases o <;> decide, by cases o <;> decide, ?_⟩
  intro rest b hb
  obtain rfl := Option.some.inj hb
  cases o <;> decide

theorem ends_comma (rest : Bytes) : Ends (ascii ',' :: rest) := by
  intro b hb
  obtain rfl := Option.some.inj hb
  decide

/-- Items with commas between them, and blanks before the closing bracket. -/
theorem items_reads {r : Reader α} (o : Bracket) {texts : List (List Char)} {as : List α}
    (h : List.Forall₂ (Reads r) texts as) (hne : texts ≠ []) {ending : List Char}
    (hending : Blanks ending) (rest : Bytes) :
    r.items o (encode ([','].intercalate texts) ++ (encode ending ++ o.closing :: rest)) =
      .ok (as, rest) := by
  obtain ⟨hblank, hcomma, hends⟩ := closing_facts o
  induction h with
  | nil => exact absurd rfl hne
  | @cons text a texts as hitem htail ih =>
    cases htail with
    | nil =>
      have hread := hitem _ (ends_blanks hending (hends rest))
      have hskip : skipBlanks (encode ending ++ o.closing :: rest) = o.closing :: rest := by
        rw [skipBlanks_append (isBlank_of_mem_encode hending), skipBlanks_cons hblank]
      rw [List.intercalate_singleton]
      exact items_last hread hskip
    | @cons next b texts bs hnext htail =>
      have hmore := ih (List.cons_ne_nil _ _)
      have hread := hitem _ (ends_comma
        (encode ([','].intercalate (next :: texts)) ++ (encode ending ++ o.closing :: rest)))
      have hcut : encode ([','].intercalate (text :: next :: texts)) ++
          (encode ending ++ o.closing :: rest) =
            encode text ++ ascii ',' :: (encode ([','].intercalate (next :: texts)) ++
              (encode ending ++ o.closing :: rest)) := by
        rw [List.intercalate_cons_cons, Utf8.encode_append, Utf8.encode_append, List.append_assoc,
          List.append_assoc]
        rfl
      rw [hcut]
      exact items_more hcomma hread (skipBlanks_cons (by decide) _) hmore

/-- Behind an opening bracket the same items are read. -/
theorem within_of_items {r : Reader α} (hr : r.SkipsBlanks) {o : Bracket} (ho : r.Refuses o)
    {bs rest : Bytes} {as : List α} (h : r.items o bs = .ok (as, rest)) :
    r.within o bs = .ok (as, rest) := by
  obtain ⟨a, left, hread, hcases⟩ := items_cases h
  rw [← hr bs] at hread
  unfold Reader.within
  cases hskip : skipBlanks bs with
  | nil =>
    rw [hskip] at hread
    exact absurd (r.shorter hread) (Nat.not_lt_zero _)
  | cons b bs' =>
    rw [hskip] at hread
    have hb : b ≠ o.closing := by
      rintro rfl
      exact ho bs' _ hread
    simp only [if_neg hb]
    rcases hcases with ⟨hclosing, rfl⟩ | ⟨rest', more, hcomma, hmore, rfl⟩
    · exact items_last hread hclosing
    · exact items_more (closing_facts o).2.1 hread hcomma hmore

/-! ## Brackets -/

/-- The two brackets, as they are written. -/
def Bracket.marks : Bracket → Char × Char
  | list => ('[', ']')
  | object => ('\x7b', '\x7d')

theorem encode_closing (o : Bracket) (rest : Bytes) :
    encode [o.marks.2] ++ rest = o.closing :: rest := by
  cases o <;> rfl

theorem within_reads {r : Reader α} (hr : r.SkipsBlanks) {o : Bracket} (ho : r.Refuses o)
    {texts : List (List Char)} {as : List α} (h : List.Forall₂ (Reads r) texts as)
    {ending : List Char} (hending : Blanks ending) (rest : Bytes) :
    r.within o (encode ([','].intercalate texts ++ ending ++ [o.marks.2]) ++ rest) =
      .ok (as, rest) := by
  rw [Utf8.encode_append, Utf8.encode_append, List.append_assoc, List.append_assoc, encode_closing]
  by_cases hne : texts = []
  · subst hne
    cases h
    have hskip : skipBlanks (encode ending ++ o.closing :: rest) = o.closing :: rest := by
      rw [skipBlanks_append (isBlank_of_mem_encode hending), skipBlanks_cons (closing_facts o).1]
    rw [List.intercalate_nil, Utf8.encode_nil, List.nil_append, Reader.within]
    simp only [hskip, if_true]
  · exact within_of_items hr ho (items_reads o h hne hending rest)

/-- Items in brackets, with blanks before the closing one. -/
def enclosed (o : Bracket) (texts : List (List Char)) (ending : List Char) : List Char :=
  o.marks.1 :: ([','].intercalate texts ++ ending ++ [o.marks.2])

/-! ## Values -/

/-- How a value is read, from its first byte. -/
theorem reads_of_first {depth : Nat} {c : Char} {cs : List Char} {v : Value} (hc : c.toNat < 0x80)
    (hblank : isBlank (ascii c) = false)
    (h : ∀ rest, Ends rest →
      Value.readFrom (Value.reader depth) (ascii c) (encode cs ++ rest) = .ok (v, rest)) :
    Reads (Value.reader (depth + 1)) (c :: cs) v := by
  intro rest hrest
  rw [Utf8.encode_cons, Utf8.encodeChar_ascii hc, List.append_assoc, List.singleton_append]
  simp only [Value.reader, Value.around, skipBlanks_cons hblank]
  exact h rest hrest

theorem reads_null (depth : Nat) : Reads (Value.reader (depth + 1)) "null".toList .null := by
  refine reads_of_first (by decide) (by decide) ?_
  intro rest _
  rfl

theorem reads_quote (depth : Nat) (s : List Char) :
    Reads (Value.reader (depth + 1)) (quote s) (.text s) := by
  refine reads_of_first (by decide) (by decide) ?_
  intro rest _
  have hstring := string_quoted s rest
  rw [Utf8.encode_append, List.append_assoc]
  change (string (encode (s.flatMap escape) ++ ascii '"' :: rest)).map _ = _
  rw [hstring]
  rfl

theorem reads_list {depth : Nat} {texts : List (List Char)} {vs : List Value}
    (h : List.Forall₂ (Reads (Value.reader depth)) texts vs) {ending : List Char}
    (hending : Blanks ending) :
    Reads (Value.reader (depth + 1)) (enclosed .list texts ending) (.list vs) := by
  refine reads_of_first (by decide) (by decide) ?_
  intro rest _
  have hwithin := within_reads (reader_skipsBlanks depth) (reader_refuses depth) h hending rest
  change ((Value.reader depth).within .list _).map _ = _
  rw [hwithin]
  rfl

theorem reads_object {depth : Nat} {texts : List (List Char)} {ms : List (List Char × Value)}
    (h : List.Forall₂ (Reads (Value.reader depth).member) texts ms) {ending : List Char}
    (hending : Blanks ending) :
    Reads (Value.reader (depth + 1)) (enclosed .object texts ending) (.object ms) := by
  refine reads_of_first (by decide) (by decide) ?_
  intro rest _
  have hwithin := within_reads ((Value.reader depth).member_skipsBlanks)
    ((Value.reader depth).member_refuses) h hending rest
  change ((Value.reader depth).member.within .object _).map _ = _
  rw [hwithin]
  rfl

theorem reads_member {r : Reader Value} {text gap : List Char} {v : Value} (hr : r.SkipsBlanks)
    (h : Reads r text v) (hgap : Blanks gap) (key : List Char) :
    Reads r.member (quote key ++ ':' :: (gap ++ text)) (key, v) := by
  intro rest hrest
  have hvalue := h.after_blanks hr hgap rest hrest
  have hkey := string_quoted key (ascii ':' :: (encode (gap ++ text) ++ rest))
  have hcut : encode (quote key ++ ':' :: (gap ++ text)) ++ rest =
      ascii '"' :: (encode (key.flatMap escape) ++
        ascii '"' :: ascii ':' :: (encode (gap ++ text) ++ rest)) := by
    rw [quote, List.cons_append, List.append_assoc, Utf8.encode_cons, Utf8.encode_append,
      List.append_assoc, List.append_assoc]
    rfl
  have hcolon : colon (ascii ':' :: (encode (gap ++ text) ++ rest)) =
      .ok (encode (gap ++ text) ++ rest) := rfl
  rw [hcut]
  simp only [Reader.member, skipBlanks_cons (show isBlank (ascii '"') = false by decide), ne_eq,
    not_true_eq_false, if_false, hkey, hcolon, hvalue]

theorem readNumber_numeral {n : Numeral} (h : n.WellFormed) (negative plus : Bool) {rest : Bytes}
    (hrest : Ends rest) :
    Value.readNumber negative (encode (n.text plus) ++ rest) =
      .ok (.number negative n.decimal, rest) := by
  rw [Value.readNumber, numberParts_numeral h .endInValue plus hrest]
  simp only [decimal_partsOf h]

theorem reads_numeral (depth : Nat) {n : Numeral} (h : n.WellFormed) (plus : Bool) :
    Reads (Value.reader (depth + 1)) (n.text plus) (.number false n.decimal) := by
  obtain ⟨c, cs, htext, hc⟩ : ∃ c cs, n.text plus = c :: cs ∧ c.isDigit = true := by
    obtain ⟨hne, hdigit⟩ := h.whole
    obtain ⟨c, cs, hwhole⟩ := List.exists_cons_of_ne_nil hne
    have hc : c.isDigit = true := hdigit c (hwhole ▸ List.mem_cons_self)
    rw [Numeral.text, hwhole, List.cons_append, List.cons_append]
    exact ⟨c, _, rfl, hc⟩
  have hnumber : ∀ rest, Ends rest → Value.readNumber false (encode (n.text plus) ++ rest) =
      .ok (.number false n.decimal, rest) := fun _ => readNumber_numeral h false plus
  rw [htext] at hnumber ⊢
  have hrange := digit_range hc
  have hbyte := isDigit_ascii hc
  have hother : ∀ b : UInt8, isDigit b = false → ascii c ≠ b := by
    rintro b hb rfl
    rw [hbyte] at hb
    cases hb
  refine reads_of_first (by omega) ?_ ?_
  · have hblank : ∀ b : UInt8, isBlank b = true → isDigit b = false := by
      intro b hb
      exact (ends_of_isBlank hb [] b rfl).1
    cases hb : isBlank (ascii c) with
    | false => rfl
    | true => exact absurd rfl (hother _ (hblank _ hb))
  · intro rest hrest
    have hread := hnumber rest hrest
    rw [encode_digit hc, List.cons_append] at hread
    rw [Value.readFrom, if_neg (hother _ (by decide)), if_neg (hother _ (by decide)),
      if_neg (hother _ (by decide)), if_neg (hother _ (by decide)), if_pos hbyte, hread]

theorem reads_negative (depth : Nat) {n : Numeral} (h : n.WellFormed) (plus : Bool) :
    Reads (Value.reader (depth + 1)) ('-' :: n.text plus) (.number true n.decimal) := by
  refine reads_of_first (by decide) (by decide) ?_
  intro rest hrest
  exact readNumber_numeral h true plus hrest

/-! ## Whole texts -/

/-- A text that is read wherever it stands is read by itself, with blanks behind it. -/
theorem read_of_reads {text : List Char} {v : Value} {depth : Nat}
    (h : ∀ k, Reads (Value.reader (k + depth)) text v) {ending : List Char}
    (hending : Blanks ending) (hdepth : depth ≤ (encode (text ++ ending)).length) :
    Value.read (encode (text ++ ending)) = .ok v := by
  obtain ⟨k, hk⟩ := Nat.exists_eq_add_of_le' hdepth
  have hends : Ends (encode ending) := by
    have := ends_blanks hending ends_nil
    rwa [List.append_nil] at this
  have hread := h k (encode ending) hends
  rw [Value.read, hk, Utf8.encode_append, hread]
  simp only [skipBlanks_blanks hending]

end Json
end Lox

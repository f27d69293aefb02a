import Lox.Proofs.JsonGrammar

/-!
# Every JSON value is passed over

The reader that skips a value does not build it: it keeps the open brackets on a list, and goes on
after each part with what they are due. However deep a value is nested, the reader comes out right
behind it, with the same brackets open as before.

Results:
* `skipString_of_string`: where the reader of strings ends, skipping a string ends too.
* `passed_of_items`: a bracket around values that are passed over, by induction on their list.
* `passed_of_value`: every value, by induction on the grammar.
-/
namespace Lox
namespace Json

open Utf8 (ascii encode)

/-! ## Strings and numbers -/

theorem skipString_plain {b : UInt8} (hquote : b ≠ ascii '"') (hslash : b ≠ ascii '\\')
    (hcontrol : ¬ b.toNat < 0x20) (bs : Bytes) : skipString (b :: bs) = skipString bs := by
  rw [skipString.eq_def]
  simp only [if_neg hquote, if_neg hslash, if_neg hcontrol]

theorem skipString_short {b : UInt8} (hunit : b ≠ ascii 'u') (h : (shortEscape? b).isSome)
    (bs : Bytes) : skipString (ascii '\\' :: b :: bs) = skipString bs := by
  rw [skipString, if_neg (by decide), if_pos rfl, if_neg hunit, if_pos h]

theorem skipString_unit {bs rest : Bytes} {n : Nat} (h : hexUnit bs = .ok (n, rest)) :
    skipString (ascii '\\' :: ascii 'u' :: bs) = skipString rest := by
  rw [skipString, if_neg (by decide), if_pos rfl, if_pos rfl]
  split <;> rename_i hu <;> rw [h] at hu <;> cases hu
  rfl

/-- The second half of a pair is an escape by itself. -/
theorem skipString_low {high : Nat} {bs rest : Bytes} {c : Char}
    (h : lowSurrogate high bs = .ok (c, rest)) : skipString bs = skipString rest := by
  unfold lowSurrogate at h
  split at h
  · cases h
  split at h
  · cases h
  rename_i hslash
  split at h
  · cases h
  split at h
  · cases h
  rename_i hunit
  split at h
  · cases h
  rename_i hdigits
  split at h
  · obtain ⟨-, rfl⟩ := Prod.mk.inj (Except.ok.inj h)
    rw [not_not.1 hslash, not_not.1 hunit, skipString_unit hdigits]
  · cases h

theorem skipString_escaped {bs rest : Bytes} {c : Char} (h : escaped bs = .ok (c, rest)) :
    skipString (ascii '\\' :: bs) = skipString rest := by
  unfold escaped at h
  split at h
  · cases h
  split at h
  · rename_i hunit
    subst hunit
    unfold unicodeEscape at h
    split at h
    · cases h
    rename_i hdigits
    rw [skipString_unit hdigits]
    split at h
    · cases h
      rfl
    split at h
    · cases h
    · exact skipString_low h
  · rename_i hunit
    split at h
    · rename_i hshort
      cases h
      exact skipString_short hunit (Option.isSome_of_eq_some hshort) rest
    · cases h

theorem skipString_of_string {bs rest : Bytes} {s : List Char} (h : string bs = .ok (s, rest)) :
    skipString bs = .ok rest := by
  unfold string at h
  split at h
  · cases h
  rename_i t left ht
  cases h
  fun_induction stringBytes bs generalizing t with
  | case1 => cases ht
  | case2 bs =>
    cases ht
    rw [skipString.eq_def]
    exact if_pos rfl
  | case3 => cases ht
  | case4 bs c r hc _ ih =>
    obtain ⟨u, hu, -⟩ := before_eq_ok ht
    rw [skipString_escaped hc]
    exact ih _ hu
  | case5 => cases ht
  | case6 b bs hquote hslash hcontrol ih =>
    obtain ⟨u, hu, -⟩ := before_eq_ok ht
    rw [skipString_plain hquote hslash hcontrol]
    exact ih _ hu

theorem skipNumber_number {text : List Char} (h : Unsigned text) {rest : Bytes}
    (hrest : Ends rest) : skipNumber (encode text ++ rest) = .ok rest := by
  obtain ⟨parts, hparts⟩ := numberParts_number h .badNumber hrest
  rw [skipNumber, hparts]

/-! ## Going on -/

/-- Goes on where the next value inside the open brackets is due, or ends if none is open. -/
def resume (r : Except Fault (List Bracket × Bytes)) : Except Fault Bytes :=
  match r with
  | .error f => .error f
  | .ok ([], rest) => .ok rest
  | .ok (o :: left, rest) =>
    match due (o :: left) rest with
    | .error f => .error f
    | .ok rest => skipValue (o :: left) rest

theorem skipValue_eq (opened : List Bracket) (bs : Bytes) :
    skipValue opened bs =
      match advance opened bs with
      | .error f => .error f
      | .ok ([], rest) => .ok rest
      | .ok (o :: left, rest) => skipValue (o :: left) rest := by
  rw [skipValue]
  split <;> rename_i h <;> rw [h]

/-- A value is passed over from its first byte on. -/
theorem skipValue_pass {opened : List Bracket} {b : UInt8} {bs rest : Bytes}
    (h : skipBlanks bs = b :: rest) : skipValue opened bs = resume (pass opened b rest) := by
  rw [skipValue_eq, advance, h]
  dsimp only
  cases pass opened b rest with
  | error f => rfl
  | ok r =>
    obtain ⟨left, rest⟩ := r
    cases left with
    | nil => rfl
    | cons o left =>
      dsimp only [resume]
      cases due (o :: left) rest with
      | error f => rfl
      | ok rest => rfl

theorem skipBlanks_gap {gap : List Char} (hgap : Blanks gap) (bs : Bytes) :
    skipBlanks (encode gap ++ bs) = skipBlanks bs :=
  skipBlanks_append (isBlank_of_mem_encode hgap) bs

theorem colon_gap {gap : List Char} (hgap : Blanks gap) (inner : List Char) (rest : Bytes) :
    colon (encode (gap ++ ':' :: inner) ++ rest) = .ok (encode inner ++ rest) := by
  rw [Utf8.encode_append, List.append_assoc, colon, skipBlanks_gap hgap]
  rfl

theorem skipValue_congr {bs bs' : Bytes} (h : skipBlanks bs = skipBlanks bs')
    (opened : List Bracket) : skipValue opened bs = skipValue opened bs' := by
  rw [skipValue_eq, skipValue_eq opened bs', advance, advance, h]

theorem skipValue_gap {gap : List Char} (hgap : Blanks gap) (opened : List Bracket) (bs : Bytes) :
    skipValue opened (encode gap ++ bs) = skipValue opened bs :=
  skipValue_congr (skipBlanks_gap hgap bs) opened

/-- A text that is passed over, whatever brackets are open around it. -/
def Passed (text : List Char) : Prop :=
  ∀ opened rest, Ends rest → skipValue opened (encode text ++ rest) = resume (close opened rest)

/-! ## Plain values -/

/-- A character that a value may start with. -/
structure Opens (c : Char) : Prop where
  ascii : c.toNat < 0x80
  visible : isBlank (Utf8.ascii c) = false
  inside (o : Bracket) : Utf8.ascii c ≠ o.closing

theorem opens_iff {c : Char} :
    Opens c ↔ c.toNat < 0x80 ∧ isBlank (ascii c) = false ∧ ascii c ≠ ascii ']' ∧
      ascii c ≠ ascii '\x7d' := by
  constructor
  · exact fun hc => ⟨hc.ascii, hc.visible, hc.inside .list, hc.inside .object⟩
  · rintro ⟨hascii, hblank, hlist, hobject⟩
    refine ⟨hascii, hblank, fun o => ?_⟩
    cases o with
    | list => exact hlist
    | object => exact hobject

instance (c : Char) : Decidable (Opens c) := decidable_of_iff' _ opens_iff

theorem ascii_ne_of_isDigit {c : Char} (h : c.isDigit = true) {b : UInt8}
    (hb : isDigit b = false) : ascii c ≠ b := by
  rintro rfl
  rw [isDigit_ascii h] at hb
  cases hb

theorem opens_digit {c : Char} (h : c.isDigit = true) : Opens c := by
  have hrange := digit_range h
  refine opens_iff.2 ⟨by omega, ?_, ascii_ne_of_isDigit h (by decide),
    ascii_ne_of_isDigit h (by decide)⟩
  cases hb : isBlank (ascii c) with
  | false => rfl
  | true => exact absurd (ends_of_isBlank hb [] _ rfl).1 (by simp [isDigit_ascii h])

theorem encode_opens {c : Char} (h : Opens c) (cs : List Char) (rest : Bytes) :
    encode (c :: cs) ++ rest = ascii c :: (encode cs ++ rest) := by
  rw [Utf8.encode_cons, Utf8.encodeChar_ascii h.ascii]
  rfl

theorem passed_of_plain {c : Char} {cs : List Char} (hc : Opens c) (hlist : ascii c ≠ ascii '[')
    (hobject : ascii c ≠ ascii '\x7b')
    (h : ∀ rest, Ends rest → skipPlain (ascii c) (encode cs ++ rest) = .ok rest) :
    Passed (c :: cs) := by
  intro opened rest hrest
  rw [encode_opens hc, skipValue_pass (skipBlanks_cons hc.visible _), pass, if_neg hlist,
    if_neg hobject, h rest hrest]

theorem Unsigned.first {text : List Char} (h : Unsigned text) :
    ∃ c cs, text = c :: cs ∧ c.isDigit = true := by
  obtain ⟨⟨hne, hdigit⟩, -, -, -⟩ := h
  obtain ⟨c, cs, rfl⟩ := List.exists_cons_of_ne_nil hne
  exact ⟨c, _, rfl, hdigit c List.mem_cons_self⟩

theorem passed_of_number {text : List Char} (h : Unsigned text) : Passed text := by
  obtain ⟨c, cs, rfl, hc⟩ := h.first
  have hopens := opens_digit hc
  have hother {b : UInt8} (hb : isDigit b = false) : ascii c ≠ b := ascii_ne_of_isDigit hc hb
  refine passed_of_plain hopens (hother (by decide)) (hother (by decide)) ?_
  intro rest hrest
  have hskip := skipNumber_number h hrest
  rw [encode_opens hopens] at hskip
  rw [skipPlain, if_neg (hother (by decide)), if_neg (hother (by decide)),
    if_neg (hother (by decide)), if_neg (hother (by decide)), if_pos (isDigit_ascii hc), hskip]

theorem passed_of_negative {text : List Char} (h : Unsigned text) : Passed ('-' :: text) :=
  passed_of_plain (by decide) (by decide) (by decide)
    fun _ hrest => skipNumber_number h hrest

theorem passed_of_quoted {s text : List Char} (h : Quoted s text) : Passed text := by
  obtain ⟨body, hbody, rfl⟩ := h
  refine passed_of_plain (by decide) (by decide) (by decide) ?_
  intro rest _
  rw [Utf8.encode_append, List.append_assoc]
  exact skipString_of_string (string_spells hbody rest)

/-! ## Brackets -/

/-- What stands before a value in a bracket is passed over up to some blanks. -/
theorem resume_lead {o : Bracket} {lead : List Char} (h : Lead o lead) (opened : List Bracket)
    (rest : Bytes) :
    resume (.ok (o :: opened, encode lead ++ rest)) = skipValue (o :: opened) rest := by
  cases h with
  | list hbefore => exact skipValue_gap hbefore _ rest
  | @object before key quoted gap inner hbefore hkey hgap hinner =>
    obtain ⟨inside, hbytes, hread⟩ := hkey.bytes (encode (gap ++ ':' :: inner) ++ rest)
    have hdue : due (.object :: opened)
        (encode (before ++ (quoted ++ (gap ++ ':' :: inner))) ++ rest) =
          .ok (encode inner ++ rest) := by
      rw [Utf8.encode_append, Utf8.encode_append, List.append_assoc, List.append_assoc, hbytes,
        due, skipKey, skipBlanks_gap hbefore, skipBlanks_cons (by decide)]
      simp only [ne_eq, not_true_eq_false, if_false, skipString_of_string hread,
        colon_gap hgap]
    rw [resume, hdue]
    exact skipValue_gap hinner _ rest

/-- The items after the first one, each with a comma before it. -/
def following (texts : List (List Char)) : List Char := texts.flatMap (',' :: ·)

theorem intercalate_following (text : List Char) (texts : List (List Char)) :
    [','].intercalate (text :: texts) = text ++ following texts := by
  induction texts generalizing text with
  | nil => simp [following]
  | cons next texts ih => rw [List.intercalate_cons_cons, ih]; simp [following]

/-- What stands in a bracket after one of its values, and then the closing bracket. -/
def remaining (o : Bracket) (gap : List Char) (texts : List (List Char)) (ending : List Char)
    (rest : Bytes) : Bytes :=
  encode gap ++ (encode (following texts) ++ (encode ending ++ o.closing :: rest))

section
variable {o : Bracket} {gap ending : List Char} (hgap : Blanks gap) (hending : Blanks ending)
include hgap hending

theorem skipBlanks_remaining_nil (rest : Bytes) :
    skipBlanks (remaining o gap [] ending rest) = o.closing :: rest := by
  rw [remaining, skipBlanks_gap hgap, following, List.flatMap_nil, Utf8.encode_nil,
    List.nil_append, skipBlanks_gap hending, skipBlanks_cons (closing_facts o).1]

omit hending in
theorem skipBlanks_remaining_cons (text : List Char) (texts : List (List Char)) (rest : Bytes) :
    skipBlanks (remaining o gap (text :: texts) ending rest) =
      ascii ',' :: (encode text ++ remaining o [] texts ending rest) := by
  have hcut : encode (following (text :: texts)) =
      ascii ',' :: (encode text ++ encode (following texts)) := by
    rw [following, List.flatMap_cons, Utf8.encode_append, Utf8.encode_cons,
      Utf8.encodeChar_ascii (by decide)]
    rfl
  rw [remaining, skipBlanks_gap hgap, hcut, List.cons_append, skipBlanks_cons (by decide),
    List.append_assoc]
  rfl

theorem ends_remaining (texts : List (List Char)) (rest : Bytes) :
    Ends (remaining o gap texts ending rest) := by
  refine ends_blanks hgap ?_
  cases texts with
  | nil => exact ends_blanks hending ((closing_facts o).2.2 rest)
  | cons text texts => exact ends_comma _

end

theorem remaining_append (o : Bracket) (gap : List Char) (texts : List (List Char))
    (ending : List Char) (rest : Bytes) :
    encode gap ++ remaining o [] texts ending rest = remaining o gap texts ending rest := rfl

theorem encode_item (i : Item) (rest : Bytes) :
    encode i.text ++ rest = encode i.lead ++ (encode i.value ++ (encode i.after ++ rest)) := by
  simp [Item.text]

section
variable {o : Bracket} {items : List Item} {ending : List Char}
    (hlead : ∀ i ∈ items, Lead o i.lead) (hvalue : ∀ i ∈ items, Passed i.value)
    (hafter : ∀ i ∈ items, Blanks i.after) (hending : Blanks ending)
include hlead hvalue hafter hending

/-- After a value, the values behind it in its bracket are passed over, and the bracket closes. -/
theorem resume_remaining (opened : List Bracket) {gap : List Char} (hgap : Blanks gap)
    (rest : Bytes) :
    resume (close (o :: opened) (remaining o gap (items.map Item.text) ending rest)) =
      resume (close opened rest) := by
  induction items generalizing gap with
  | nil =>
    rw [List.map_nil, close, skipBlanks_remaining_nil hgap hending]
    simp only [if_neg (closing_facts o).2.1, if_true]
  | cons i items ih =>
    rw [List.forall_mem_cons] at hlead hvalue hafter
    rw [List.map_cons, close, skipBlanks_remaining_cons hgap]
    simp only [if_true]
    rw [encode_item, resume_lead hlead.1, remaining_append,
      hvalue.1 _ _ (ends_remaining hafter.1 hending _ rest),
      ih hlead.2 hvalue.2 hafter.2 hafter.1]

end

/-! ## Opening brackets -/

theorem pass_bracket (o : Bracket) (opened : List Bracket) (bs : Bytes) :
    pass opened (ascii o.marks.1) bs = enter o opened bs := by
  cases o with
  | list => exact if_pos rfl
  | object => exact (if_neg (by decide)).trans (if_pos rfl)

theorem opens_bracket (o : Bracket) : Opens o.marks.1 := by
  cases o <;> decide

theorem resume_skipBlanks (o : Bracket) (opened : List Bracket) (bs : Bytes) :
    resume (.ok (o :: opened, skipBlanks bs)) = resume (.ok (o :: opened, bs)) := by
  cases o with
  | list => exact skipValue_congr (skipBlanks_skipBlanks bs) _
  | object => simp only [resume, due, skipKey, skipBlanks_skipBlanks]

/-- A bracket with something in it is entered. -/
theorem resume_enter {o : Bracket} {opened : List Bracket} {bs rest : Bytes} {c : Char}
    (hc : Opens c) (h : skipBlanks bs = ascii c :: rest) :
    resume (enter o opened bs) = resume (.ok (o :: opened, bs)) := by
  rw [enter, h]
  simp only [if_neg (hc.inside o)]
  rw [← h, resume_skipBlanks]

/-- The first byte of an item, after its blanks. -/
theorem Item.first {o : Bracket} {i : Item} (hlead : Lead o i.lead)
    (hvalue : ∃ c cs, i.value = c :: cs ∧ Opens c) (rest : Bytes) :
    ∃ c bs, Opens c ∧ skipBlanks (encode i.text ++ rest) = ascii c :: bs := by
  rw [encode_item]
  generalize i.lead = lead at hlead
  cases hlead with
  | list hbefore =>
    obtain ⟨c, cs, hcs, hc⟩ := hvalue
    refine ⟨c, encode cs ++ (encode i.after ++ rest), hc, ?_⟩
    rw [skipBlanks_gap hbefore, hcs, encode_opens hc, skipBlanks_cons hc.visible]
  | @object before key quoted gap inner hbefore hkey =>
    obtain ⟨inside, hbytes, -⟩ := hkey.bytes (encode (gap ++ ':' :: inner) ++
      (encode i.value ++ (encode i.after ++ rest)))
    refine ⟨'"', inside, by decide, ?_⟩
    rw [Utf8.encode_append, Utf8.encode_append, List.append_assoc, List.append_assoc, hbytes,
      skipBlanks_gap hbefore, skipBlanks_cons (by decide)]

/-- **A bracket** is passed over if the values in it are. -/
theorem passed_of_items {o : Bracket} {items : List Item} {ending : List Char}
    (hlead : ∀ i ∈ items, Lead o i.lead) (hvalue : ∀ i ∈ items, Passed i.value)
    (hfirst : ∀ i ∈ items, ∃ c cs, i.value = c :: cs ∧ Opens c)
    (hafter : ∀ i ∈ items, Blanks i.after) (hending : Blanks ending) :
    Passed (enclosed o (items.map Item.text) ending) := by
  intro opened rest _
  have hopen := opens_bracket o
  have hbytes : encode (enclosed o (items.map Item.text) ending) ++ rest = ascii o.marks.1 ::
      (encode ([','].intercalate (items.map Item.text)) ++ (encode ending ++ o.closing :: rest)) := by
    rw [enclosed, encode_opens hopen, Utf8.encode_append, Utf8.encode_append, List.append_assoc,
      List.append_assoc, encode_closing]
  rw [hbytes, skipValue_pass (skipBlanks_cons hopen.visible _), pass_bracket]
  cases items with
  | nil =>
    rw [List.map_nil, List.intercalate_nil, Utf8.encode_nil, List.nil_append, enter,
      skipBlanks_gap hending, skipBlanks_cons (closing_facts o).1]
    exact congrArg resume (if_pos rfl)
  | cons i items =>
    rw [List.forall_mem_cons] at hlead hvalue hfirst hafter
    have hinside : encode ([','].intercalate ((i :: items).map Item.text)) ++
        (encode ending ++ o.closing :: rest) =
          encode i.text ++ remaining o [] (items.map Item.text) ending rest := by
      rw [List.map_cons, intercalate_following, Utf8.encode_append, List.append_assoc]
      rfl
    obtain ⟨c, bs, hc, hbs⟩ := Item.first hlead.1 hfirst.1
      (remaining o [] (items.map Item.text) ending rest)
    rw [hinside, resume_enter hc hbs, encode_item, resume_lead hlead.1, remaining_append,
      hvalue.1 _ _ (ends_remaining hafter.1 hending _ rest),
      resume_remaining hlead.2 hvalue.2 hafter.2 hending opened hafter.1]

/-! ## Values -/

theorem IsValue.first {text : List Char} (h : IsValue text) :
    ∃ c cs, text = c :: cs ∧ Opens c := by
  cases h with
  | null => exact ⟨'n', _, rfl, by decide⟩
  | true => exact ⟨'t', _, rfl, by decide⟩
  | false => exact ⟨'f', _, rfl, by decide⟩
  | number h =>
    obtain ⟨c, cs, htext, hc⟩ := h.first
    exact ⟨c, cs, htext, opens_digit hc⟩
  | negative h => exact ⟨'-', _, rfl, by decide⟩
  | string h =>
    obtain ⟨body, -, rfl⟩ := h
    exact ⟨'"', _, rfl, by decide⟩
  | bracket o => exact ⟨o.marks.1, _, rfl, opens_bracket o⟩

/-- **Every value** is passed over. -/
theorem passed_of_value {text : List Char} (h : IsValue text) : Passed text := by
  induction h with
  | null | true | false =>
    exact passed_of_plain (by decide) (by decide) (by decide) fun _ _ => rfl
  | number h => exact passed_of_number h
  | negative h => exact passed_of_negative h
  | string h => exact passed_of_quoted h
  | bracket o hlead hvalue hafter hending ih =>
    exact passed_of_items hlead ih (fun i hi => (hvalue i hi).first) hafter hending

/-- A value with nothing open around it. -/
theorem skipValue_value {text : List Char} (h : IsValue text) {rest : Bytes} (hrest : Ends rest) :
    skipValue [] (encode text ++ rest) = .ok rest :=
  passed_of_value h [] rest hrest

end Json
end Lox

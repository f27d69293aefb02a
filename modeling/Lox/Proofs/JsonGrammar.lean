import Lox.Proofs.JsonLayout

/-!
# JSON texts

What counts as a JSON value, said without a reader. A number may have zeros in front of its exponent;
the items of a list and the members of an object may have blanks around all their parts, and a value
in a bracket may be any value again. Strings are written as in the spellings of text, so escapes of
surrogates come in pairs.

Results: the reader of numbers takes every number (`numberParts_number`).
-/
namespace Lox
namespace Json

open Utf8 (ascii encode)
open Piece (Digits)

/-! ## Numbers -/

inductive Fraction : List Char → Prop
  | none : Fraction []
  | some {ds : List Char} (h : Digits ds) : Fraction ('.' :: ds)

inductive Exponent : List Char → Prop
  | none : Exponent []
  | some {mark : Char} {sign ds : List Char} (hmark : mark = 'e' ∨ mark = 'E')
      (hsign : sign = [] ∨ sign = ['+'] ∨ sign = ['-']) (h : Digits ds) :
      Exponent (mark :: (sign ++ ds))

/-- A number without sign. No zero stands before another digit of the whole part. -/
inductive Unsigned : List Char → Prop
  | parts {whole fraction exponent : List Char} (hwhole : Digits whole)
      (hlead : whole = ['0'] ∨ whole.head? ≠ some '0') (hfraction : Fraction fraction)
      (hexponent : Exponent exponent) : Unsigned (whole ++ (fraction ++ exponent))

/-! ## Values -/

/-- What may stand before a value in a bracket: blanks, and in an object a key and a colon. -/
inductive Lead : Bracket → List Char → Prop
  | list {before : List Char} (hbefore : Blanks before) : Lead .list before
  | object {before key quoted gap inner : List Char} (hbefore : Blanks before)
      (hkey : Quoted key quoted) (hgap : Blanks gap) (hinner : Blanks inner) :
      Lead .object (before ++ (quoted ++ (gap ++ ':' :: inner)))

/-- A value in a bracket, with what stands before and after it. -/
structure Item where
  lead : List Char
  value : List Char
  after : List Char

def Item.text (i : Item) : List Char := i.lead ++ (i.value ++ i.after)

/-- The texts that are JSON values. -/
inductive IsValue : List Char → Prop
  | null : IsValue "null".toList
  | true : IsValue "true".toList
  | false : IsValue "false".toList
  | number {text : List Char} (h : Unsigned text) : IsValue text
  | negative {text : List Char} (h : Unsigned text) : IsValue ('-' :: text)
  | string {s text : List Char} (h : Quoted s text) : IsValue text
  | bracket (o : Bracket) {items : List Item} {ending : List Char}
      (hlead : ∀ i ∈ items, Lead o i.lead) (hvalue : ∀ i ∈ items, IsValue i.value)
      (hafter : ∀ i ∈ items, Blanks i.after) (hending : Blanks ending) :
      IsValue (enclosed o (items.map Item.text) ending)

/-! ## Objects, part by part -/

/-- A member of an object, with the blanks around its parts. -/
structure Member where
  before : List Char := []
  /-- The text that the key stands for. -/
  key : List Char
  /-- The key as it is written. -/
  quoted : List Char
  gap : List Char := []
  inner : List Char := []
  value : List Char
  after : List Char := []

namespace Member

/-- What stands before the value. -/
def lead (m : Member) : List Char := m.before ++ (m.quoted ++ (m.gap ++ ':' :: m.inner))

def item (m : Member) : Item := ⟨m.lead, m.value, m.after⟩

structure WellFormed (m : Member) : Prop where
  before : Blanks m.before
  key : Quoted m.key m.quoted
  gap : Blanks m.gap
  inner : Blanks m.inner
  value : IsValue m.value
  after : Blanks m.after

end Member

theorem Member.WellFormed.lead {m : Member} (h : m.WellFormed) : Lead .object m.item.lead :=
  .object h.before h.key h.gap h.inner

theorem isValue_object {ms : List Member} (h : ∀ m ∈ ms, m.WellFormed) {ending : List Char}
    (hending : Blanks ending) : IsValue (enclosed .object (ms.map (·.item.text)) ending) := by
  have hitems : ms.map (·.item.text) = (ms.map Member.item).map Item.text := by
    rw [List.map_map]
    rfl
  rw [hitems]
  exact .bracket .object (List.forall_mem_map.2 fun m hm => (h m hm).lead)
    (List.forall_mem_map.2 fun m hm => (h m hm).value)
    (List.forall_mem_map.2 fun m hm => (h m hm).after) hending

/-- A text that holds one object, with the blanks around it. -/
structure ObjectText where
  opening : List Char := []
  members : List Member
  /-- The blanks before the closing bracket. -/
  inside : List Char := []
  ending : List Char := []

namespace ObjectText

def text (o : ObjectText) : List Char :=
  o.opening ++ (enclosed .object (o.members.map (·.item.text)) o.inside ++ o.ending)

structure WellFormed (o : ObjectText) : Prop where
  opening : Blanks o.opening
  members : ∀ m ∈ o.members, m.WellFormed
  inside : Blanks o.inside
  ending : Blanks o.ending

end ObjectText

/-! ## Numbers are read -/

theorem Fraction.read {text : List Char} (h : Fraction text) (atEnd : Cause) {rest : Bytes}
    (hdigit : NoDigit rest) (hpoint : ∀ b ∈ rest.head?, b ≠ ascii '.') :
    NoDigit (encode text ++ rest) ∧
      ∃ digits, fractionPart atEnd (encode text ++ rest) = .ok (digits, rest) := by
  cases h with
  | none => exact ⟨hdigit, _, fractionPart_none atEnd hpoint⟩
  | some h => exact ⟨noDigit_cons (by decide) _, _, fractionPart_some atEnd h hdigit⟩

theorem Exponent.read {text : List Char} (h : Exponent text) (atEnd : Cause) {rest : Bytes}
    (hrest : Ends rest) :
    (∀ b ∈ (encode text ++ rest).head?, isDigit b = false ∧ b ≠ ascii '.') ∧
      ∃ power, exponentPart atEnd (encode text ++ rest) = .ok (power, rest) := by
  cases h with
  | none =>
    exact ⟨fun b hb => ⟨(hrest b hb).1, (hrest b hb).2.1⟩, _,
      exponentPart_none atEnd fun b hb => (hrest b hb).2.2⟩
  | @some mark sign ds hmark hsign h =>
    have hhead : ∀ b ∈ (encode (mark :: (sign ++ ds)) ++ rest).head?,
        isDigit b = false ∧ b ≠ ascii '.' := by
      intro b hb
      rcases hmark with rfl | rfl <;> (obtain rfl := Option.some.inj hb; decide)
    refine ⟨hhead, ?_⟩
    obtain ⟨below, hsigned⟩ : ∃ below,
        signPart (encode (sign ++ ds) ++ rest) = (below, encode ds ++ rest) := by
      rcases hsign with rfl | rfl | rfl
      · exact ⟨_, signPart_exponent false 0 h rest⟩
      · exact ⟨_, signPart_exponent true 0 h rest⟩
      · exact ⟨Bool.true, rfl⟩
    exact ⟨_, exponentPart_digits atEnd hmark h hsigned hrest.noDigit⟩

/-- **A number** is read up to what follows it. -/
theorem numberParts_number {text : List Char} (h : Unsigned text) (atEnd : Cause) {rest : Bytes}
    (hrest : Ends rest) :
    ∃ parts, numberParts atEnd (encode text ++ rest) = .ok (parts, rest) := by
  obtain ⟨hwhole, hlead, hfraction, hexponent⟩ := h
  obtain ⟨hhead, power, hpower⟩ := hexponent.read atEnd hrest
  obtain ⟨hdigit, digits, hdigits⟩ :=
    hfraction.read atEnd (fun b hb => (hhead b hb).1) fun b hb => (hhead b hb).2
  rw [Utf8.encode_append, Utf8.encode_append, List.append_assoc, List.append_assoc, numberParts,
    wholePart_digits hwhole hlead atEnd hdigit]
  simp only [hdigits, hpower]
  exact ⟨_, rfl⟩

end Json
end Lox

import Lox.Config.Reader
import Lox.Proofs.JsonSkip

/-!
# Reading the object that holds a configuration

The reader looks for the members of an object by their names, in any order and among any others. It
takes a value by the type of its member, and passes over what has no name that it knows. A member
with a name that was read before is at fault.

Results:
* `skipValue_of_readField`: where a member is read, it is passed over in the same way, so that a
  reader that goes on has taken the whole value.
* `members_told`, `members_nodup`: all members, by induction on their list. Those that agree with a
  configuration are read as it; and where members are read, no two of them name one field.
* `read_told`, `read_nodup`: whole texts.
-/
namespace Lox
namespace Json

open Utf8 (ascii encode)

/-! ## The bytes of an object -/

/-- A member up to its value: the bytes after the opening quote, and the key that is read there. -/
theorem Member.WellFormed.bytes {m : Member} (h : m.WellFormed) (rest : Bytes) :
    ∃ inside, encode m.item.text ++ rest = encode m.before ++ ascii '"' :: inside ∧
      string inside = .ok (m.key, encode (m.gap ++ ':' :: m.inner) ++
        (encode m.value ++ (encode m.after ++ rest))) := by
  obtain ⟨inside, hbytes, hread⟩ := h.key.bytes (encode (m.gap ++ ':' :: m.inner) ++
    (encode m.value ++ (encode m.after ++ rest)))
  refine ⟨inside, ?_, hread⟩
  rw [← hbytes]
  simp [encode_item, Member.item, Member.lead]

/-- The bytes of an object, up to its opening bracket and after it. -/
theorem ObjectText.WellFormed.bytes {o : ObjectText} (h : o.WellFormed) :
    skipBlanks (encode o.text) = ascii '\x7b' ::
      (encode ([','].intercalate (o.members.map (·.item.text))) ++
        (encode o.inside ++ Bracket.object.closing :: encode o.ending)) := by
  have hopen := opens_bracket .object
  rw [ObjectText.text, Utf8.encode_append, skipBlanks_gap h.opening, Utf8.encode_append, enclosed,
    encode_opens hopen, skipBlanks_cons hopen.visible, Utf8.encode_append, Utf8.encode_append,
    List.append_assoc, List.append_assoc, encode_closing]
  rfl

end Json

namespace Config

open Json (skipBlanks Blanks Quoted Ends ObjectText remaining)
open Utf8 (ascii encode)

/-! ## Fields and members -/

/-- The text of a member. -/
def textOf (c : Config) : Field → List Char
  | .prompt => c.prompt
  | .format => c.format.name
  | .logLevel => c.logLevel

theorem ofName?_fieldName (k : Field) : Field.ofName? k.name = some k := by
  cases k <;> decide

theorem ofName?_formatName (f : Format) : Format.ofName? f.name = some f := by
  cases f <;> decide

theorem ofName?_iff {name : List Char} {k : Field} : Field.ofName? name = some k ↔ name = k.name := by
  constructor
  · intro h
    have hname := List.find?_some h
    exact (of_decide_eq_true hname).symm
  · rintro rfl
    exact ofName?_fieldName k

/-- The fields that members name, in order. -/
def fields (ms : List Json.Member) : List Field := ms.filterMap fun x => Field.ofName? x.key

theorem mem_fields {ms : List Json.Member} {k : Field} :
    k ∈ fields ms ↔ ∃ x ∈ ms, x.key = k.name := by
  simp only [fields, List.mem_filterMap, ofName?_iff]

/-- The members that name a field have the text of a configuration for it. -/
def Agrees (c : Config) (ms : List Json.Member) : Prop :=
  ∀ x ∈ ms, ∀ k : Field, x.key = k.name → Quoted (c.textOf k) x.value

/-! ## What is known -/

namespace Members

/-- The text that was read for a field. -/
def text? (m : Members) : Field → Option (List Char)
  | .prompt => m.prompt
  | .format => m.format.map Format.name
  | .logLevel => m.logLevel

/-- What is known when a member has been read. -/
def learn (c : Config) (m : Members) : Field → Members
  | .prompt => { m with prompt := some c.prompt }
  | .format => { m with format := some c.format }
  | .logLevel => { m with logLevel := some c.logLevel }

theorem has_eq (m : Members) (k : Field) : m.has k = (m.text? k).isSome := by
  cases k <;> simp [has, text?]

theorem has_none (k : Field) : ({} : Members).has k = false := by cases k <;> rfl

variable (c : Config) (m : Members)

theorem text?_learn (k l : Field) :
    (m.learn c k).text? l = if k = l then some (c.textOf l) else m.text? l := by
  cases k <;> cases l <;> rfl

theorem text?_learned (ks : List Field) (l : Field) :
    (ks.foldl (learn c) m).text? l = if l ∈ ks then some (c.textOf l) else m.text? l := by
  induction ks generalizing m with
  | nil => rfl
  | cons k ks ih =>
    rw [List.foldl_cons, ih, text?_learn]
    by_cases hl : l ∈ ks
    · simp [hl]
    · simp [hl, eq_comm]

theorem has_learned (ks : List Field) (l : Field) :
    (ks.foldl (learn c) m).has l = (m.has l || decide (l ∈ ks)) := by
  rw [has_eq, has_eq, text?_learned]
  by_cases hl : l ∈ ks <;> simp [hl]

theorem textOf_toConfig (k : Field) :
    m.toConfig.textOf k = (m.text? k).getD (({} : Config).textOf k) := by
  cases k with
  | prompt => rfl
  | format => cases hf : m.format <;> simp [toConfig, textOf, text?, hf]
  | logLevel => rfl

end Members

/-- A configuration is told by the texts of its fields. -/
theorem eq_of_textOf {c d : Config} (h : ∀ k, c.textOf k = d.textOf k) : c = d := by
  have hprompt : c.prompt = d.prompt := h .prompt
  have hlevel : c.logLevel = d.logLevel := h .logLevel
  have hname : c.format.name = d.format.name := h .format
  have hformat : c.format = d.format := by
    have hfound := ofName?_formatName c.format
    rw [hname, ofName?_formatName] at hfound
    exact (Option.some.inj hfound).symm
  cases c
  cases d
  simp_all

/-- What was learned of a configuration is that configuration, if it has the defaults for the
rest. -/
theorem toConfig_learned {c : Config} {ks : List Field}
    (habsent : ∀ k, k ∉ ks → c.textOf k = ({} : Config).textOf k) :
    (ks.foldl (Members.learn c) {}).toConfig = c := by
  apply eq_of_textOf
  intro k
  rw [Members.textOf_toConfig, Members.text?_learned]
  by_cases hk : k ∈ ks
  · simp [hk]
  · have hnone : ({} : Members).text? k = none := by cases k <;> rfl
    simp [hk, hnone, habsent k hk]

/-! ## What is read is passed over -/

theorem skipValue_of_string {bs left rest : Bytes} {s : List Char}
    (h : skipBlanks bs = ascii '"' :: left) (hs : Json.string left = .ok (s, rest)) :
    Json.skipValue [] bs = .ok rest := by
  have hplain : Json.skipPlain (ascii '"') left = .ok rest := Json.skipString_of_string hs
  rw [Json.skipValue_pass h, Json.pass, if_neg (by decide), if_neg (by decide), hplain]
  rfl

theorem skipValue_of_readText {bs rest : Bytes} {s : List Char}
    (h : readText bs = .ok (s, rest)) : Json.skipValue [] bs = .ok rest := by
  unfold readText at h
  split at h
  · cases h
  rename_i hb
  split at h
  · rename_i hquote
    subst hquote
    exact skipValue_of_string hb h
  · cases h

/-- A null is passed over, and then what is open around it goes on. -/
theorem skipValue_of_readNull {bs rest : Bytes} (h : readNull bs = .ok rest)
    (opened : List Json.Bracket) :
    Json.skipValue opened bs = Json.resume (Json.close opened rest) := by
  unfold readNull at h
  split at h
  · cases h
  rename_i hb
  split at h
  · rename_i hnull
    subst hnull
    have hplain : Json.skipPlain (ascii 'n') _ = .ok rest := h
    rw [Json.skipValue_pass hb, Json.pass, if_neg (by decide), if_neg (by decide), hplain]
  · cases h

theorem resume_of_readKeyedFormat {bs rest : Bytes} {f : Format}
    (h : readKeyedFormat bs = .ok (f, rest)) :
    Json.resume (Json.enter .object [] bs) = .ok rest := by
  unfold readKeyedFormat at h
  split at h
  · cases h
  rename_i b inside hb
  split at h
  · cases h
  split at h
  · cases h
  rename_i hquote
  obtain rfl := not_not.1 hquote
  split at h
  · cases h
  rename_i name afterKey hname
  split at h
  · cases h
  rename_i format left hformat
  obtain rfl := named_rest hformat
  split at h
  · cases h
  rename_i afterColon hcolon
  split at h
  · cases h
  rename_i afterNull hnull
  split at h
  · cases h
  rename_i b' last hb'
  split at h
  · rename_i hclosing
    cases h
    have hdue : Json.due [.object] (ascii '"' :: inside) = .ok afterColon := by
      rw [Json.due, Json.skipKey, Json.skipBlanks_cons (by decide)]
      simp only [ne_eq, not_true_eq_false, if_false, Json.skipString_of_string hname, hcolon]
    have hclose : Json.close [.object] afterNull = .ok ([], rest) := by
      rw [Json.close, hb', hclosing]
      rfl
    rw [Json.enter, hb]
    simp only [show ascii '"' ≠ Json.Bracket.object.closing by decide, if_false, Json.resume, hdue]
    rw [skipValue_of_readNull hnull, hclose]
    rfl
  · cases h

theorem skipValue_of_readFormat {bs rest : Bytes} {f : Format}
    (h : readFormat bs = .ok (f, rest)) : Json.skipValue [] bs = .ok rest := by
  unfold readFormat at h
  split at h
  · cases h
  rename_i hb
  split at h
  · rename_i hquote
    subst hquote
    split at h
    · cases h
    rename_i hname
    obtain rfl := named_rest h
    exact skipValue_of_string hb hname
  split at h
  · rename_i hobject
    subst hobject
    rw [Json.skipValue_pass hb, Json.pass, if_neg (by decide), if_pos rfl]
    exact resume_of_readKeyedFormat h
  · cases h

/-- **What is read is passed over**, up to the same place; and then the member is known. -/
theorem skipValue_of_readField {k : Field} {m m' : Members} {bs rest : Bytes}
    (h : readField k m bs = .ok (m', rest)) :
    Json.skipValue [] bs = .ok rest ∧ ∀ l, m'.has l = (m.has l || k == l) := by
  cases k with
  | prompt =>
    simp only [readField] at h
    split at h
    · cases h
    rename_i hread
    cases h
    exact ⟨skipValue_of_readText hread, fun l => by cases l <;> simp [Members.has]⟩
  | format =>
    simp only [readField] at h
    split at h
    · cases h
    rename_i hread
    cases h
    exact ⟨skipValue_of_readFormat hread, fun l => by cases l <;> simp [Members.has]⟩
  | logLevel =>
    simp only [readField] at h
    split at h
    · cases h
    rename_i hread
    cases h
    exact ⟨skipValue_of_readText hread, fun l => by cases l <;> simp [Members.has]⟩

/-! ## Values -/

section
variable {gap : List Char} (hgap : Blanks gap) {s value : List Char} (hvalue : Quoted s value)
include hgap hvalue

theorem readText_quoted (rest : Bytes) :
    readText (encode gap ++ (encode value ++ rest)) = .ok (s, rest) := by
  obtain ⟨inside, hbytes, hread⟩ := hvalue.bytes rest
  rw [readText, Json.skipBlanks_gap hgap, hbytes, Json.skipBlanks_cons (by decide)]
  simp only [if_true, hread]

theorem readFormat_quoted {f : Format} (hf : f.name = s) (rest : Bytes) :
    readFormat (encode gap ++ (encode value ++ rest)) = .ok (f, rest) := by
  obtain ⟨inside, hbytes, hread⟩ := hvalue.bytes rest
  rw [readFormat, Json.skipBlanks_gap hgap, hbytes, Json.skipBlanks_cons (by decide)]
  simp only [if_true, hread, named, ← hf, ofName?_formatName]

end

theorem readField_quoted (c : Config) (k : Field) (m : Members) {gap value : List Char}
    (hgap : Blanks gap) (hvalue : Quoted (c.textOf k) value) (rest : Bytes) :
    readField k m (encode gap ++ (encode value ++ rest)) = .ok (m.learn c k, rest) := by
  cases k with
  | prompt => simp only [readField, readText_quoted hgap hvalue, Members.learn, textOf]
  | format => simp only [readField, readFormat_quoted hgap hvalue rfl, Members.learn]
  | logLevel => simp only [readField, readText_quoted hgap hvalue, Members.learn, textOf]

/-! ## One member -/

section
variable {x : Json.Member} (hx : x.WellFormed) {m : Members} {inside rest : Bytes}
    (hkey : Json.string inside = .ok (x.key, encode (x.gap ++ ':' :: x.inner) ++
      (encode x.value ++ rest)))
include hx hkey

/-- A member that names no field is passed over. -/
theorem member_other (hname : Field.ofName? x.key = none) (hrest : Ends rest) :
    member m inside = .ok (m, rest) := by
  have hskip := Json.skipValue_value hx.value hrest
  rw [← Json.skipValue_gap hx.inner] at hskip
  simp only [member, hkey, hname, Json.colon_gap hx.gap, hskip]

/-- A member that names a field that was not read before. -/
theorem member_field {c : Config} {k : Field} (hname : x.key = k.name) (hnew : m.has k = false)
    (hvalue : Quoted (c.textOf k) x.value) : member m inside = .ok (m.learn c k, rest) := by
  simp only [member, hkey, ofName?_iff.2 hname, hnew, Bool.false_eq_true, if_false,
    Json.colon_gap hx.gap, readField_quoted c k m hx.inner hvalue]

/-- What is known after a member that was read, and where the reader stands. -/
theorem member_eq_ok (hrest : Ends rest) {m' : Members} {left : Bytes}
    (h : member m inside = .ok (m', left)) :
    left = rest ∧ ∀ k, (m'.has k ↔ m.has k ∨ Field.ofName? x.key = some k) ∧
      (Field.ofName? x.key = some k → m.has k = false) := by
  cases hname : Field.ofName? x.key with
  | none =>
    rw [member_other hx hkey hname hrest] at h
    cases h
    exact ⟨rfl, fun k => ⟨by simp, by simp⟩⟩
  | some k =>
    simp only [member, hkey, hname, Json.colon_gap hx.gap] at h
    split at h
    · cases h
    rename_i hnew
    obtain ⟨hskip, hhas⟩ := skipValue_of_readField h
    rw [Json.skipValue_gap hx.inner, Json.skipValue_value hx.value hrest] at hskip
    refine ⟨(Except.ok.inj hskip).symm, fun l => ⟨?_, ?_⟩⟩
    · simp [hhas l]
    · rintro ⟨⟩
      exact Bool.eq_false_iff.2 hnew

end

/-! ## One of many members -/

section
variable {first : Bool} {m : Members} {bs rest : Bytes}

theorem members_next {m' : Members} {key : Bytes} (hkey : nextKey first bs = .ok (true, key))
    (hmember : member m key = .ok (m', rest)) : members first m bs = members false m' rest := by
  rw [members]
  split <;> rename_i hk <;> rw [hkey] at hk <;> cases hk
  split <;> rename_i hm <;> rw [hmember] at hm <;> cases hm
  rfl

theorem members_end (hkey : nextKey first bs = .ok (false, rest)) :
    members first m bs = .ok (m, rest) := by
  rw [members]
  split <;> rename_i hk <;> rw [hkey] at hk <;> cases hk
  rfl

theorem members_eq_ok {m' : Members} {key : Bytes} (hkey : nextKey first bs = .ok (true, key))
    (h : members first m bs = .ok (m', rest)) :
    ∃ next left, member m key = .ok (next, left) ∧ members false next left = .ok (m', rest) := by
  rw [members] at h
  split at h <;> rename_i hk <;> rw [hkey] at hk <;> cases hk
  split at h
  · cases h
  · rename_i hm
    exact ⟨_, _, hm, h⟩

end

/-- The bytes go on with a member, which has a comma before it unless it is the first. -/
def GoesOn (first : Bool) (bs : Bytes) (x : Json.Member) (rest : Bytes) : Prop :=
  if first then bs = encode x.item.text ++ rest
  else skipBlanks bs = ascii ',' :: (encode x.item.text ++ rest)

section
variable {first : Bool} {bs left rest : Bytes} {x : Json.Member} (hx : x.WellFormed) {m : Members}
    (h : GoesOn first bs x left)
include hx h

theorem nextKey_goesOn :
    ∃ inside, nextKey first bs = .ok (true, inside) ∧
      Json.string inside = .ok (x.key, encode (x.gap ++ ':' :: x.inner) ++
        (encode x.value ++ (encode x.after ++ left))) := by
  obtain ⟨inside, hbytes, hread⟩ := hx.bytes left
  refine ⟨inside, ?_, hread⟩
  have hskip : skipBlanks (encode x.item.text ++ left) = ascii '"' :: inside := by
    rw [hbytes, Json.skipBlanks_gap hx.before, Json.skipBlanks_cons (by decide)]
  cases first with
  | true =>
    have hbs : bs = encode x.item.text ++ left := h
    rw [hbs, nextKey, hskip]
    rfl
  | false =>
    have hcomma : skipBlanks bs = ascii ',' :: (encode x.item.text ++ left) := h
    rw [nextKey, hcomma]
    simp only [hskip]
    rfl

/-- A member that agrees with a configuration, and names no field that was read before. -/
theorem members_goesOn {c : Config} (hagree : Agrees c [x])
    (hnew : ∀ k ∈ fields [x], m.has k = false) (hends : Ends (encode x.after ++ left)) :
    members first m bs =
      members false ((fields [x]).foldl (Members.learn c) m) (encode x.after ++ left) := by
  obtain ⟨inside, hkey, hread⟩ := nextKey_goesOn hx h
  cases hname : Field.ofName? x.key with
  | none =>
    have hfields : fields [x] = [] := by simp [fields, hname]
    rw [hfields]
    exact members_next hkey (member_other hx hread hname hends)
  | some k =>
    have hfields : fields [x] = [k] := by simp [fields, hname]
    rw [hfields] at hnew ⊢
    have hk := ofName?_iff.1 hname
    exact members_next hkey (member_field hx hread hk (hnew k List.mem_cons_self)
      (hagree x List.mem_cons_self k hk))

/-- Behind a member that was read the reader goes on with what is known then. -/
theorem members_goesOn_eq_ok (hends : Ends (encode x.after ++ left)) {m' : Members}
    (hok : members first m bs = .ok (m', rest)) :
    (∀ k ∈ fields [x], m.has k = false) ∧
      ∃ next : Members, (∀ k, next.has k ↔ m.has k ∨ k ∈ fields [x]) ∧
        members false next (encode x.after ++ left) = .ok (m', rest) := by
  obtain ⟨inside, hkey, hread⟩ := nextKey_goesOn hx h
  obtain ⟨next, left', hmember, hmore⟩ := members_eq_ok hkey hok
  obtain ⟨rfl, hnext⟩ := member_eq_ok hx hread hends hmember
  refine ⟨?_, next, ?_, hmore⟩
  · intro k hk
    exact (hnext k).2 (by simpa [fields] using hk)
  · intro k
    simpa [fields] using (hnext k).1

end

/-! ## All members -/

theorem fields_cons (x : Json.Member) (ms : List Json.Member) :
    fields (x :: ms) = fields [x] ++ fields ms := by
  simp only [fields, ← List.filterMap_append, List.singleton_append]

/-- The bytes hold members, the first of them with a comma before it if others came before, and
then the closing bracket. -/
def Holds (first : Bool) (bs : Bytes) (ms : List Json.Member) (inside : List Char)
    (rest : Bytes) : Prop :=
  match ms with
  | [] => skipBlanks bs = Json.Bracket.object.closing :: rest
  | x :: ms => GoesOn first bs x (remaining .object [] (ms.map (·.item.text)) inside rest)

section
variable {inside : List Char} (hinside : Blanks inside) {m : Members} {rest : Bytes}
include hinside

theorem holds_remaining {gap : List Char} (hgap : Blanks gap) (ms : List Json.Member) :
    Holds false (remaining .object gap (ms.map (·.item.text)) inside rest) ms inside rest := by
  cases ms with
  | nil => exact Json.skipBlanks_remaining_nil hgap hinside rest
  | cons x ms => exact Json.skipBlanks_remaining_cons hgap _ _ rest

theorem holds_first (ms : List Json.Member) :
    Holds true (encode ([','].intercalate (ms.map (·.item.text))) ++
      (encode inside ++ Json.Bracket.object.closing :: rest)) ms inside rest := by
  cases ms with
  | nil =>
    rw [Holds, List.map_nil, List.intercalate_nil, Utf8.encode_nil, List.nil_append,
      Json.skipBlanks_gap hinside, Json.skipBlanks_cons (by decide)]
  | cons x ms =>
    rw [Holds, List.map_cons, Json.intercalate_following, Utf8.encode_append, List.append_assoc]
    rfl

variable {first : Bool} {bs : Bytes} {ms : List Json.Member} (hms : ∀ x ∈ ms, x.WellFormed)
include hms

/-- **Members that agree** with a configuration, each field once. -/
theorem members_told {c : Config} (hbs : Holds first bs ms inside rest) (hagree : Agrees c ms)
    (hnodup : (fields ms).Nodup) (hnew : ∀ k ∈ fields ms, m.has k = false) :
    members first m bs = .ok ((fields ms).foldl (Members.learn c) m, rest) := by
  induction ms generalizing first bs m with
  | nil =>
    apply members_end
    rw [nextKey, hbs]
    rfl
  | cons x ms ih =>
    obtain ⟨hx, hms⟩ := List.forall_mem_cons.1 hms
    obtain ⟨hagreex, hagree⟩ := List.forall_mem_cons.1 hagree
    rw [fields_cons] at hnodup hnew
    obtain ⟨-, hnodup, hapart⟩ := List.nodup_append.1 hnodup
    obtain ⟨hnewx, hnew⟩ := List.forall_mem_append.1 hnew
    have hlearned : ∀ k ∈ fields ms, ((fields [x]).foldl (Members.learn c) m).has k = false := by
      intro k hk
      have hother : k ∉ fields [x] := fun hx => hapart k hx k hk rfl
      simp [Members.has_learned, hnew k hk, hother]
    rw [members_goesOn hx hbs (List.forall_mem_singleton.2 hagreex) hnewx
        (Json.ends_remaining hx.after hinside _ rest), Json.remaining_append,
      ih hms (holds_remaining hinside hx.after ms) hagree hnodup hlearned, fields_cons x ms,
      List.foldl_append]

/-- **Where members are read**, no two of them name one field. -/
theorem members_nodup (hbs : Holds first bs ms inside rest) {m' : Members} {left : Bytes}
    (h : members first m bs = .ok (m', left)) :
    (fields ms).Nodup ∧ ∀ k ∈ fields ms, m.has k = false := by
  induction ms generalizing first bs m with
  | nil => simp [fields]
  | cons x ms ih =>
    obtain ⟨hx, hms⟩ := List.forall_mem_cons.1 hms
    obtain ⟨hnew, next, hnext, hmore⟩ :=
      members_goesOn_eq_ok hx hbs (Json.ends_remaining hx.after hinside _ rest) h
    obtain ⟨hnodup, hlater⟩ := ih hms (holds_remaining hinside hx.after ms) hmore
    have hapart : ∀ k ∈ fields [x], ∀ l ∈ fields ms, k ≠ l := by
      rintro k hk l hl rfl
      exact absurd ((hnext k).2 (.inr hk)) (by simp [hlater k hl])
    have hbefore : ∀ k ∈ fields ms, m.has k = false := by
      intro k hk
      refine Bool.eq_false_iff.2 fun hm => ?_
      exact absurd ((hnext k).2 (.inl hm)) (by simp [hlater k hk])
    have hone : (fields [x]).Nodup := by
      cases hname : Field.ofName? x.key <;> simp [fields, hname]
    rw [fields_cons]
    exact ⟨List.nodup_append.2 ⟨hone, hnodup, hapart⟩, List.forall_mem_append.2 ⟨hnew, hbefore⟩⟩

end

/-! ## Whole texts -/

section
variable {o : ObjectText} (ho : o.WellFormed)
include ho

/-- What stands behind the opening bracket. -/
theorem holds_object :
    Holds true (encode ([','].intercalate (o.members.map (·.item.text))) ++
      (encode o.inside ++ Json.Bracket.object.closing :: encode o.ending)) o.members o.inside
      (encode o.ending) :=
  holds_first ho.inside o.members

/-- **An object** that gives a configuration, each field once, and the defaults for the rest. -/
theorem read_told {c : Config} (hagree : Agrees c o.members) (hnodup : (fields o.members).Nodup)
    (habsent : ∀ k, k ∉ fields o.members → c.textOf k = ({} : Config).textOf k) :
    read (encode o.text) = .ok c := by
  have hmembers := members_told ho.inside ho.members (holds_object ho) hagree hnodup
    fun k _ => Members.has_none k
  have hdocument : document (encode o.text) = .ok c := by
    rw [document, ho.bytes]
    simp only [show ascii '\x7b' ≠ ascii '[' by decide, if_false, if_true, hmembers,
      Json.skipBlanks_blanks ho.ending, toConfig_learned habsent]
  rw [read, hdocument]

/-- An object that is read gives no field twice. -/
theorem read_nodup {c : Config} (h : read (encode o.text) = .ok c) : (fields o.members).Nodup := by
  have hdocument : ∃ c, document (encode o.text) = .ok c := by
    unfold read at h
    split at h
    · cases h
    · exact ⟨_, ‹_›⟩
  obtain ⟨c, hdocument⟩ := hdocument
  rw [document, ho.bytes] at hdocument
  simp only [show ascii '\x7b' ≠ ascii '[' by decide, if_false, if_true] at hdocument
  split at hdocument
  · cases hdocument
  · rename_i hmembers
    exact (members_nodup ho.inside ho.members (holds_object ho) hmembers).1

end

end Config
end Lox

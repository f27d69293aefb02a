import Mathlib.Data.List.Pairwise
import Lox.Proofs.ConfigText

/-!
# The layout of a configuration file makes no difference

A configuration file may have its members in any order and among any others, with any blanks around
their parts, and any spelling of its strings. What it gives for each field is all that counts, and a
field may be given once.

Results:
* `exists_told`: an object with the right types tells a configuration.
* `layout_irrelevant`: a file with such an object loads as that configuration; two of them that give
  the same load the same; and no file that gives a field twice loads.
-/
namespace Lox
namespace Config

open Json (Blanks Quoted ObjectText)
open Utf8 (encode)

/-! ## What an object gives -/

/-- The object gives the text `s` for a field. -/
def Gives (o : ObjectText) (k : Field) (s : List Char) : Prop :=
  ∃ x ∈ o.members, x.key = k.name ∧ Quoted s x.value

/-- The object gives nothing for a field. -/
def Omits (o : ObjectText) (k : Field) : Prop := ∀ x ∈ o.members, x.key ≠ k.name

/-- An object that may hold a configuration: the fields have strings for values, and the format the
name of one. -/
structure RightTyped (o : ObjectText) : Prop where
  wellFormed : o.WellFormed
  typed : ∀ x ∈ o.members, ∀ k : Field, x.key = k.name →
    ∃ s, Quoted s x.value ∧ (k = .format → ∃ f : Format, f.name = s)

/-- No field is given twice. -/
def Single (o : ObjectText) : Prop :=
  o.members.Pairwise fun x y => ∀ k : Field, x.key = k.name → y.key ≠ k.name

/-- The object tells a configuration: the texts that it gives, and the defaults for the rest. -/
structure Tells (o : ObjectText) (c : Config) : Prop where
  given {k : Field} {s : List Char} : Gives o k s → c.textOf k = s
  omitted {k : Field} : Omits o k → c.textOf k = ({} : Config).textOf k

theorem omits_iff {o : ObjectText} {k : Field} : Omits o k ↔ k ∉ fields o.members := by
  simp only [Omits, mem_fields, not_exists, not_and]

theorem single_iff {o : ObjectText} : Single o ↔ (fields o.members).Nodup := by
  rw [fields, List.Nodup, List.pairwise_filterMap, Single]
  apply List.Pairwise.iff
  simp only [ofName?_iff]
  refine fun x y => ⟨?_, fun h k hx hy => h k hx k hy rfl⟩
  rintro h k hx l hy rfl
  exact h k hx hy

/-- Only one member names a field. -/
theorem Single.eq {o : ObjectText} (h : Single o) {x y : Json.Member} (hx : x ∈ o.members)
    (hy : y ∈ o.members) {k : Field} (hxk : x.key = k.name) (hyk : y.key = k.name) : x = y := by
  have : Std.Symm fun a b : Json.Member => ∀ l : Field, a.key = l.name → b.key ≠ l.name :=
    ⟨fun a b hab l hb ha => hab l ha hb⟩
  by_contra hne
  exact h.forall hx hy hne k hxk hyk

/-- A configuration for any texts, that of the format being the name of one. -/
theorem exists_textOf (text : Field → List Char) (h : ∃ f : Format, f.name = text .format) :
    ∃ c : Config, ∀ k, c.textOf k = text k := by
  obtain ⟨f, hf⟩ := h
  refine ⟨⟨text .prompt, f, text .logLevel⟩, fun k => ?_⟩
  cases k with
  | prompt => rfl
  | format => exact hf
  | logLevel => rfl

/-- What the configuration has for a field. -/
theorem exists_text {o : ObjectText} (ho : RightTyped o) (hsingle : Single o) (k : Field) :
    ∃ s, (k = .format → ∃ f : Format, f.name = s) ∧
      (∀ x ∈ o.members, x.key = k.name → Quoted s x.value) ∧
      (Omits o k → s = ({} : Config).textOf k) := by
  by_cases homits : Omits o k
  · refine ⟨({} : Config).textOf k, ?_, fun x hx hk => absurd hk (homits x hx), fun _ => rfl⟩
    rintro rfl
    exact ⟨({} : Config).format, rfl⟩
  · obtain ⟨x, hx, hk⟩ : ∃ x ∈ o.members, x.key = k.name := by
      simpa [Omits] using homits
    obtain ⟨s, hs, hformat⟩ := ho.typed x hx k hk
    refine ⟨s, hformat, ?_, fun h => absurd h homits⟩
    intro y hy hyk
    rwa [hsingle.eq hy hx hyk hk]

theorem exists_told {o : ObjectText} (ho : RightTyped o) (hsingle : Single o) :
    ∃ c, Agrees c o.members ∧ Tells o c := by
  choose text hformat hgiven homitted using exists_text ho hsingle
  obtain ⟨c, hc⟩ := exists_textOf text (hformat .format rfl)
  have hagree : Agrees c o.members := by
    intro x hx k hk
    rw [hc]
    exact hgiven k x hx hk
  refine ⟨c, hagree, ?_, ?_⟩
  · rintro k s ⟨x, hx, hk, hs⟩
    exact (hagree x hx k hk).unique hs
  · intro k hk
    rw [hc, homitted k hk]

/-- Objects that give the same tell the same. -/
theorem Tells.unique {o o' : ObjectText} {c c' : Config} (h : Tells o c) (h' : Tells o' c')
    (ho : RightTyped o) (ho' : RightTyped o') (hsame : ∀ k s, Gives o k s ↔ Gives o' k s) :
    c = c' := by
  apply eq_of_textOf
  intro k
  by_cases homits : Omits o k
  · have homits' : Omits o' k := by
      intro x hx hk
      obtain ⟨s, hs, -⟩ := ho'.typed x hx k hk
      obtain ⟨y, hy, hyk, -⟩ := (hsame k s).2 ⟨x, hx, hk, hs⟩
      exact homits y hy hyk
    rw [h.omitted homits, h'.omitted homits']
  · obtain ⟨x, hx, hk⟩ : ∃ x ∈ o.members, x.key = k.name := by
      simpa [Omits] using homits
    obtain ⟨s, hs, -⟩ := ho.typed x hx k hk
    have hgives : Gives o k s := ⟨x, hx, hk, hs⟩
    rw [h.given hgives, h'.given ((hsame k s).1 hgives)]

/-! ## Objects of one configuration -/

section
variable {o : ObjectText} {c : Config} (h : Agrees c o.members)
include h

theorem rightTyped_of_agrees (ho : o.WellFormed) : RightTyped o where
  wellFormed := ho
  typed := by
    intro x hx k hk
    refine ⟨c.textOf k, h x hx k hk, ?_⟩
    rintro rfl
    exact ⟨c.format, rfl⟩

theorem gives_iff {k : Field} {s : List Char} :
    Gives o k s ↔ k ∈ fields o.members ∧ c.textOf k = s := by
  rw [mem_fields]
  constructor
  · rintro ⟨x, hx, hk, hs⟩
    exact ⟨⟨x, hx, hk⟩, (h x hx k hk).unique hs⟩
  · rintro ⟨⟨x, hx, hk⟩, rfl⟩
    exact ⟨x, hx, hk, h x hx k hk⟩

end

/-! ## Files -/

theorem loadFrom_object {f : Files} {p : Path} {o : ObjectText}
    (h : f.read p = .ok (encode o.text)) :
    loadFrom f p = match read (encode o.text) with
      | .error fault => .error (.invalid p fault)
      | .ok c => .ok c := by
  cases hread : read (encode o.text) <;>
    simp only [loadFrom, h, ofFile, Utf8.decode?_encode, hread]

/-- **Layout is irrelevant**: a file with an object of the right types that gives no field twice
loads as the configuration that the object tells. So files load the same whose objects give the same
for each field, in whatever order and among whatever other members. A file with an object that gives
a field twice is at fault. -/
theorem layout_irrelevant :
    (∀ o : ObjectText, RightTyped o → Single o →
      ∃ c, Tells o c ∧ ∀ f p, f.read p = .ok (encode o.text) → loadFrom f p = .ok c) ∧
    (∀ o o' : ObjectText, RightTyped o → Single o → RightTyped o' → Single o' →
      (∀ k s, Gives o k s ↔ Gives o' k s) →
      ∀ f g p q, f.read p = .ok (encode o.text) → g.read q = .ok (encode o'.text) →
        loadFrom f p = loadFrom g q) ∧
    ∀ o : ObjectText, o.WellFormed → ¬ Single o →
      ∀ f p, f.read p = .ok (encode o.text) → ∃ fault, loadFrom f p = .error (.invalid p fault) := by
  have hloads : ∀ o : ObjectText, RightTyped o → Single o →
      ∃ c, Tells o c ∧ ∀ f p, f.read p = .ok (encode o.text) → loadFrom f p = .ok c := by
    intro o ho hsingle
    obtain ⟨c, hagree, htells⟩ := exists_told ho hsingle
    have hread : read (encode o.text) = .ok c :=
      read_told ho.wellFormed hagree (single_iff.1 hsingle)
        fun k hk => htells.omitted (omits_iff.2 hk)
    refine ⟨c, htells, ?_⟩
    intro f p h
    rw [loadFrom_object h, hread]
  refine ⟨hloads, ?_, ?_⟩
  · intro o o' ho hsingle ho' hsingle' hsame f g p q hf hg
    obtain ⟨c, htells, hload⟩ := hloads o ho hsingle
    obtain ⟨c', htells', hload'⟩ := hloads o' ho' hsingle'
    rw [hload f p hf, hload' g q hg, htells.unique htells' ho ho' hsame]
  · intro o ho hrepeated f p h
    rw [loadFrom_object h]
    cases hread : read (encode o.text) with
    | error fault => exact ⟨fault, rfl⟩
    | ok c => exact absurd (single_iff.2 (read_nodup ho hread)) hrepeated

/-! ## A laid out file -/

open Json (quote Item)

/-- The prompt, its key and its value escaped. -/
def escapedPrompt : Json.Member where
  before := ['\n', '\t']
  key := "prompt".toList
  quoted := "\"\\u0070rompt\"".toList
  gap := [' ']
  value := "\"\\uD83d\\uDE00\"".toList

def nullPrompt : Json.Member where
  key := "prompt".toList
  quoted := quote "prompt".toList
  gap := [' ']
  value := "null".toList

/-- A list for a name that is not known, and in the list an object with a name that is. -/
def nested : Json.Member where
  key := "more".toList
  quoted := quote "more".toList
  inner := ['\r']
  value := Json.enclosed .list (List.map Item.text [⟨[], "-0.5E+007".toList, [' ']⟩,
    ⟨[], Json.enclosed .object ([nullPrompt].map (·.item.text)) [], []⟩]) []

def smiling : Config where
  prompt := ['😀']

/-- The prompt by itself. -/
def promptAlone : ObjectText where
  members := [smiling.line .prompt]

def promptNested : ObjectText where
  opening := [' ']
  members := [nested, escapedPrompt, nested]
  inside := ['\n']
  ending := ['\n']

def promptTwice : ObjectText where
  members := [escapedPrompt, nested, smiling.line .prompt]

theorem escapedPrompt_value : Quoted ['😀'] escapedPrompt.value := by
  have hhigh : Json.HexUnit "D83d".toList 0xD83D :=
    .digits (i := 13) (j := 8) (k := 3) (l := 13) (by decide) (by decide) (by decide) (by decide)
  have hlow : Json.HexUnit "DE00".toList 0xDE00 :=
    .digits (i := 13) (j := 14) (k := 0) (l := 0) (by decide) (by decide) (by decide) (by decide)
  exact ⟨_, .cons (.pair (by decide) hhigh hlow) .nil, rfl⟩

theorem escapedPrompt_wellFormed : escapedPrompt.WellFormed where
  before := by decide
  key := by
    have hunit : Json.HexUnit "0070".toList 0x70 :=
      .digits (i := 0) (j := 0) (k := 7) (l := 0) (by decide) (by decide) (by decide) (by decide)
    exact ⟨_, .cons (.unit hunit) (Json.spells_escape "rompt".toList), rfl⟩
  gap := by decide
  inner := by decide
  value := .string escapedPrompt_value
  after := by decide

theorem nullPrompt_wellFormed : nullPrompt.WellFormed where
  before := by decide
  key := Json.quoted_quote _
  gap := by decide
  inner := by decide
  value := .null
  after := by decide

theorem nested_wellFormed : nested.WellFormed where
  before := by decide
  key := Json.quoted_quote _
  gap := by decide
  inner := by decide
  value := by
    have hexponent : Json.Exponent ('E' :: (['+'] ++ "007".toList)) :=
      .some (by decide) (by decide) (by decide)
    have hnumber : Json.Unsigned (['0'] ++ (['.', '5'] ++ 'E' :: (['+'] ++ "007".toList))) :=
      .parts (by decide) (by decide) (.some (by decide)) hexponent
    have hobject := Json.isValue_object (List.forall_mem_singleton.2 nullPrompt_wellFormed)
      (List.forall_mem_nil _)
    refine .bracket .list ?_ ?_ ?_ (by decide)
    · simp only [List.forall_mem_cons, List.not_mem_nil, false_imp_iff, implies_true, and_true]
      exact ⟨.list (by decide), .list (by decide)⟩
    · simp only [List.forall_mem_cons, List.not_mem_nil, false_imp_iff, implies_true, and_true]
      exact ⟨.negative hnumber, hobject⟩
    · simp only [List.forall_mem_cons, List.not_mem_nil, false_imp_iff, implies_true, and_true]
      decide
  after := by decide

theorem promptAlone_wellFormed : promptAlone.WellFormed where
  opening := by decide
  members := List.forall_mem_singleton.2 (smiling.line_wellFormed .prompt)
  inside := by decide
  ending := by decide

theorem promptNested_wellFormed : promptNested.WellFormed where
  opening := by decide
  members := by
    simp only [promptNested, List.forall_mem_cons, List.not_mem_nil, false_imp_iff, implies_true,
      and_true]
    exact ⟨nested_wellFormed, escapedPrompt_wellFormed, nested_wellFormed⟩
  inside := by decide
  ending := by decide

theorem promptTwice_wellFormed : promptTwice.WellFormed where
  opening := by decide
  members := by
    simp only [promptTwice, List.forall_mem_cons, List.not_mem_nil, false_imp_iff, implies_true,
      and_true]
    exact ⟨escapedPrompt_wellFormed, nested_wellFormed, smiling.line_wellFormed .prompt⟩
  inside := by decide
  ending := by decide

theorem agrees_promptAlone : Agrees smiling promptAlone.members := by
  intro x hx
  exact smiling.agrees_line x (by simp_all [promptAlone, Field.all])

theorem agrees_promptNested : Agrees smiling promptNested.members := by
  have hnested : ∀ k : Field, nested.key = k.name → Quoted (smiling.textOf k) nested.value := by
    intro k hk
    cases k <;> exact absurd hk (by decide)
  have hprompt : ∀ k : Field, escapedPrompt.key = k.name →
      Quoted (smiling.textOf k) escapedPrompt.value := by
    intro k hk
    have hfound : Field.ofName? escapedPrompt.key = some k := ofName?_iff.2 hk
    obtain rfl : .prompt = k := Option.some.inj hfound
    exact escapedPrompt_value
  simp only [Agrees, promptNested, List.forall_mem_cons, List.not_mem_nil, false_imp_iff,
    implies_true, and_true]
  exact ⟨hnested, hprompt, hnested⟩

/-- The prompt escaped among lists with other prompts inside loads like the prompt alone, and the
prompt given twice does not load. -/
theorem layout_irrelevant_nested :
    RightTyped promptNested ∧ Single promptNested ∧ RightTyped promptAlone ∧ Single promptAlone ∧
    (∀ k s, Gives promptNested k s ↔ Gives promptAlone k s) ∧
    promptTwice.WellFormed ∧ ¬ Single promptTwice ∧
    (∃ c, Tells promptNested c ∧ loadFrom (Command.inPlace (encode promptNested.text))
      (Command.word "lox.json") = .ok c) ∧
    loadFrom (Command.inPlace (encode promptNested.text)) (Command.word "lox.json") =
      loadFrom (Command.inPlace (encode promptAlone.text)) (Command.word "lox.json") ∧
    ∃ fault, loadFrom (Command.inPlace (encode promptTwice.text)) (Command.word "lox.json") =
      .error (.invalid (Command.word "lox.json") fault) := by
  have hread : ∀ content, (Command.inPlace content).read (Command.word "lox.json") = .ok content :=
    fun _ => rfl
  have hnested := rightTyped_of_agrees agrees_promptNested promptNested_wellFormed
  have halone := rightTyped_of_agrees agrees_promptAlone promptAlone_wellFormed
  have hsingle : Single promptNested := single_iff.2 (by decide)
  have hsingle' : Single promptAlone := single_iff.2 (by decide)
  have htwice : ¬ Single promptTwice := fun h => absurd (single_iff.1 h) (by decide)
  have hsame : ∀ k s, Gives promptNested k s ↔ Gives promptAlone k s := by
    have hfields : ∀ k, k ∈ fields promptNested.members ↔ k ∈ fields promptAlone.members := by
      intro k
      cases k <;> decide
    intro k s
    rw [gives_iff agrees_promptNested, gives_iff agrees_promptAlone, hfields]
  obtain ⟨hload, hequal, hfails⟩ := layout_irrelevant
  obtain ⟨c, htells, hc⟩ := hload promptNested hnested hsingle
  exact ⟨hnested, hsingle, halone, hsingle', hsame, promptTwice_wellFormed, htwice,
    ⟨c, htells, hc _ _ (hread _)⟩,
    hequal _ _ hnested hsingle halone hsingle' hsame _ _ _ _ (hread _) (hread _),
    hfails _ promptTwice_wellFormed htwice _ _ (hread _)⟩

end Config
end Lox

import Lox.Proofs.Content
import Lox.Proofs.JsonLayout
import Lox.Token.Record

/-!
# The JSON echo loses nothing

The echo of the tokens as JSON is a JSON text, and reading it gives a list with one object for each
token. The object tells the whole token: text comes back as it was, a finite number with all its
bits, and an infinite one, which is written as null, is known from its kind. So texts with the same
echo have the same tokens.

Results:
* `reads_scalar`, `reads_record`: the values of a record and their two layouts.
* `Token.ToldBy`: what the object of a token says about it; it says it of no other token
  (`Token.ToldBy.unique`).
* `json_echo_reads`: the echo is read back as the tokens.
-/
namespace Lox

open Utf8 (encode)
open Binary64 (infinity)

namespace Json

/-! ## Plain values -/

/-- What a plain value is read back as. -/
inductive Scalar.ReadAs : Scalar → Value → Prop
  | null : ReadAs .null .null
  | text (s : List Char) : ReadAs (.text s) (.text s)
  | number {x : Binary64} {v : Value} : x.isFinite = true → v.float? = some x → v ≠ .null →
      ReadAs (.number x) v
  | notFinite {x : Binary64} : x.isFinite = false → ReadAs (.number x) .null
  | count (n : Nat) : ReadAs (.count n) (.number false ⟨n, 0⟩)

theorem reads_count (depth n : Nat) :
    Reads (Value.reader (depth + 1)) (Nat.toDigits 10 n) (.number false ⟨n, 0⟩) := by
  have hformed : Numeral.WellFormed ⟨Nat.toDigits 10 n, [], none⟩ := by
    refine ⟨toDigits_digits n, ?_, fun c hc => by cases hc⟩
    rcases Nat.eq_zero_or_pos n with rfl | hn
    · exact .inl rfl
    · exact .inr (toDigits_lead hn)
  have hdecimal : Numeral.decimal ⟨Nat.toDigits 10 n, [], none⟩ = ⟨n, 0⟩ := by
    simp [Numeral.decimal]
  have hreads := reads_numeral depth hformed false
  rw [hdecimal] at hreads
  simpa [Numeral.text] using hreads

theorem reads_finite {x : Binary64} (h : x.isFinite = true) :
    ∃ v : Value, v.float? = some x ∧ v ≠ .null ∧
      ∀ depth, Reads (Value.reader (depth + 1)) (number x) v := by
  have hsmall : x.magnitude < infinity := of_decide_eq_true h
  have hnan : x.isNaN = false := decide_eq_false (Nat.lt_asymm hsmall)
  obtain ⟨n, htext, hformed, hrounds, -⟩ := style.magnitude_numeral x.magnitude
  have hnearest : n.decimal.nearest = x.magnitude := by
    rw [Decimal.nearest_of_rounds hrounds, Nat.min_eq_left (Nat.le_of_lt hsmall)]
  have hfloat : (Value.number x.isNegative n.decimal).float? = some x := by
    rw [Value.float?, hnearest, Binary64.ofMagnitude_magnitude]
  refine ⟨.number x.isNegative n.decimal, hfloat, Value.noConfusion, ?_⟩
  intro depth
  rw [number, if_pos h, Decimal.Style.write, hnan, h, htext]
  cases x.isNegative with
  | false => exact reads_numeral depth hformed _
  | true => exact reads_negative depth hformed _

theorem reads_scalar (s : Scalar) :
    ∃ v, s.ReadAs v ∧ ∀ depth, Reads (Value.reader (depth + 1)) s.write v := by
  cases s with
  | null => exact ⟨_, .null, reads_null⟩
  | text s => exact ⟨_, .text s, fun depth => reads_quote depth s⟩
  | number x =>
    cases h : x.isFinite with
    | true =>
      obtain ⟨v, hfloat, hnull, hreads⟩ := reads_finite h
      exact ⟨v, .number h hfloat hnull, hreads⟩
    | false =>
      refine ⟨.null, .notFinite h, ?_⟩
      intro depth
      rw [Scalar.write, number, h]
      exact reads_null depth
  | count n => exact ⟨_, .count n, fun depth => reads_count depth n⟩

/-! ## Layouts -/

/-- A line feed, and two blanks for each level. -/
def newLine (level : Nat) : List Char := '\n' :: List.replicate (2 * level) ' '

theorem blanks_newLine (level : Nat) : Blanks (newLine level) := by
  intro c hc
  rcases List.mem_cons.1 hc with rfl | hc
  · rfl
  · rw [List.eq_of_mem_replicate hc]
    rfl

theorem compactList_eq (o : Bracket) (items : List (List Char)) :
    compactList o.marks.1 o.marks.2 items = enclosed o items [] := by
  rw [compactList, enclosed, List.append_nil]

theorem prettyList_eq (o : Bracket) (depth : Nat) (items : List (List Char)) :
    prettyList depth o.marks.1 o.marks.2 items =
      enclosed o (items.map (newLine (depth + 1) ++ ·))
        (if items = [] then [] else newLine depth) := by
  cases items with
  | nil => rfl
  | cons item items => rfl

theorem blanks_ending (items : List (List Char)) (depth : Nat) :
    Blanks (if items = [] then [] else newLine depth) := by
  split
  · intro c hc
    cases hc
  · exact blanks_newLine depth

/-- **Both layouts of a record** are read back as the same object. -/
theorem reads_record (r : Record) :
    ∃ ms : List (List Char × Value),
      List.Forall₂ (fun m m' => m'.1 = m.1 ∧ m.2.ReadAs m'.2) r ms ∧
        (∀ depth level, Reads (Value.reader (depth + 2)) (r.pretty level) (.object ms)) ∧
        ∀ depth, Reads (Value.reader (depth + 2)) r.compact (.object ms) := by
  choose f hf hreads using reads_scalar
  refine ⟨r.map fun m => (m.1, f m.2), ?_, ?_, ?_⟩
  · rw [List.forall₂_map_right_iff, List.forall₂_same]
    exact fun m _ => ⟨rfl, hf m.2⟩
  · intro depth level
    have hskips := reader_skipsBlanks (depth + 1)
    have hmember := (Value.reader (depth + 1)).member_skipsBlanks
    have hgap : Blanks [' '] := List.forall_mem_singleton.2 rfl
    rw [Record.pretty]
    change Reads _ (prettyList level Bracket.object.marks.1 Bracket.object.marks.2 _) _
    rw [prettyList_eq]
    refine reads_object ?_ (blanks_ending _ _)
    rw [List.map_map, List.forall₂_map_left_iff, List.forall₂_map_right_iff, List.forall₂_same]
    intro m _
    refine Reads.after_blanks hmember ?_ (blanks_newLine _)
    exact reads_member hskips (hreads m.2 depth) hgap m.1
  · intro depth
    have hskips := reader_skipsBlanks (depth + 1)
    have hgap : Blanks [] := List.forall_mem_nil _
    rw [Record.compact]
    change Reads _ (compactList Bracket.object.marks.1 Bracket.object.marks.2 _) _
    rw [compactList_eq]
    refine reads_object ?_ hgap
    rw [List.forall₂_map_left_iff, List.forall₂_map_right_iff, List.forall₂_same]
    intro m _
    exact reads_member hskips (hreads m.2 depth) hgap m.1

/-! ## Whole texts -/

theorem read_compact {r : Record} {v : Value}
    (h : ∀ depth, Reads (Value.reader (depth + 2)) r.compact v) :
    Value.read (encode r.compact) = .ok v := by
  have hlength : 2 ≤ (encode (r.compact ++ [])).length := by
    refine Nat.le_trans ?_ (Utf8.length_le_encode _)
    simp [Record.compact, compactList]
  have hread := read_of_reads h (List.forall_mem_nil _) hlength
  rwa [List.append_nil] at hread

theorem reads_prettyAll {rs : List Record} {vs : List Value}
    (h : List.Forall₂ (fun r v => ∀ depth, Reads (Value.reader (depth + 2)) (r.pretty 1) v) rs vs)
    (depth : Nat) : Reads (Value.reader (depth + 3)) (Record.prettyAll rs) (.list vs) := by
  rw [Record.prettyAll]
  change Reads _ (prettyList 0 Bracket.list.marks.1 Bracket.list.marks.2 _) _
  rw [prettyList_eq]
  refine reads_list ?_ (blanks_ending _ _)
  rw [List.map_map, List.forall₂_map_left_iff]
  refine h.imp ?_
  intro r v hr
  exact Reads.after_blanks (reader_skipsBlanks _) (hr depth) (blanks_newLine _)

theorem read_prettyAll {rs : List Record} {vs : List Value}
    (h : List.Forall₂ (fun r v => ∀ depth, Reads (Value.reader (depth + 2)) (r.pretty 1) v) rs vs) :
    Value.read (encode (Record.prettyAll rs ++ ['\n'])) = .ok (.list vs) := by
  have hlength : 3 ≤ (encode (Record.prettyAll rs ++ ['\n'])).length := by
    refine Nat.le_trans ?_ (Utf8.length_le_encode _)
    unfold Record.prettyAll prettyList
    simp only
    split
    · simp
    · simp
  exact read_of_reads (reads_prettyAll h) (List.forall_mem_singleton.2 rfl) hlength

end Json

/-! ## Tokens -/

theorem ofName_name : ∀ k ∈ Kind.all, Kind.ofName? k.name = some k := by decide +kernel

theorem mem_allKinds (k : Kind) : k ∈ Kind.all := by
  cases k with
  | symbol s =>
    have hs : Kind.symbol s ∈ Symbol.all.map Kind.symbol := List.mem_map_of_mem s.mem_all
    exact List.mem_append_left _ (List.mem_append_left _ (List.mem_append_left _ hs))
  | keyword w =>
    have hw : Kind.keyword w ∈ Keyword.all.map Kind.keyword := List.mem_map_of_mem w.mem_all
    exact List.mem_append_left _ (List.mem_append_right _ hw)
  | _ => decide

theorem kindName_injective {k l : Kind} (h : k.name = l.name) : k = l := by
  have hk := ofName_name k (mem_allKinds k)
  rw [h, ofName_name l (mem_allKinds l)] at hk
  exact (Option.some.inj hk).symm

theorem blank_notMem_name (k : Kind) : ' ' ∉ k.name := by
  cases k with
  | symbol s => cases s <;> decide
  | keyword w => cases w <;> decide
  | _ => decide

/-- The echo of a token as text starts with the name of its kind. -/
theorem echo_kind (t : Token) : t.echo.takeWhile (· != ' ') = t.kind.name := by
  exact takeWhile_of_breaks (bne_of_notMem (blank_notMem_name t.kind)) (breaks_cons.2 rfl)

/-- What value a token has, by its kind. -/
inductive Token.Valued : Token → Prop
  | string (body : List Char) (place : Position) :
      Valued ⟨.string, '"' :: (body ++ ['"']), some (.string body), place⟩
  | number (lexeme : List Char) {m : Nat} (hm : m ≤ infinity) (place : Position) :
      Valued ⟨.number, lexeme, some (.number (.ofMagnitude false m)), place⟩
  | plain {kind : Kind} (lexeme : List Char) (hstring : kind ≠ .string) (hnumber : kind ≠ .number)
      (place : Position) : Valued ⟨kind, lexeme, none, place⟩

theorem ofWord_plain (text : List Char) :
    Kind.ofWord text ≠ .string ∧ Kind.ofWord text ≠ .number := by
  unfold Kind.ofWord
  cases Keyword.ofWord? text with
  | none => exact ⟨Kind.noConfusion, Kind.noConfusion⟩
  | some w => exact ⟨Kind.noConfusion, Kind.noConfusion⟩

theorem valued_finding {p : Position} {q : Piece} {t : Token}
    (h : q.finding? p = some (.token t)) : t.Valued := by
  cases q with
  | string body =>
    cases h
    exact .string body p
  | number whole fraction =>
    cases h
    exact .number _ (Binary64.nearest_le _ _) p
  | word text =>
    cases h
    exact .plain text (ofWord_plain text).1 (ofWord_plain text).2 p
  | symbol s =>
    cases h
    exact .plain _ Kind.noConfusion Kind.noConfusion p
  | _ => cases h

theorem valued_scan (source : List Char) : ∀ t ∈ (scan source).tokens, t.Valued := by
  intro t ht
  rcases token_cases ht with rfl | ⟨q, p, -, hq⟩
  · exact .plain [] Kind.noConfusion Kind.noConfusion _
  · exact valued_finding hq

/-- How the value of a token is told, by its kind. -/
structure Token.LiteralToldBy (t : Token) (v : Json.Value) : Prop where
  string : t.kind = .string → ∃ body, t.lexeme = '"' :: (body ++ ['"']) ∧
    t.literal = some (.string body) ∧ v = .text body
  number : t.kind = .number → ∃ x, t.literal = some (.number x) ∧
    (x.isFinite = true → v.float? = some x) ∧
    (x.isFinite = false → x = .ofMagnitude false infinity)
  plain : t.kind ≠ .string → t.kind ≠ .number → t.literal = none
  null : v = .null ↔ t.literal = none ∨ t.literal = some (.number (.ofMagnitude false infinity))

/-- What the object of a token says about it. The kind is told by the first word of the echo as
text. -/
structure Token.ToldBy (t : Token) (v : Json.Value) : Prop where
  names : ∃ ms, v = .object ms ∧ ms.map Prod.fst = t.record.map Prod.fst
  kind : v.member? "kind".toList = some (.text t.kind.name)
  echoed : t.echo.takeWhile (· != ' ') = t.kind.name
  lexeme : v.member? "lexeme".toList = some (.text t.lexeme)
  literal : ∃ w, v.member? "literal".toList = some w ∧ t.LiteralToldBy w
  line : v.member? "line".toList = some (.number false ⟨t.start.line, 0⟩)
  column : v.member? "column".toList = some (.number false ⟨t.start.column, 0⟩)
  length : v.member? "length".toList = some (.number false ⟨t.length, 0⟩)

theorem literalToldBy {t : Token} (ht : t.Valued) {v : Json.Value}
    (h : ((t.literal.map Literal.scalar).getD .null).ReadAs v) : t.LiteralToldBy v := by
  cases ht with
  | string body place =>
    cases h
    refine ⟨fun _ => ⟨body, rfl, rfl, rfl⟩, Kind.noConfusion, fun hs => absurd rfl hs, ?_⟩
    constructor
    · intro hv
      cases hv
    · rintro (hl | hl) <;> cases hl
  | plain lexeme hstring hnumber place =>
    cases h
    exact ⟨fun hs => absurd hs hstring, fun hn => absurd hn hnumber, fun _ _ => rfl,
      fun _ => .inl rfl, fun _ => rfl⟩
  | @number lexeme m hm place =>
    have hinfinite : (Binary64.ofMagnitude false m).isFinite = false → m = infinity := by
      intro hf
      have hnot : ¬ m < infinity := by
        rw [← Binary64.isFinite_ofMagnitude hm, hf]
        exact Bool.false_ne_true
      omega
    refine ⟨Kind.noConfusion, fun _ => ⟨_, rfl, ?_, fun hf => by rw [hinfinite hf]⟩,
      fun _ hn => absurd rfl hn, ?_⟩
    · intro hf
      cases h with
      | number _ hfloat _ => exact hfloat
      | notFinite hfinite =>
        rw [hf] at hfinite
        cases hfinite
    · cases h with
      | number hf _ hnull =>
        refine ⟨fun hv => absurd hv hnull, ?_⟩
        rintro (hl | hl)
        · cases hl
        · have hbits := Literal.number.inj (Option.some.inj hl)
          rw [hbits, Binary64.isFinite_ofMagnitude (Nat.le_refl _)] at hf
          exact absurd hf (Nat.lt_irrefl _)
      | notFinite hf => exact ⟨fun _ => .inr (by rw [hinfinite hf]), fun _ => rfl⟩

theorem toldBy_record {t : Token} (ht : t.Valued) {ms : List (List Char × Json.Value)}
    (h : List.Forall₂ (fun m m' => m'.1 = m.1 ∧ m.2.ReadAs m'.2) t.record ms) :
    t.ToldBy (.object ms) := by
  simp only [Token.record, List.forall₂_cons_left_iff, List.forall₂_nil_left_iff] at h
  obtain ⟨⟨_, _⟩, _, ⟨rfl, hkind⟩, ⟨⟨_, _⟩, _, ⟨rfl, hlexeme⟩, ⟨⟨_, v⟩, _, ⟨rfl, hliteral⟩,
    ⟨⟨_, _⟩, _, ⟨rfl, hline⟩, ⟨⟨_, _⟩, _, ⟨rfl, hcolumn⟩, ⟨⟨_, _⟩, _, ⟨rfl, hlength⟩, rfl, rfl⟩,
    rfl⟩, rfl⟩, rfl⟩, rfl⟩, rfl⟩ := h
  cases hkind
  cases hlexeme
  cases hline
  cases hcolumn
  cases hlength
  exact ⟨⟨_, rfl, rfl⟩, rfl, echo_kind t, rfl, ⟨v, rfl, literalToldBy ht hliteral⟩, rfl, rfl, rfl⟩

/-- A value tells one literal of tokens of one kind. -/
theorem literal_unique {t u : Token} {v : Json.Value} (ht : t.LiteralToldBy v)
    (hu : u.LiteralToldBy v) (hkind : t.kind = u.kind) : t.literal = u.literal := by
  by_cases hstring : t.kind = .string
  · obtain ⟨body, -, hbody, hv⟩ := ht.string hstring
    obtain ⟨body', -, hbody', hv'⟩ := hu.string (hkind ▸ hstring)
    obtain rfl := Json.Value.text.inj (hv.symm.trans hv')
    rw [hbody, hbody']
  by_cases hnumber : t.kind = .number
  · obtain ⟨x, hx, hfinite, hinfinite⟩ := ht.number hnumber
    obtain ⟨y, hy, hfinite', hinfinite'⟩ := hu.number (hkind ▸ hnumber)
    rw [hx, hy]
    cases hxf : x.isFinite with
    | true =>
      cases hyf : y.isFinite with
      | true =>
        have hxy := (hfinite hxf).symm.trans (hfinite' hyf)
        rw [Option.some.inj hxy]
      | false =>
        -- An infinite number is told by null, which tells no finite one.
        have hnull := hu.null.2 (.inr (by rw [hy, hinfinite' hyf]))
        have hfloat := hfinite hxf
        rw [hnull] at hfloat
        cases hfloat
    | false =>
      cases hyf : y.isFinite with
      | true =>
        have hnull := ht.null.2 (.inr (by rw [hx, hinfinite hxf]))
        have hfloat := hfinite' hyf
        rw [hnull] at hfloat
        cases hfloat
      | false => rw [hinfinite hxf, hinfinite' hyf]
  · rw [ht.plain hstring hnumber, hu.plain (hkind ▸ hstring) (hkind ▸ hnumber)]

/-- **An object tells one token only.** -/
theorem Token.ToldBy.unique {t u : Token} {v : Json.Value} (ht : t.ToldBy v) (hu : u.ToldBy v) :
    t = u := by
  have hkind := kindName_injective
    (Json.Value.text.inj (Option.some.inj (ht.kind.symm.trans hu.kind)))
  have hlexeme := Json.Value.text.inj (Option.some.inj (ht.lexeme.symm.trans hu.lexeme))
  have hline := Option.some.inj (ht.line.symm.trans hu.line)
  have hcolumn := Option.some.inj (ht.column.symm.trans hu.column)
  obtain ⟨w, hw, hliteral⟩ := ht.literal
  obtain ⟨w', hw', hliteral'⟩ := hu.literal
  obtain rfl := Option.some.inj (hw.symm.trans hw')
  have hvalue := literal_unique hliteral hliteral' hkind
  obtain ⟨kind, lexeme, literal, line, column⟩ := t
  obtain ⟨kind', lexeme', literal', line', column'⟩ := u
  cases hkind
  cases hlexeme
  cases hvalue
  cases hline
  cases hcolumn
  rfl

/-! ## The echo -/

/-- The objects that the tokens of a scan are echoed as. -/
theorem echoed_values {ts : List Token} (h : ∀ t ∈ ts, t.Valued) :
    ∃ values : List Json.Value,
      List.Forall₂ (fun t v => t.ToldBy v ∧ Json.Value.read (encode t.record.compact) = .ok v ∧
        ∀ depth, Json.Reads (Json.Value.reader (depth + 2)) (t.record.pretty 1) v) ts values := by
  induction ts with
  | nil => exact ⟨[], .nil⟩
  | cons t ts ih =>
    obtain ⟨ht, hts⟩ := List.forall_mem_cons.1 h
    obtain ⟨values, hvalues⟩ := ih hts
    obtain ⟨ms, hms, hpretty, hcompact⟩ := Json.reads_record t.record
    have hread := Json.read_compact hcompact
    exact ⟨.object ms :: values,
      .cons ⟨toldBy_record ht hms, hread, fun depth => hpretty depth 1⟩ hvalues⟩

theorem echo_told {ts : List Token} (h : ∀ t ∈ ts, t.Valued) :
    ∃ values : List Json.Value,
      Json.Value.read (encode (Format.json.echo ts)) = .ok (.list values) ∧
        List.Forall₂ (fun t v => t.ToldBy v ∧ Json.Value.read (encode t.record.compact) = .ok v)
          ts values := by
  obtain ⟨values, hvalues⟩ := echoed_values h
  refine ⟨values, Json.read_prettyAll ?_, hvalues.imp fun t v hv => ⟨hv.1, hv.2.1⟩⟩
  rw [List.forall₂_map_left_iff]
  exact hvalues.imp fun t v hv => hv.2.2

/-- Lists of tokens with one echo are the same. -/
theorem echo_injective {ts us : List Token} (ht : ∀ t ∈ ts, t.Valued) (hu : ∀ u ∈ us, u.Valued)
    (h : Format.json.echo ts = Format.json.echo us) : ts = us := by
  obtain ⟨values, hread, htold⟩ := echo_told ht
  obtain ⟨values', hread', htold'⟩ := echo_told hu
  rw [h, hread'] at hread
  obtain rfl := Json.Value.list.inj (Except.ok.inj hread)
  have hunique : Relator.LeftUnique Token.ToldBy := fun _ _ _ h h' => h.unique h'
  exact List.left_unique_forall₂' hunique (htold.imp fun _ _ h => h.1) (htold'.imp fun _ _ h => h.1)

/-- **The JSON echo** of a text is read back as one object for each token, in order, which the
compact form of the token is read as too; and texts with one echo have the same tokens. -/
theorem json_echo_reads (source : List Char) :
    (∃ values : List Json.Value,
      Json.Value.read (encode (Format.json.echo (scan source).tokens)) = .ok (.list values) ∧
        List.Forall₂ (fun t v => t.ToldBy v ∧ Json.Value.read (encode t.record.compact) = .ok v)
          (scan source).tokens values) ∧
      ∀ other, Format.json.echo (scan other).tokens = Format.json.echo (scan source).tokens →
        (scan other).tokens = (scan source).tokens := by
  have hsource := valued_scan source
  exact ⟨echo_told hsource, fun other h => echo_injective (valued_scan other) hsource h⟩

end Lox

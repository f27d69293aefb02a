import Mathlib.Data.List.TakeWhile
import Lox.Scan

/-!
# Which piece a text starts with

A piece is well formed if its characters are those of its class. It stops at a text if the start of
that text cannot make it longer: a number does not stop at a point with a digit behind it, a slash
does not stop at another slash, and an unclosed string stops at the end of everything only.

Results:
* `cut_wellFormed`, `cut_stops`: a cut gives a well-formed piece that stops at what remains.
* `cut_of_stops`, `pieces_of_stops`: a well-formed piece before a text that it stops at is the piece
  that is cut off there, so `cuts_pieces` and `pieces_of_cuts`: the two conditions, for each piece
  in turn, say exactly how a text is cut.
* `eq_of_text_eq`, `text_prefix_of_stops`: a text belongs to one well-formed piece at most, and no
  longer piece could be cut off than the one that is.
* `stops_blank`: every piece stops at a blank, a comment only at its line end.
-/
namespace Lox

/-! ## Tests on characters -/

/-- A test tells two characters apart. -/
theorem ne_of_test {p : Char → Bool} {c d : Char} (hc : p c = true) (hd : p d = false) : c ≠ d := by
  intro he
  rw [he, hd] at hc
  cases hc

theorem bne_of_notMem {d : Char} {cs : List Char} (h : d ∉ cs) : ∀ c ∈ cs, (c != d) = true := by
  intro c hc
  rw [bne_iff_ne]
  intro he
  exact h (he ▸ hc)

/-! ## Texts that do not go on -/

/-- The text is empty or its first character fails the test. -/
def Breaks (p : Char → Bool) (cs : List Char) : Prop := ∀ c ∈ cs.head?, p c = false

theorem breaks_nil (p : Char → Bool) : Breaks p [] := by intro c hc; cases hc

theorem breaks_cons {p : Char → Bool} {c : Char} {cs : List Char} :
    Breaks p (c :: cs) ↔ p c = false := by simp [Breaks]

theorem breaks_dropWhile (p : Char → Bool) (cs : List Char) : Breaks p (cs.dropWhile p) := by
  intro c hc
  have h := List.head?_dropWhile_not p cs
  rw [Option.mem_def.1 hc] at h
  exact h

theorem breaks_mono {p : Char → Bool} {as bs : List Char} (h : as <+: bs)
    (hb : Breaks p bs) : Breaks p as := by
  obtain ⟨cs, rfl⟩ := h
  cases as with
  | nil => exact breaks_nil p
  | cons a as => rw [List.cons_append, breaks_cons] at hb; exact breaks_cons.2 hb

theorem breaks_append {p : Char → Bool} {as bs : List Char} (ha : Breaks p as)
    (hb : Breaks p bs) : Breaks p (as ++ bs) := by
  cases as with
  | nil => exact hb
  | cons a as => exact breaks_cons.2 (breaks_cons.1 ha)

theorem breaks_longer {p : Char → Bool} {as : List Char} (hne : as ≠ []) (h : Breaks p as)
    (bs : List Char) : Breaks p (as ++ bs) := by
  obtain ⟨c, cs, rfl⟩ := List.exists_cons_of_ne_nil hne
  exact breaks_cons.2 (breaks_cons.1 h)

theorem takeWhile_of_breaks {p : Char → Bool} {as bs : List Char} (ha : ∀ a ∈ as, p a = true)
    (hb : Breaks p bs) : (as ++ bs).takeWhile p = as := by
  rw [List.takeWhile_append_of_pos ha]
  cases bs with
  | nil => simp
  | cons b bs => rw [breaks_cons] at hb; simp [hb]

theorem dropWhile_of_breaks {p : Char → Bool} {as bs : List Char} (ha : ∀ a ∈ as, p a = true)
    (hb : Breaks p bs) : (as ++ bs).dropWhile p = bs := by
  rw [List.dropWhile_append_of_pos ha]
  cases bs with
  | nil => rfl
  | cons b bs => rw [breaks_cons] at hb; simp [hb]

namespace Piece

/-! ## Well-formed pieces -/

def Digits (cs : List Char) : Prop := cs ≠ [] ∧ ∀ d ∈ cs, d.isDigit = true

instance (cs : List Char) : Decidable (Digits cs) :=
  @instDecidableAnd _ _ _ (List.decidableBAll (fun d => d.isDigit = true) cs)

/-- A character that starts no token, no comment and no blank. -/
def isStray (c : Char) : Bool :=
  !(isBlank c || isWordChar c || c == '"' || (Symbol.single? c).isSome)

def WellFormed : Piece → Prop
  | blank c => isBlank c = true
  | comment body => '\n' ∉ body
  | string body => '"' ∉ body
  | number whole fraction => Digits whole ∧ ∀ places ∈ fraction, Digits places
  | word text => ∃ c cs, text = c :: cs ∧ isWordStart c = true ∧ ∀ d ∈ cs, isWordChar d = true
  | symbol _ => True
  | unclosed body => '"' ∉ body
  | stray c => isStray c = true

/-- The text cannot make the piece longer. -/
def Stops : Piece → List Char → Prop
  | blank _, _ => True
  | comment _, rest => Breaks (· != '\n') rest
  | string _, _ => True
  | number _ none, rest =>
    Breaks Char.isDigit rest ∧ (rest.head? = some '.' → Breaks Char.isDigit rest.tail)
  | number _ (some _), rest => Breaks Char.isDigit rest
  | word _, rest => Breaks isWordChar rest
  | symbol s, rest =>
    (s.withEqual?.isSome = true → Breaks (· == '=') rest) ∧ (s = .slash → Breaks (· == '/') rest)
  | unclosed _, rest => rest = []
  | stray _, _ => True

theorem stops_mono {q : Piece} {as bs : List Char} (h : as <+: bs) (hs : q.Stops bs) :
    q.Stops as := by
  cases q with
  | blank c => trivial
  | comment body => exact breaks_mono h hs
  | string body => trivial
  | number whole fraction =>
    cases fraction with
    | none =>
      refine ⟨breaks_mono h hs.1, ?_⟩
      obtain ⟨cs, rfl⟩ := h
      cases as with
      | nil => intro he; cases he
      | cons a as =>
        intro he
        exact breaks_mono (List.prefix_append as cs) (hs.2 he)
    | some places => exact breaks_mono h hs
  | word text => exact breaks_mono h hs
  | symbol s =>
    exact ⟨fun he => breaks_mono h (hs.1 he), fun he => breaks_mono h (hs.2 he)⟩
  | unclosed body => rw [show bs = [] from hs] at h; exact List.prefix_nil.1 h
  | stray c => trivial

/-- A piece that stops at two texts stops at the one before the other. -/
theorem stops_append {q : Piece} {as bs : List Char} (ha : q.Stops as) (hb : q.Stops bs) :
    q.Stops (as ++ bs) := by
  cases q with
  | blank c => trivial
  | comment body => exact breaks_append ha hb
  | string body => trivial
  | number whole fraction =>
    cases fraction with
    | none =>
      refine ⟨breaks_append ha.1 hb.1, ?_⟩
      cases as with
      | nil => exact hb.2
      | cons a as =>
        intro he
        exact breaks_append (ha.2 he) hb.1
    | some places => exact breaks_append ha hb
  | word text => exact breaks_append ha hb
  | symbol s =>
    exact ⟨fun he => breaks_append (ha.1 he) (hb.1 he), fun he => breaks_append (ha.2 he) (hb.2 he)⟩
  | unclosed body => exact List.append_eq_nil_iff.2 ⟨ha, hb⟩
  | stray c => trivial

theorem stops_nil (q : Piece) : q.Stops [] := by
  cases q with
  | number whole fraction =>
    cases fraction with
    | none => exact ⟨breaks_nil _, fun _ => breaks_nil _⟩
    | some places => exact breaks_nil _
  | symbol s => exact ⟨fun _ => breaks_nil _, fun _ => breaks_nil _⟩
  | comment body => exact breaks_nil _
  | word text => exact breaks_nil _
  | unclosed body => rfl
  | _ => trivial

theorem text_ne_nil {q : Piece} (hq : q.WellFormed) : q.text ≠ [] := by
  cases q with
  | number whole fraction => cases fraction <;> simp [text, hq.1.1]
  | word text => obtain ⟨c, cs, rfl, -⟩ := hq; simp [Piece.text]
  | symbol s => cases s <;> simp [text, Symbol.spelling]
  | _ => simp [text]

/-! ## First characters -/

theorem isDigit_of_isBlank {c : Char} (h : isBlank c = true) : c.isDigit = false := by
  simp only [isBlank, Bool.or_eq_true, beq_iff_eq] at h
  rcases h with ((rfl | rfl) | rfl) | rfl <;> rfl

theorem isWordChar_of_isBlank {c : Char} (h : isBlank c = true) : isWordChar c = false := by
  simp only [isBlank, Bool.or_eq_true, beq_iff_eq] at h
  rcases h with ((rfl | rfl) | rfl) | rfl <;> rfl

/-- Every piece stops at a blank but one that is open: a comment goes on to its line end, and an
unclosed string to the end of everything. -/
theorem stops_blank {q : Piece} {c : Char} (h : isBlank c = true)
    (hcomment : ∀ body, q = comment body → c = '\n') (hopen : ∀ body, q ≠ unclosed body)
    (cs : List Char) : q.Stops (c :: cs) := by
  have hdigit : Breaks Char.isDigit (c :: cs) := breaks_cons.2 (isDigit_of_isBlank h)
  cases q with
  | blank d => trivial
  | comment body =>
    rw [hcomment body rfl]
    exact breaks_cons.2 rfl
  | string body => trivial
  | number whole fraction =>
    cases fraction with
    | none =>
      refine ⟨hdigit, ?_⟩
      intro he
      obtain rfl := Option.some.inj he
      cases h
    | some places => exact hdigit
  | word text => exact breaks_cons.2 (isWordChar_of_isBlank h)
  | symbol s =>
    have hne : ∀ d, isBlank d = false → (c == d) = false := fun d hd =>
      beq_eq_false_iff_ne.2 (ne_of_test h hd)
    exact ⟨fun _ => breaks_cons.2 (hne '=' rfl), fun _ => breaks_cons.2 (hne '/' rfl)⟩
  | unclosed body => exact absurd rfl (hopen body)
  | stray d => trivial

/-- Comments and unclosed strings take up what stands behind them. -/
def isOpen : Piece → Bool
  | comment _ => true
  | unclosed _ => true
  | _ => false

theorem stops_of_not_open {q : Piece} {c : Char} (hq : q.isOpen = false) (hc : isBlank c = true)
    (cs : List Char) : q.Stops (c :: cs) := by
  refine stops_blank hc ?_ ?_ cs
  · rintro body rfl
    cases hq
  · rintro body rfl
    cases hq

theorem isWordStart_iff {c : Char} :
    isWordStart c = true ↔
      (65 ≤ c.toNat ∧ c.toNat ≤ 90) ∨ (97 ≤ c.toNat ∧ c.toNat ≤ 122) ∨ c = '_' := by
  have h : isWordStart c = (decide ('A'.val ≤ c.val ∧ c.val ≤ 'Z'.val) ||
      (decide ('a'.val ≤ c.val) && decide (c.val ≤ 'z'.val)) || c == '_') := rfl
  rw [h]
  simp only [Bool.or_eq_true, Bool.and_eq_true, decide_eq_true_eq, beq_iff_eq, or_assoc]
  exact Iff.rfl

theorem isWordStart_of_isDigit {c : Char} (h : c.isDigit = true) : isWordStart c = false := by
  have hd : 48 ≤ c.toNat ∧ c.toNat ≤ 57 := Char.isDigit_iff_toNat.1 h
  rw [Bool.eq_false_iff, ne_eq, isWordStart_iff]
  intro hw
  rcases hw with hw | hw | rfl
  · omega
  · omega
  · exact absurd hd.2 (by decide)

/-- A symbol of one character starts no other class. -/
theorem single_class {s : Symbol} {c : Char} (h : s.spelling = [c]) :
    isBlank c = false ∧ c.isDigit = false ∧ isWordStart c = false ∧ c ≠ '"' := by
  cases s <;> simp only [Symbol.spelling, List.cons.injEq, reduceCtorEq, and_true, and_false] at h <;>
    subst h <;> decide

/-- A symbol has one character, or is such a symbol with `=` behind it. -/
theorem symbol_cases (t : Symbol) :
    (∃ c, t.spelling = [c]) ∨ ∃ (s : Symbol) (c : Char), s.spelling = [c] ∧ s.withEqual? = some t := by
  cases t with
  | bangEqual => exact .inr ⟨.bang, '!', rfl, by decide⟩
  | equalEqual => exact .inr ⟨.equal, '=', rfl, by decide⟩
  | greaterEqual => exact .inr ⟨.greater, '>', rfl, by decide⟩
  | lessEqual => exact .inr ⟨.less, '<', rfl, by decide⟩
  | _ => exact .inl ⟨_, rfl⟩

theorem withEqual?_withEqual? {s t : Symbol} (h : s.withEqual? = some t) :
    t.withEqual? = none ∧ t ≠ .slash := by
  have ht := Symbol.spelling_of_withEqual? h
  constructor
  · cases hw : t.withEqual? with
    | none => rfl
    | some u =>
      have hu := Symbol.spelling_of_withEqual? hw
      rw [ht] at hu
      revert hu
      cases s <;> cases u <;> decide
  · rintro rfl
    revert ht
    cases s <;> decide

/-! ## What a cut gives -/

theorem digits_takeWhile {c : Char} {cs : List Char} (h : c.isDigit = true) :
    Digits ((c :: cs).takeWhile Char.isDigit) := by
  refine ⟨by simp [h], ?_⟩
  intro d hd
  exact List.mem_takeWhile_imp hd

theorem cutFraction_digits (cs : List Char) : ∀ places ∈ (cutFraction cs).1, Digits places := by
  fun_cases cutFraction cs with
  | case1 d cs h =>
    intro places hp
    have hp := Option.some.inj hp
    have hd : Digits ((d :: cs).takeWhile Char.isDigit) := digits_takeWhile h
    rw [List.takeWhile_cons_of_pos h] at hd
    rwa [← hp]
  | case2 d cs h => intro places hp; cases hp
  | case3 cs h => intro places hp; cases hp

theorem cutFraction_stops (whole : List Char) {cs : List Char} (hb : Breaks Char.isDigit cs) :
    (number whole (cutFraction cs).1).Stops (cutFraction cs).2 := by
  fun_cases cutFraction cs with
  | case1 d cs h => exact breaks_dropWhile Char.isDigit cs
  | case2 d cs h =>
    refine ⟨hb, ?_⟩
    intro _
    exact breaks_cons.2 (by simpa using h)
  | case3 cs h =>
    refine ⟨hb, ?_⟩
    intro he d hd
    obtain ⟨ds, rfl⟩ := List.head?_eq_some_iff.1 he
    obtain ⟨es, rfl⟩ := List.head?_eq_some_iff.1 (Option.mem_def.1 hd)
    exact absurd rfl (h d es)

theorem cutNumber_spec {c : Char} {cs : List Char} (h : c.isDigit = true) :
    (cutNumber (c :: cs)).1.WellFormed ∧ (cutNumber (c :: cs)).1.Stops (cutNumber (c :: cs)).2 :=
  ⟨⟨digits_takeWhile h, cutFraction_digits _⟩,
    cutFraction_stops _ (breaks_dropWhile Char.isDigit (c :: cs))⟩

theorem cutString_spec (cs : List Char) :
    (cutString cs).1.WellFormed ∧ (cutString cs).1.Stops (cutString cs).2 := by
  unfold cutString
  split
  · rename_i h
    refine ⟨?_, rfl⟩
    intro hm
    simpa using List.dropWhile_eq_nil_iff.1 h _ hm
  · refine ⟨?_, trivial⟩
    intro hm
    simpa using List.mem_takeWhile_imp hm

theorem cutSymbol_spec {s : Symbol} {c : Char} {cs : List Char} (hc : s.spelling = [c])
    (hslash : ¬ (c = '/' ∧ cs.head? = some '/')) :
    (cutSymbol s cs).1.WellFormed ∧ (cutSymbol s cs).1.Stops (cutSymbol s cs).2 := by
  have hs : ∀ d ∈ cs.head?, s = .slash → (d == '/') = false := by
    rintro d hd rfl
    obtain ⟨rfl, -⟩ := List.cons.inj hc
    rw [beq_eq_false_iff_ne]
    rintro rfl
    exact hslash ⟨rfl, hd⟩
  fun_cases cutSymbol s cs with
  | case1 cs t ht =>
    obtain ⟨h1, h2⟩ := withEqual?_withEqual? ht
    refine ⟨trivial, ?_, fun he => absurd he h2⟩
    intro he
    rw [h1] at he
    cases he
  | case2 cs hn =>
    refine ⟨trivial, ?_, fun he d hd => hs d hd he⟩
    intro he
    rw [hn] at he
    cases he
  | case3 cs hne =>
    refine ⟨trivial, ?_, fun he d hd => hs d hd he⟩
    intro _ d hd
    obtain ⟨ds, rfl⟩ := List.head?_eq_some_iff.1 (Option.mem_def.1 hd)
    rw [beq_eq_false_iff_ne]
    rintro rfl
    exact hne ds rfl

theorem cut_spec (c : Char) (cs : List Char) :
    (cut c cs).1.WellFormed ∧ (cut c cs).1.Stops (cut c cs).2 := by
  unfold cut
  split
  · rename_i h; exact ⟨h, trivial⟩
  split
  · rename_i h; exact cutNumber_spec h
  split
  · rename_i h
    exact ⟨⟨c, _, rfl, h, fun d hd => List.mem_takeWhile_imp hd⟩, breaks_dropWhile isWordChar cs⟩
  split
  · exact cutString_spec cs
  split
  · refine ⟨?_, breaks_dropWhile _ _⟩
    intro hm
    simpa using List.mem_takeWhile_imp hm
  split
  · rename_i hslash _ s hs
    exact cutSymbol_spec (Symbol.single?_eq_some_iff.1 hs) hslash
  · rename_i hb hd hw hq _ _ hn
    refine ⟨?_, trivial⟩
    simp [WellFormed, isStray, isWordChar, hb, hd, hw, hq, hn]

theorem cut_wellFormed (c : Char) (cs : List Char) : (cut c cs).1.WellFormed := (cut_spec c cs).1

theorem cut_stops (c : Char) (cs : List Char) : (cut c cs).1.Stops (cut c cs).2 := (cut_spec c cs).2

/-! ## What is cut off is determined -/

theorem cut_blank {c : Char} {rest : List Char} (h : isBlank c = true) :
    cut c rest = (blank c, rest) := by
  rw [cut, if_pos h]

theorem cut_comment {body rest : List Char} (hb : '\n' ∉ body) (hr : Breaks (· != '\n') rest) :
    cut '/' ('/' :: (body ++ rest)) = (comment body, rest) := by
  have ha := bne_of_notMem hb
  rw [cut, if_neg (by decide), if_neg (by decide), if_neg (by decide), if_neg (by decide),
    if_pos ⟨rfl, rfl⟩, List.tail_cons, takeWhile_of_breaks ha hr, dropWhile_of_breaks ha hr]

theorem cut_string {body rest : List Char} (hb : '"' ∉ body) :
    cut '"' (body ++ '"' :: rest) = (string body, rest) := by
  have ha := bne_of_notMem hb
  have hr : Breaks (· != '"') ('"' :: rest) := breaks_cons.2 rfl
  rw [cut, if_neg (by decide), if_neg (by decide), if_neg (by decide), if_pos rfl, cutString,
    takeWhile_of_breaks ha hr, dropWhile_of_breaks ha hr]

theorem cut_unclosed {body : List Char} (hb : '"' ∉ body) :
    cut '"' body = (unclosed body, []) := by
  have hd : body.dropWhile (· != '"') = [] :=
    List.dropWhile_eq_nil_iff.2 (bne_of_notMem hb)
  rw [cut, if_neg (by decide), if_neg (by decide), if_neg (by decide), if_pos rfl, cutString, hd]

theorem cut_digit {c : Char} {cs : List Char} (h : c.isDigit = true) :
    cut c cs = cutNumber (c :: cs) := by
  have hb : isBlank c ≠ true := by
    intro hb
    rw [isDigit_of_isBlank hb] at h
    cases h
  rw [cut, if_neg hb, if_pos h]

theorem cutFraction_none {rest : List Char} (h : rest.head? = some '.' → Breaks Char.isDigit rest.tail) :
    cutFraction rest = (none, rest) := by
  fun_cases cutFraction rest with
  | case1 d cs hd => rw [breaks_cons.1 (h rfl)] at hd; cases hd
  | case2 d cs hd => rfl
  | case3 cs hne => rfl

theorem cutFraction_some {places rest : List Char} (hp : Digits places)
    (hr : Breaks Char.isDigit rest) : cutFraction ('.' :: (places ++ rest)) = (some places, rest) := by
  obtain ⟨hne, hd⟩ := hp
  cases places with
  | nil => exact absurd rfl hne
  | cons d ds =>
    have hds : ∀ a ∈ ds, a.isDigit = true := fun a ha => hd a (List.mem_cons_of_mem d ha)
    rw [List.cons_append, cutFraction, if_pos (hd d List.mem_cons_self),
      takeWhile_of_breaks hds hr, dropWhile_of_breaks hds hr]

theorem cutNumber_of_stops {whole rest : List Char} {fraction : Option (List Char)}
    (hq : (number whole fraction).WellFormed) (hs : (number whole fraction).Stops rest) :
    cutNumber ((number whole fraction).text ++ rest) = (number whole fraction, rest) := by
  obtain ⟨⟨-, hw⟩, hf⟩ := hq
  cases fraction with
  | none =>
    obtain ⟨h1, h2⟩ := hs
    simp only [cutNumber, text, takeWhile_of_breaks hw h1, dropWhile_of_breaks hw h1,
      cutFraction_none h2]
  | some places =>
    have hdot : Breaks Char.isDigit ('.' :: (places ++ rest)) := breaks_cons.2 (by decide)
    have hr : Breaks Char.isDigit rest := hs
    simp only [cutNumber, text, List.append_assoc, List.cons_append, takeWhile_of_breaks hw hdot,
      dropWhile_of_breaks hw hdot, cutFraction_some (hf places rfl) hr]

theorem cut_word {c : Char} {cs rest : List Char} (hc : isWordStart c = true)
    (hcs : ∀ d ∈ cs, isWordChar d = true) (hr : Breaks isWordChar rest) :
    cut c (cs ++ rest) = (word (c :: cs), rest) := by
  have hb : isBlank c ≠ true := by
    intro hb
    simp only [isBlank, Bool.or_eq_true, beq_iff_eq] at hb
    rcases hb with ((rfl | rfl) | rfl) | rfl <;> exact absurd hc (by decide)
  have hd : c.isDigit ≠ true := by
    intro hd
    rw [isWordStart_of_isDigit hd] at hc
    cases hc
  rw [cut, if_neg hb, if_neg hd, if_pos hc, takeWhile_of_breaks hcs hr, dropWhile_of_breaks hcs hr]

theorem cut_single {s : Symbol} {c : Char} {cs : List Char} (hc : s.spelling = [c])
    (hslash : s = .slash → Breaks (· == '/') cs) : cut c cs = cutSymbol s cs := by
  obtain ⟨h1, h2, h3, h4⟩ := single_class hc
  have h5 : ¬ (c = '/' ∧ cs.head? = some '/') := by
    intro h
    obtain ⟨rfl, he⟩ := h
    have hs : s = .slash := Symbol.spelling_injective (hc.trans rfl)
    exact absurd (hslash hs '/' he) (by decide)
  rw [cut, if_neg (by simp [h1]), if_neg (by simp [h2]), if_neg (by simp [h3]), if_neg h4, if_neg h5,
    Symbol.single?_eq_some_iff.2 hc]

theorem cutSymbol_of_stops {s : Symbol} {cs : List Char}
    (h : s.withEqual?.isSome = true → Breaks (· == '=') cs) : cutSymbol s cs = (symbol s, cs) := by
  fun_cases cutSymbol s cs with
  | case1 cs t ht => exact absurd (breaks_cons.1 (h (by rw [ht]; rfl))) (by decide)
  | case2 cs hn => rfl
  | case3 cs hne => rfl

theorem cut_symbol {s : Symbol} {c : Char} {cs rest : List Char} (ht : s.spelling = c :: cs)
    (hs : (symbol s).Stops rest) : cut c (cs ++ rest) = (symbol s, rest) := by
  rcases symbol_cases s with ⟨d, hd⟩ | ⟨r, d, hd, hr⟩
  · obtain ⟨rfl, rfl⟩ := List.cons.inj (ht.symm.trans hd)
    rw [List.nil_append, cut_single hd hs.2, cutSymbol_of_stops hs.1]
  · have he := Symbol.spelling_of_withEqual? hr
    rw [hd, ht] at he
    obtain ⟨rfl, rfl⟩ : c = d ∧ cs = ['='] := List.cons.inj he
    rw [List.singleton_append, cut_single hd fun _ => breaks_cons.2 (by decide), cutSymbol, hr]

theorem cut_stray {c : Char} {rest : List Char} (h : isStray c = true) :
    cut c rest = (stray c, rest) := by
  have hslash : c ≠ '/' := ne_of_test h (by decide)
  simp only [isStray, isWordChar, Bool.not_eq_true', Bool.or_eq_false_iff, beq_eq_false_iff_ne,
    Option.isSome_eq_false_iff, Option.isNone_iff_eq_none] at h
  obtain ⟨⟨⟨hb, hw, hd⟩, hquote⟩, hn⟩ := h
  rw [cut, if_neg (by simp [hb]), if_neg (by simp [hd]), if_neg (by simp [hw]), if_neg hquote,
    if_neg (fun he => hslash he.1), hn]

/-- The first character of a number is a digit. -/
theorem isDigit_of_number {whole : List Char} {fraction : Option (List Char)} {rest : List Char}
    {c : Char} {cs : List Char} (hw : Digits whole)
    (h : (number whole fraction).text ++ rest = c :: cs) : c.isDigit = true := by
  obtain ⟨hne, hd⟩ := hw
  cases whole with
  | nil => exact absurd rfl hne
  | cons d ds =>
    cases fraction <;> (obtain ⟨rfl, -⟩ := List.cons.inj h; exact hd _ List.mem_cons_self)

/-- A well-formed piece before a text that it stops at is cut off there. -/
theorem cut_of_stops {q : Piece} {rest : List Char} {c : Char} {cs : List Char}
    (hq : q.WellFormed) (hs : q.Stops rest) (h : q.text ++ rest = c :: cs) :
    cut c cs = (q, rest) := by
  cases q with
  | blank d =>
    obtain ⟨rfl, rfl⟩ := List.cons.inj h
    exact cut_blank hq
  | comment body =>
    obtain ⟨rfl, rfl⟩ := List.cons.inj h
    exact cut_comment hq hs
  | string body =>
    rw [text, List.cons_append, List.append_assoc] at h
    obtain ⟨rfl, rfl⟩ := List.cons.inj h
    exact cut_string hq
  | number whole fraction =>
    rw [cut_digit (isDigit_of_number hq.1 h), ← h]
    exact cutNumber_of_stops hq hs
  | word w =>
    obtain ⟨d, ds, rfl, hd, hds⟩ := hq
    obtain ⟨rfl, rfl⟩ := List.cons.inj h
    exact cut_word hd hds hs
  | symbol s =>
    obtain ⟨d, ds, hd⟩ := List.exists_cons_of_ne_nil (text_ne_nil (q := symbol s) hq)
    rw [hd] at h
    obtain ⟨rfl, rfl⟩ := List.cons.inj h
    exact cut_symbol hd hs
  | unclosed body =>
    obtain rfl : rest = [] := hs
    rw [List.append_nil] at h
    obtain ⟨rfl, rfl⟩ := List.cons.inj h
    exact cut_unclosed hq
  | stray d =>
    obtain ⟨rfl, rfl⟩ := List.cons.inj h
    exact cut_stray hq

end Piece

/-! ## Pieces one after the other -/

theorem pieces_of_stops {q : Piece} {rest : List Char} (hq : q.WellFormed) (hs : q.Stops rest) :
    pieces (q.text ++ rest) = q :: pieces rest := by
  obtain ⟨c, cs, hc⟩ := List.exists_cons_of_ne_nil (Piece.text_ne_nil hq)
  rw [hc, List.cons_append, pieces_cons, Piece.cut_of_stops hq hs (by rw [hc]; rfl)]

/-- A text is cut into pieces, each of them up to where it stops. -/
inductive Cuts : List Char → List Piece → Prop
  | nil : Cuts [] []
  | cons {q : Piece} {rest : List Char} {qs : List Piece} :
    q.WellFormed → q.Stops rest → Cuts rest qs → Cuts (q.text ++ rest) (q :: qs)

theorem Cuts.blank {c : Char} {rest : List Char} {qs : List Piece} (hc : Piece.isBlank c = true)
    (h : Cuts rest qs) : Cuts (c :: rest) (.blank c :: qs) := .cons (q := .blank c) hc trivial h

theorem cuts_pieces (source : List Char) : Cuts source (pieces source) := by
  fun_induction pieces source with
  | case1 => exact .nil
  | case2 c cs ih =>
    have h := Cuts.cons (Piece.cut_wellFormed c cs) (Piece.cut_stops c cs) ih
    rwa [Piece.cut_text] at h

theorem pieces_of_cuts {source : List Char} {qs : List Piece} (h : Cuts source qs) :
    pieces source = qs := by
  induction h with
  | nil => exact pieces_nil
  | cons hq hs _ ih => rw [pieces_of_stops hq hs, ih]

theorem text_of_cuts {source : List Char} {qs : List Piece} (h : Cuts source qs) :
    qs.flatMap Piece.text = source := by
  rw [← pieces_of_cuts h, pieces_text]

theorem wellFormed_of_mem {source : List Char} {qs : List Piece} (h : Cuts source qs) {q : Piece}
    (hq : q ∈ qs) : q.WellFormed := by
  induction h with
  | nil => cases hq
  | cons hr _ _ ih =>
    rcases List.mem_cons.1 hq with rfl | hq
    · exact hr
    · exact ih hq

theorem pieces_text_of_wellFormed {q : Piece} (hq : q.WellFormed) : pieces q.text = [q] := by
  have h := pieces_of_stops hq q.stops_nil
  rwa [List.append_nil, pieces_nil] at h

/-- A text belongs to one piece at most. -/
theorem eq_of_text_eq {q r : Piece} (hq : q.WellFormed) (hr : r.WellFormed)
    (h : q.text = r.text) : q = r := by
  have he : [q] = [r] := by
    rw [← pieces_text_of_wellFormed hq, ← pieces_text_of_wellFormed hr, h]
  exact (List.cons.inj he).1

/-- Whatever well-formed piece a text starts with, the one that is cut off there is at least as
long. -/
theorem text_prefix_of_stops {q r : Piece} {rest : List Char} (hq : q.WellFormed)
    (hs : q.Stops rest) (hr : r.WellFormed) (h : r.text <+: q.text ++ rest) :
    r.text <+: q.text := by
  rcases List.prefix_or_prefix_of_prefix h (List.prefix_append q.text rest) with hle | ⟨more, he⟩
  · exact hle
  have hmore : more <+: rest := by
    rw [← he] at h
    exact (List.prefix_append_right_inj q.text).1 h
  have h1 : pieces r.text = q :: pieces more := by
    rw [← he]
    exact pieces_of_stops hq (Piece.stops_mono hmore hs)
  obtain ⟨rfl, -⟩ := List.cons.inj (h1.symm.trans (pieces_text_of_wellFormed hr))
  exact List.prefix_rfl

end Lox

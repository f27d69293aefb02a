import Lox.Cursor
import Lox.Proofs.OfText

/-!
# Where the cursor stands

Inside of a token the text falls into three: what stands before the token, what was read of it, and
what remains. At each point of a run it is known what was read, and that what was found so far and
what the pieces from here on give make up the findings of the scan. For numbers and words the end of
the text is no case of its own: U+0000, which the cursor sees there, goes on with neither, whether
it stands in the text or not.

Results:
* `Reading`, `Settled`: where the cursor stands inside of a token, and between two.
* `Reading.moved`, `Reading.settled`: a character goes on with the token, or a piece ends it.
* `Reading.leads_step`: every step inside of a token leads on, to such a place or behind the token.
-/
namespace Lox

open Piece (Digits)

namespace Cursor

/-! ## The character behind the end -/

/-- What passes a test that U+0000 fails is a character of the text. -/
theorem cons_of_headD {p : Char → Bool} {rest : List Char} (h : p (rest.headD '\x00') = true)
    (hend : p '\x00' = false) : ∃ c cs, rest = c :: cs ∧ p c = true := by
  cases rest with
  | nil => exact absurd h (by simp [hend])
  | cons c cs => exact ⟨c, cs, rfl, h⟩

theorem breaks_of_headD {p : Char → Bool} {rest : List Char}
    (h : ¬ p (rest.headD '\x00') = true) : Breaks p rest := by
  cases rest with
  | nil => exact breaks_nil p
  | cons c cs => exact breaks_cons.2 (Bool.eq_false_iff.2 h)

theorem cons_of_not_breaks {d : Char} {rest : List Char} (h : ¬ Breaks (· == d) rest) :
    ∃ cs, rest = d :: cs := by
  cases rest with
  | nil => exact absurd (breaks_nil _) h
  | cons c cs =>
    rw [breaks_cons, beq_eq_false_iff_ne, ne_eq, not_not] at h
    exact ⟨cs, by rw [h]⟩

theorem digits_snoc {ds : List Char} {d : Char} (hds : ∀ c ∈ ds, c.isDigit = true)
    (hd : d.isDigit = true) : Digits (ds ++ [d]) := by
  refine ⟨by simp, ?_⟩
  intro c hc
  rcases List.mem_append.1 hc with hc | hc
  · exact hds c hc
  · rwa [List.mem_singleton.1 hc]

/-! ## Steps part by part -/

/-- Two computations on changed values, one after the other. -/
theorem map_bind {ε α β γ δ : Type} {g : α → β} {g' : γ → δ} {k : α → Except ε γ}
    {k' : β → Except ε δ} {x : Except ε α} (h : ∀ a, x = .ok a → k' (g a) = (k a).map g') :
    (x.map g >>= k') = (x >>= k).map g' := by
  cases x with
  | error e => rfl
  | ok a => exact h a rfl

/-! ## Inside of a token -/

/-- Of the text, `before` stands before the token, `part` was read of it, and `rest` remains. -/
structure Reading (source : List Char) (s : State) (before part rest : List Char) : Prop where
  text : source = before ++ (part ++ rest)
  start : s.start = before.length
  current : s.current = before.length + part.length
  startPlace : s.startPlace = Position.after {} before
  place : s.place = s.startPlace.after part
  found : s.found ++ findings s.startPlace (pieces (part ++ rest)) = (scan source).findings

/-- Between two tokens `before` was read, and `rest` remains. -/
structure Settled (source : List Char) (s : State) (before rest : List Char) : Prop where
  text : source = before ++ rest
  start : s.start ≤ before.length
  current : s.current = before.length
  place : s.place = Position.after {} before
  found : s.found ++ findings s.place (pieces rest) = (scan source).findings

/-- What was read of a token, and what may remain, at each point inside of it. -/
def Begun : Mode → List Char → List Char → Prop
  | .first, part, rest => part = [] ∧ rest ≠ []
  | .pair short long, part, _ => part = short.spelling ∧ short.withEqual? = some long
  | .slash, part, _ => part = ['/']
  | .comment, part, _ => ∃ body, part = '/' :: '/' :: body ∧ '\n' ∉ body
  | .string, part, _ => ∃ body, part = '"' :: body ∧ '"' ∉ body
  | .whole, part, _ => Digits part
  | .fraction, part, rest =>
    ∃ ds es, part = ds ++ '.' :: es ∧ Digits ds ∧ Digits (es ++ rest.takeWhile Char.isDigit)
  | .word, part, _ => (Piece.word part).WellFormed
  | _, _, _ => False

/-- A step that reads nothing goes to a mode of lower rank. -/
def Mode.rank : Mode → Nat
  | .first => 0
  | .halted => 0
  | .between => 1
  | _ => 2

/-- A step reads a character, or it goes to a mode of lower rank. -/
def Progress (source : List Char) (s s' : State) : Prop :=
  (s'.current = s.current + 1 ∧ s.current < source.length) ∨
    (s'.current = s.current ∧ s'.mode.rank < s.mode.rank)

/-- Where a run is before it halts. -/
inductive Running (source : List Char) : State → Prop
  | between {s : State} {before rest : List Char} : s.mode = .between →
    Settled source s before rest → Running source s
  | reading {s : State} {before part rest : List Char} : Begun s.mode part rest →
    Reading source s before part rest → Running source s

section
variable {source before part rest body : List Char} {s : State} {c : Char} {q : Piece}

namespace Reading

theorem inMode (h : Reading source s before part rest) (m : Mode) :
    Reading source { s with mode := m } before part rest :=
  ⟨h.text, h.start, h.current, h.startPlace, h.place, h.found⟩

theorem length (h : Reading source s before part rest) :
    source.length = before.length + part.length + rest.length := by
  rw [h.text, List.length_append, List.length_append, Nat.add_assoc]

/-- What the cursor sees. -/
theorem sees (h : Reading source s before part rest) (i : Nat) :
    source[s.current + i]? = rest[i]? := by
  have hsplit : source = (before ++ part) ++ rest := by rw [h.text, List.append_assoc]
  have hlength : s.current = (before ++ part).length := by rw [h.current, List.length_append]
  rw [hlength, hsplit, List.getElem?_append_right (Nat.le_add_right _ _), Nat.add_sub_cancel_left]

theorem peek_eq (h : Reading source s before part rest) :
    peek source s = rest.headD '\x00' := by
  have hsees : source[s.current]? = rest[0]? := h.sees 0
  rw [peek, List.getD_eq_getElem?_getD, hsees]
  cases rest <;> rfl

theorem peekNext_eq (h : Reading source s before part rest) :
    peekNext source s = rest.tail.headD '\x00' := by
  rw [peekNext, List.getD_eq_getElem?_getD, h.sees 1]
  rcases rest with _ | ⟨c, _ | ⟨d, rest⟩⟩ <;> rfl

theorem atEnd_eq (h : Reading source s before part rest) : atEnd source s = rest.isEmpty := by
  have hlength := h.length
  have hcurrent := h.current
  cases rest with
  | nil => exact decide_eq_true (by rw [hlength, hcurrent, List.length_nil]; omega)
  | cons c rest => exact decide_eq_false (by rw [hlength, hcurrent, List.length_cons]; omega)

/-! ## Moving on -/

theorem moved (h : Reading source s before part (c :: rest)) :
    Reading source (s.moved c) before (part ++ [c]) rest where
  text := by rw [h.text, List.append_assoc]; rfl
  start := h.start
  current := by
    show s.current + 1 = _
    rw [h.current, List.length_append, List.length_singleton, Nat.add_assoc]
  startPlace := h.startPlace
  place := by
    show s.place.next c = s.startPlace.after _
    rw [Position.after_append, ← h.place]
    rfl
  found := by
    have hfound := h.found
    rw [List.append_cons] at hfound
    exact hfound

theorem advance_eq (h : Reading source s before part (c :: rest)) :
    advance source s = .ok (c, s.moved c) := by
  have hsees : source[s.current]? = some c := h.sees 0
  rw [advance, hsees]

theorem pass_eq (h : Reading source s before part (c :: rest)) :
    pass source s = .ok (s.moved c) := by
  rw [pass, h.advance_eq]
  rfl

theorem current_lt (h : Reading source s before part (c :: rest)) : s.current < source.length := by
  rw [h.length, h.current, List.length_cons]
  omega

/-! ## Finishing a token -/

/-- Behind a piece that goes no further. -/
theorem settled {fs : List Finding} (h : Reading source s before q.text rest) (hq : q.WellFormed)
    (hs : q.Stops rest) (hfs : fs = s.found ++ (q.finding? s.startPlace).toList) :
    Settled source { s with mode := .between, found := fs } (before ++ q.text) rest where
  text := by rw [h.text, List.append_assoc]
  start := by
    show s.start ≤ _
    rw [h.start, List.length_append]
    exact Nat.le_add_right _ _
  current := by
    show s.current = _
    rw [h.current, List.length_append]
  place := by
    show s.place = _
    rw [h.place, h.startPlace, Position.after_append]
  found := by
    show fs ++ findings s.place (pieces rest) = _
    rw [← h.found, pieces_of_stops hq hs, findings, hfs, h.place, List.append_assoc]

theorem settled_silent (h : Reading source s before q.text rest) (hq : q.WellFormed)
    (hs : q.Stops rest) (hnone : q.finding? s.startPlace = none) :
    Settled source { s with mode := .between } (before ++ q.text) rest := by
  refine h.settled hq hs ?_
  rw [hnone]
  exact (List.append_nil _).symm

theorem settled_finding {f : Finding} (h : Reading source s before q.text rest)
    (hq : q.WellFormed) (hs : q.Stops rest) (hf : q.finding? s.startPlace = some f) :
    Settled source (s.finding f) (before ++ q.text) rest := by
  refine h.settled hq hs ?_
  rw [hf]
  rfl

end Reading

theorem slice_append (a b c : List Char) :
    slice (a ++ (b ++ c)) a.length (a.length + b.length) = .ok b := by
  have hle : a.length ≤ a.length + b.length ∧ a.length + b.length ≤ (a ++ (b ++ c)).length := by
    simp only [List.length_append]
    omega
  rw [slice, if_pos hle, List.drop_left' rfl, Nat.add_sub_cancel_left, List.take_left' rfl]

namespace Reading

theorem lexeme_eq (h : Reading source s before part rest) : lexeme source s = .ok part := by
  rw [lexeme, h.start, h.current, h.text]
  exact slice_append before part rest

end Reading

/-! ## What a step leads to -/

/-- The result is a state that the run comes to, some progress further on. -/
def Leads (source : List Char) (s : State) (result : Except Fault State) : Prop :=
  ∃ s', result = .ok s' ∧ Running source s' ∧ Progress source s s'

namespace Reading

/-- A character that goes on with the token. -/
theorem leads_pass (h : Reading source s before part (c :: rest))
    (hm : Begun s.mode (part ++ [c]) rest) : Leads source s (pass source s) :=
  ⟨s.moved c, h.pass_eq, .reading hm h.moved, .inl ⟨rfl, h.current_lt⟩⟩

theorem leads_moved {m : Mode} (h : Reading source s before part (c :: rest))
    (hm : Begun m (part ++ [c]) rest) : Leads source s (.ok { s.moved c with mode := m }) :=
  ⟨_, rfl, .reading hm (h.moved.inMode m), .inl ⟨rfl, h.current_lt⟩⟩

/-- The token of a piece that goes no further is pushed. -/
theorem leads_push {s₀ : State} {kind : Kind} {literal : Option Literal}
    (h : Reading source s before q.text rest) (hq : q.WellFormed) (hs : q.Stops rest)
    (hf : q.finding? s.startPlace = some (.token ⟨kind, q.text, literal, s.startPlace⟩))
    (hprogress : Progress source s₀ { s with mode := .between }) :
    Leads source s₀ (push source kind literal s) := by
  have hpush : push source kind literal s =
      .ok (s.finding (.token ⟨kind, q.text, literal, s.startPlace⟩)) := by
    rw [push, h.lexeme_eq]
    rfl
  exact ⟨_, hpush, .between rfl (h.settled_finding hq hs hf), hprogress⟩

/-- A step that reads nothing may end a token that was begun. -/
theorem progress_here (h : 1 < s.mode.rank) : Progress source s { s with mode := .between } :=
  .inr ⟨rfl, h⟩

theorem progress_moved (h : Reading source s before part (c :: rest)) :
    Progress source s { s.moved c with mode := .between } :=
  .inl ⟨rfl, h.current_lt⟩

/-- An expected character is eaten. -/
theorem eat_eq (h : Reading source s before part (c :: rest)) :
    eat source c s = .ok (true, s.moved c) := by
  rw [eat, if_neg (by simp [h.atEnd_eq, h.peek_eq]), h.pass_eq]
  rfl

theorem eat_eq_false {d : Char} (h : Reading source s before part rest)
    (hd : Breaks (· == d) rest) : eat source d s = .ok (false, s) := by
  rw [eat, if_pos]
  rw [h.atEnd_eq, h.peek_eq]
  cases rest with
  | nil => exact .inl rfl
  | cons c rest => exact .inr (by simpa using breaks_cons.1 hd)

/-! ## One step at each point -/

theorem leads_number (whole : List Char) (fraction : Option (List Char))
    (h : Reading source s before (Piece.number whole fraction).text rest)
    (hq : (Piece.number whole fraction).WellFormed) (hs : (Piece.number whole fraction).Stops rest)
    (hrank : 1 < s.mode.rank) : Leads source s (pushNumber source s) := by
  have hpush : pushNumber source s = push source .number
      (some (.number (.ofDigits (whole ++ fraction.getD []) (fraction.getD []).length))) s := by
    have hread := Binary64.ofText?_number hq
    rw [pushNumber, h.lexeme_eq]
    simp only [bind, Except.bind, hread]
  rw [hpush]
  exact h.leads_push hq hs rfl (progress_here hrank)

theorem leads_comment (hmode : s.mode = .comment) (hb : Begun .comment part rest)
    (h : Reading source s before part rest) : Leads source s (step source s) := by
  obtain ⟨body, rfl, hbody⟩ := hb
  have hend : Breaks (· != '\n') rest → Leads source s (.ok { s with mode := .between }) := by
    intro hs
    refine ⟨_, rfl, .between rfl (settled_silent (q := .comment body) h hbody hs rfl), ?_⟩
    exact progress_here (by rw [hmode]; decide)
  simp only [step, hmode, h.atEnd_eq, h.peek_eq]
  cases rest with
  | nil =>
    rw [if_neg (by simp)]
    exact hend (breaks_nil _)
  | cons c rest =>
    by_cases hc : c = '\n'
    · rw [if_neg (by simp [hc])]
      exact hend (breaks_cons.2 (by simp [hc]))
    · rw [if_pos (by simp [hc])]
      apply h.leads_pass
      rw [hmode]
      refine ⟨body ++ [c], rfl, ?_⟩
      simp [hbody, Ne.symm hc]

theorem leads_closeString (hbody : '"' ∉ body)
    (h : Reading source s before ('"' :: body) ('"' :: rest)) :
    Leads source s (closeString source s) := by
  have hmoved := h.moved
  have hvalue : slice source ((s.moved '"').start + 1) ((s.moved '"').current - 1) = .ok body := by
    have htext : source = (before ++ ['"']) ++ (body ++ '"' :: rest) := by
      rw [h.text]
      simp
    have hstart : (s.moved '"').start + 1 = (before ++ ['"']).length := by
      rw [hmoved.start, List.length_append, List.length_singleton]
    have hstop : (s.moved '"').current - 1 = (before ++ ['"']).length + body.length := by
      simp only [hmoved.current, List.length_append, List.length_cons, List.length_nil]
      omega
    rw [hstart, hstop, htext]
    exact slice_append _ _ _
  have hclose : closeString source s =
      push source .string (some (.string body)) (s.moved '"') := by
    rw [closeString, h.pass_eq]
    show (slice source ((s.moved '"').start + 1) ((s.moved '"').current - 1) >>= fun value =>
      push source .string (some (.string value)) (s.moved '"')) = _
    rw [hvalue]
    rfl
  rw [hclose]
  exact leads_push (q := .string body) hmoved hbody trivial rfl h.progress_moved

theorem leads_string (hmode : s.mode = .string) (hb : Begun .string part rest)
    (h : Reading source s before part rest) : Leads source s (step source s) := by
  obtain ⟨body, rfl, hbody⟩ := hb
  simp only [step, hmode, h.atEnd_eq, h.peek_eq]
  cases rest with
  | nil =>
    rw [if_neg (by simp), if_pos (by simp)]
    have hf : (Piece.unclosed body).finding? s.startPlace =
        some (.problem ⟨s.place, .unterminated⟩) := by
      rw [h.place]
      rfl
    exact ⟨_, rfl, .between rfl (settled_finding (q := .unclosed body) h hbody rfl hf),
      progress_here (by rw [hmode]; decide)⟩
  | cons c rest =>
    by_cases hc : c = '"'
    · rw [if_neg (by simp [hc]), if_neg (by simp)]
      rw [hc] at h
      exact h.leads_closeString hbody
    · rw [if_pos (by simp [hc])]
      apply h.leads_pass
      rw [hmode]
      refine ⟨body ++ [c], rfl, ?_⟩
      simp [hbody, Ne.symm hc]

/-- Digits and a point, and what goes on behind it. -/
theorem leads_whole (hmode : s.mode = .whole) (hb : Begun .whole part rest)
    (h : Reading source s before part rest) : Leads source s (step source s) := by
  obtain ⟨hne, hd⟩ : Digits part := hb
  simp only [step, hmode, h.peek_eq, h.peekNext_eq]
  by_cases hdigit : (rest.headD '\x00').isDigit = true
  · rw [if_pos hdigit]
    obtain ⟨c, cs, rfl, hc⟩ := cons_of_headD hdigit rfl
    apply h.leads_pass
    rw [hmode]
    exact digits_snoc hd hc
  rw [if_neg hdigit]
  have hstop : Breaks Char.isDigit rest := breaks_of_headD hdigit
  by_cases hpoint : rest.headD '\x00' = '.' ∧ (rest.tail.headD '\x00').isDigit = true
  · rw [if_pos hpoint]
    obtain ⟨hdot, hnext⟩ := hpoint
    have hseen : (rest.headD '\x00' == '.') = true := beq_iff_eq.2 hdot
    obtain ⟨c, cs, rfl, hc⟩ := cons_of_headD (p := (· == '.')) hseen rfl
    obtain rfl : c = '.' := beq_iff_eq.1 hc
    obtain ⟨d, ds, rfl, hd'⟩ := cons_of_headD hnext rfl
    rw [h.pass_eq]
    exact h.leads_moved ⟨part, [], rfl, ⟨hne, hd⟩, Piece.digits_takeWhile hd'⟩
  · rw [if_neg hpoint]
    refine h.leads_number part none ⟨⟨hne, hd⟩, fun _ hp => nomatch hp⟩ ⟨hstop, ?_⟩
      (by rw [hmode]; decide)
    intro he
    apply breaks_of_headD
    intro hnext
    obtain ⟨cs, rfl⟩ := List.head?_eq_some_iff.1 he
    exact hpoint ⟨rfl, hnext⟩

theorem leads_fraction (hmode : s.mode = .fraction) (hb : Begun .fraction part rest)
    (h : Reading source s before part rest) : Leads source s (step source s) := by
  obtain ⟨ds, es, rfl, hds, hes⟩ := hb
  simp only [step, hmode, h.peek_eq]
  by_cases hdigit : (rest.headD '\x00').isDigit = true
  · rw [if_pos hdigit]
    obtain ⟨c, cs, rfl, hc⟩ := cons_of_headD hdigit rfl
    apply h.leads_pass
    rw [hmode]
    refine ⟨ds, es ++ [c], by simp, hds, ?_⟩
    rw [List.takeWhile_cons_of_pos hc] at hes
    rwa [List.append_assoc]
  · rw [if_neg hdigit]
    have hstop : Breaks Char.isDigit rest := breaks_of_headD hdigit
    have htake : rest.takeWhile Char.isDigit = [] := by
      simpa using takeWhile_of_breaks (List.forall_mem_nil _) hstop
    rw [htake, List.append_nil] at hes
    refine h.leads_number ds (some es) ⟨hds, ?_⟩ hstop (by rw [hmode]; decide)
    rintro places ⟨⟩
    exact hes

theorem leads_word (hmode : s.mode = .word) (hb : Begun .word part rest)
    (h : Reading source s before part rest) : Leads source s (step source s) := by
  have hq : (Piece.word part).WellFormed := hb
  simp only [step, hmode, h.peek_eq]
  by_cases hword : Piece.isWordChar (rest.headD '\x00') = true
  · rw [if_pos hword]
    obtain ⟨c, cs, rfl, hc⟩ := cons_of_headD hword rfl
    obtain ⟨d, ds, rfl, hd, hds⟩ := hq
    apply h.leads_pass
    rw [hmode]
    refine ⟨d, ds ++ [c], rfl, hd, ?_⟩
    simpa [or_imp, forall_and, hc] using hds
  · rw [if_neg hword]
    have hstop : Breaks Piece.isWordChar rest := breaks_of_headD hword
    have hpush : pushWord source s = push source (.ofWord part) none s := by
      rw [pushWord, h.lexeme_eq]
      rfl
    rw [hpush]
    exact leads_push (q := .word part) h hq hstop rfl (progress_here (by rw [hmode]; decide))

theorem leads_pair {short long : Symbol} (hmode : s.mode = .pair short long)
    (hb : Begun (.pair short long) part rest) (h : Reading source s before part rest) :
    Leads source s (step source s) := by
  obtain ⟨rfl, hlong⟩ := hb
  simp only [step, hmode]
  by_cases he : Breaks (· == '=') rest
  · rw [h.eat_eq_false he]
    refine leads_push (q := .symbol short) h trivial ⟨fun _ => he, ?_⟩ rfl
      (progress_here (by rw [hmode]; exact Nat.one_lt_two))
    rintro rfl
    have hnone : Symbol.slash.withEqual? = none := by decide
    rw [hnone] at hlong
    cases hlong
  · obtain ⟨cs, rfl⟩ : ∃ cs, rest = '=' :: cs := by
      cases rest with
      | nil => exact absurd (breaks_nil _) he
      | cons c cs =>
        rw [breaks_cons] at he
        exact ⟨cs, by simpa using he⟩
    obtain ⟨hnone, hslash⟩ := Piece.withEqual?_withEqual? hlong
    have hmoved := h.moved
    rw [← Symbol.spelling_of_withEqual? hlong] at hmoved
    rw [h.eat_eq]
    refine leads_push (q := .symbol long) hmoved trivial ⟨?_, fun hl => absurd hl hslash⟩ rfl
      h.progress_moved
    intro hsome
    rw [hnone] at hsome
    cases hsome

theorem leads_slash (hmode : s.mode = .slash) (hb : Begun .slash part rest)
    (h : Reading source s before part rest) : Leads source s (step source s) := by
  obtain rfl : part = ['/'] := hb
  simp only [step, hmode]
  by_cases he : Breaks (· == '/') rest
  · rw [h.eat_eq_false he]
    refine leads_push (q := .symbol .slash) h trivial ⟨?_, fun _ => he⟩ rfl
      (progress_here (by rw [hmode]; decide))
    intro hsome
    exact absurd hsome (by decide)
  · obtain ⟨cs, rfl⟩ := cons_of_not_breaks he
    rw [h.eat_eq]
    exact h.leads_moved ⟨[], rfl, List.not_mem_nil⟩

theorem leads_begin_symbol {symbol : Symbol} (h : Reading source s before [] (c :: rest))
    (hsymbol : Symbol.single? c = some symbol) :
    Leads source s (begin source c (s.moved c)) := by
  have hspelling := Symbol.single?_eq_some_iff.1 hsymbol
  simp only [begin, hsymbol]
  by_cases hslash : symbol = .slash
  · rw [if_pos hslash]
    rw [hslash] at hspelling
    exact h.leads_moved hspelling.symm
  rw [if_neg hslash]
  cases hlong : symbol.withEqual? with
  | some long => exact h.leads_moved ⟨hspelling.symm, hlong⟩
  | none =>
    have hmoved := h.moved
    rw [List.nil_append, ← hspelling] at hmoved
    refine leads_push (q := .symbol symbol) hmoved trivial ⟨?_, fun he => absurd he hslash⟩ rfl
      h.progress_moved
    intro hsome
    rw [hlong] at hsome
    cases hsome

theorem leads_begin_other (h : Reading source s before [] (c :: rest))
    (hsymbol : Symbol.single? c = none) : Leads source s (begin source c (s.moved c)) := by
  simp only [begin, hsymbol]
  by_cases hblank : Piece.isBlank c = true
  · rw [if_pos hblank]
    exact ⟨_, rfl, .between rfl (settled_silent (q := .blank c) h.moved hblank trivial rfl),
      h.progress_moved⟩
  rw [if_neg hblank]
  by_cases hquote : c = '"'
  · rw [if_pos hquote]
    exact h.leads_moved ⟨[], by rw [hquote]; rfl, List.not_mem_nil⟩
  rw [if_neg hquote]
  by_cases hdigit : c.isDigit = true
  · rw [if_pos hdigit]
    exact h.leads_moved (digits_snoc (List.forall_mem_nil _) hdigit)
  rw [if_neg hdigit]
  by_cases hword : Piece.isWordStart c = true
  · rw [if_pos hword]
    exact h.leads_moved ⟨c, [], rfl, hword, List.forall_mem_nil _⟩
  rw [if_neg hword]
  have hstray : (Piece.stray c).WellFormed := by
    simp [Piece.WellFormed, Piece.isStray, Piece.isWordChar, hblank, hquote, hdigit, hword, hsymbol]
  exact ⟨_, rfl, .between rfl (settled_finding (q := .stray c) h.moved hstray trivial rfl),
    h.progress_moved⟩

theorem leads_first (hmode : s.mode = .first) (hb : Begun .first part rest)
    (h : Reading source s before part rest) : Leads source s (step source s) := by
  obtain ⟨rfl, hne⟩ := hb
  obtain ⟨c, cs, rfl⟩ := List.exists_cons_of_ne_nil hne
  simp only [step, hmode, h.advance_eq]
  show Leads source s (begin source c (s.moved c))
  cases hsymbol : Symbol.single? c with
  | some symbol => exact h.leads_begin_symbol hsymbol
  | none => exact h.leads_begin_other hsymbol

/-- **Inside of a token** no step breaks off, and each one leads on. -/
theorem leads_step (hb : Begun s.mode part rest) (h : Reading source s before part rest) :
    Leads source s (step source s) := by
  cases hmode : s.mode with
  | between => rw [hmode] at hb; exact hb.elim
  | first => exact h.leads_first hmode (hmode ▸ hb)
  | pair short long => exact h.leads_pair hmode (hmode ▸ hb)
  | slash => exact h.leads_slash hmode (hmode ▸ hb)
  | comment => exact h.leads_comment hmode (hmode ▸ hb)
  | string => exact h.leads_string hmode (hmode ▸ hb)
  | whole => exact h.leads_whole hmode (hmode ▸ hb)
  | fraction => exact h.leads_fraction hmode (hmode ▸ hb)
  | word => exact h.leads_word hmode (hmode ▸ hb)
  | unread => rw [hmode] at hb; exact hb.elim
  | halted => rw [hmode] at hb; exact hb.elim

end Reading
end
end Cursor
end Lox

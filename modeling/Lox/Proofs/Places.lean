import Mathlib.Data.List.Induction
import Mathlib.Data.List.Pairwise
import Lox.Proofs.Cut

/-!
# Where things stand

The place of an offset in a text, counted afresh from the text before it: one line for each line
feed there, and one column for each character after the last of them. A scan keeps its place as it
goes along; here that place is tied to the count.

Results:
* `after_eq`: reading a text ends at the place that the count gives.
* `placeAt_lt`: a later offset has a later place.
* `scan_places`: tokens and stray characters have offsets at which they stand in the text, one after
  the other, and their places are those of the offsets.
-/
namespace Lox

/-! ## The order of places -/

namespace Position

instance : LT Position :=
  ⟨fun p q => p.line < q.line ∨ (p.line = q.line ∧ p.column < q.column)⟩

theorem lt_def {p q : Position} :
    p < q ↔ p.line < q.line ∨ (p.line = q.line ∧ p.column < q.column) := Iff.rfl

def le (p q : Position) : Bool := p.line < q.line || (p.line == q.line && p.column ≤ q.column)

theorem le_iff {p q : Position} :
    p.le q = true ↔ p.line < q.line ∨ (p.line = q.line ∧ p.column ≤ q.column) := by
  simp [le]

theorem lt_irrefl (p : Position) : ¬ p < p := by
  rw [lt_def]; omega

theorem lt_trans {p q r : Position} (h : p < q) (h' : q < r) : p < r := by
  rw [lt_def] at *; omega

theorem le_trans {p q r : Position} (h : p.le q = true) (h' : q.le r = true) : p.le r = true := by
  rw [le_iff] at *; omega

theorem le_total (p q : Position) : (p.le q || q.le p) = true := by
  rw [Bool.or_eq_true, le_iff, le_iff]; omega

theorem le_of_lt {p q : Position} (h : p < q) : p.le q = true := by
  rw [lt_def] at h; rw [le_iff]; omega

theorem lt_of_le_of_ne {p q : Position} (h : p.le q = true) (hne : p ≠ q) : p < q := by
  rw [le_iff] at h
  rw [lt_def]
  have hc : p.line = q.line → p.column ≠ q.column := by
    intro hl hc
    exact hne (by cases p; cases q; simp_all)
  omega

theorem lt_next (p : Position) (c : Char) : p < p.next c := by
  rw [lt_def, next]
  split
  · left; exact Nat.lt_succ_self _
  · right; exact ⟨rfl, Nat.lt_succ_self _⟩

theorem lt_after {cs : List Char} (h : cs ≠ []) (p : Position) : p < p.after cs := by
  induction cs generalizing p with
  | nil => exact absurd rfl h
  | cons c cs ih =>
    rw [after_cons]
    cases cs with
    | nil => exact lt_next p c
    | cons d ds => exact lt_trans (lt_next p c) (ih (by simp) _)

end Position

/-! ## Counting -/

/-- The place of an offset of a text. -/
def placeAt (source : List Char) (o : Nat) : Position :=
  ⟨1 + (source.take o).count '\n', 1 + ((source.take o).reverse.takeWhile (· != '\n')).length⟩

theorem after_eq (cs : List Char) : Position.after {} cs =
    ⟨1 + cs.count '\n', 1 + (cs.reverse.takeWhile (· != '\n')).length⟩ := by
  induction cs using List.reverseRecOn with
  | nil => rfl
  | append_singleton cs c ih =>
    rw [Position.after_append, ih, Position.after_cons, Position.after_nil, Position.next,
      List.count_append, List.reverse_append, List.reverse_singleton, List.singleton_append,
      List.takeWhile_cons]
    by_cases h : c = '\n'
    · subst h
      simp [Nat.add_assoc]
    · rw [if_neg h, if_pos (by simpa using h)]
      simp [h]
      omega

theorem placeAt_length (as bs : List Char) :
    placeAt (as ++ bs) as.length = Position.after {} as := by
  rw [after_eq, placeAt, List.take_left' rfl]

/-- Reading on from an offset leads to the place of the offset that is reached. -/
theorem after_placeAt (before text rest : List Char) :
    (placeAt (before ++ (text ++ rest)) before.length).after text =
      placeAt (before ++ (text ++ rest)) (before.length + text.length) := by
  have h := placeAt_length (before ++ text) rest
  rw [List.append_assoc, List.length_append] at h
  rw [placeAt_length, h, Position.after_append]

theorem placeAt_lt {source : List Char} {o o' : Nat} (h : o < o') (h' : o' ≤ source.length) :
    placeAt source o < placeAt source o' := by
  have ht : source.take o' = source.take o ++ (source.drop o).take (o' - o) := by
    rw [← List.take_add]
    congr 1
    omega
  have hne : (source.drop o).take (o' - o) ≠ [] := by
    intro he
    have := congrArg List.length he
    simp only [List.length_take, List.length_drop, List.length_nil] at this
    omega
  have h1 : placeAt source o = Position.after {} (source.take o) := by rw [after_eq, placeAt]
  have h2 : placeAt source o' = Position.after {} (source.take o') := by rw [after_eq, placeAt]
  rw [h1, h2, ht, Position.after_append]
  exact Position.lt_after hne _

/-! ## Findings with their offsets -/

/-- The characters that a finding is about; an unclosed string has one at least. -/
def Finding.width : Finding → Nat
  | token t => t.length
  | problem _ => 1

/-- The findings of pieces that stand one after the other from an offset on. -/
def found (source : List Char) : Nat → List Piece → List (Nat × Finding)
  | _, [] => []
  | o, q :: qs =>
    (q.finding? (placeAt source o)).toList.map (o, ·) ++ found source (o + q.text.length) qs

/-- What is found at an offset stands there in the text, and knows its place. -/
def Stands (source : List Char) (o : Nat) : Finding → Prop
  | .token t => t.lexeme <+: source.drop o ∧ t.start = placeAt source o
  | .problem ⟨p, .unexpected c⟩ => source[o]? = some c ∧ p = placeAt source o
  | .problem ⟨p, .unterminated⟩ => p = placeAt source source.length

theorem stands_piece {before rest : List Char} {q : Piece} {f : Finding} (hq : q.WellFormed)
    (hs : q.Stops rest)
    (hf : q.finding? (placeAt (before ++ (q.text ++ rest)) before.length) = some f) :
    Stands (before ++ (q.text ++ rest)) before.length f ∧ 0 < f.width ∧
      f.width ≤ q.text.length := by
  have hdrop : q.text <+: (before ++ (q.text ++ rest)).drop before.length := by
    rw [List.drop_left' rfl]
    exact List.prefix_append q.text rest
  have hpos := List.length_pos_iff.2 (Piece.text_ne_nil hq)
  cases q with
  | blank c => cases hf
  | comment body => cases hf
  | unclosed body =>
    obtain rfl : rest = [] := hs
    cases hf
    refine ⟨?_, Nat.zero_lt_one, hpos⟩
    rw [Stands, after_placeAt, List.append_nil, List.length_append]
  | stray c =>
    cases hf
    refine ⟨⟨?_, rfl⟩, Nat.zero_lt_one, hpos⟩
    rw [List.getElem?_append_right (Nat.le_refl _), Nat.sub_self]
    rfl
  | _ => cases hf; exact ⟨⟨hdrop, rfl⟩, hpos, Nat.le_refl _⟩

theorem mem_found_cons {source : List Char} {o : Nat} {q : Piece} {qs : List Piece}
    {x : Nat × Finding} :
    x ∈ found source o (q :: qs) ↔
      (x.1 = o ∧ q.finding? (placeAt source o) = some x.2) ∨
        x ∈ found source (o + q.text.length) qs := by
  rw [found, List.mem_append]
  refine or_congr_left ?_
  rw [List.mem_map]
  constructor
  · rintro ⟨f, hf, rfl⟩
    exact ⟨rfl, Option.mem_toList.1 hf⟩
  · rintro ⟨rfl, hf⟩
    exact ⟨x.2, Option.mem_toList.2 hf, rfl⟩

/-- The findings of a scan, with the offsets they stand at. -/
theorem found_findings {before s : List Char} {qs : List Piece} (h : Cuts s qs) :
    (found (before ++ s) before.length qs).map Prod.snd =
      findings (placeAt (before ++ s) before.length) qs := by
  induction h generalizing before with
  | nil => rfl
  | @cons q rest qs _ _ _ ih =>
    have htail := @ih (before ++ q.text)
    rw [List.append_assoc, List.length_append] at htail
    rw [found, findings, List.map_append, htail, after_placeAt, List.map_map]
    congr 1
    exact List.map_id _

/-- Every finding stands where its offset says, inside what is still to be read. -/
theorem found_stands {before s : List Char} {qs : List Piece} (h : Cuts s qs) :
    ∀ x ∈ found (before ++ s) before.length qs, Stands (before ++ s) x.1 x.2 ∧ 0 < x.2.width ∧
      before.length ≤ x.1 ∧ x.1 + x.2.width ≤ (before ++ s).length := by
  induction h generalizing before with
  | nil => intro x hx; cases hx
  | @cons q rest qs hq hs _ ih =>
    intro x hx
    rcases mem_found_cons.1 hx with ⟨he, hf⟩ | hx
    · obtain ⟨h1, h2, h3⟩ := stands_piece hq hs hf
      rw [he]
      refine ⟨h1, h2, Nat.le_refl _, ?_⟩
      simp only [List.length_append]
      omega
    · have hx' := @ih (before ++ q.text) x
      rw [List.append_assoc, List.length_append] at hx'
      obtain ⟨h1, h2, h3, h4⟩ := hx' hx
      exact ⟨h1, h2, by omega, h4⟩

/-- One finding ends at or before the place where the next one starts. -/
def Apart (x y : Nat × Finding) : Prop := x.1 < y.1 ∧ x.1 + x.2.width ≤ y.1

theorem found_apart {before s : List Char} {qs : List Piece} (h : Cuts s qs) :
    (found (before ++ s) before.length qs).Pairwise Apart := by
  induction h generalizing before with
  | nil => exact .nil
  | @cons q rest qs hq hs hc ih =>
    have htail := @ih (before ++ q.text)
    have hafter := @found_stands (before ++ q.text) rest qs hc
    rw [List.append_assoc, List.length_append] at htail hafter
    rw [found]
    cases hf : q.finding? (placeAt (before ++ (q.text ++ rest)) before.length) with
    | none => exact htail
    | some f =>
      obtain ⟨-, hpos, hwidth⟩ := stands_piece hq hs hf
      refine .cons ?_ htail
      intro y hy
      obtain ⟨-, -, hle, -⟩ := hafter y hy
      exact ⟨by show before.length < y.1; omega, by show before.length + f.width ≤ y.1; omega⟩

/-! ## Merging by place -/

/-- The place of a token or of a stray character. -/
def Finding.place? : Finding → Option Position
  | token t => some t.start
  | problem ⟨p, .unexpected _⟩ => some p
  | problem ⟨_, .unterminated⟩ => none

/-- The place of a stray character. -/
def Diagnostic.strayPlace? : Diagnostic → Option Position
  | ⟨p, .unexpected _⟩ => some p
  | ⟨_, .unterminated⟩ => none

theorem starts_sublist (fs : List Finding) :
    ((fs.filterMap Finding.token?).map Token.start).Sublist (fs.filterMap Finding.place?) := by
  induction fs with
  | nil => exact .slnil
  | cons f fs ih =>
    rcases f with t | ⟨p, c | _⟩
    · exact ih.cons_cons t.start
    · exact ih.cons p
    · exact ih

theorem strays_sublist (fs : List Finding) :
    ((fs.filterMap Finding.diagnostic?).filterMap Diagnostic.strayPlace?).Sublist
      (fs.filterMap Finding.place?) := by
  induction fs with
  | nil => exact .slnil
  | cons f fs ih =>
    rcases f with t | ⟨p, c | _⟩
    · exact ih.cons t.start
    · exact ih.cons_cons p
    · exact ih

theorem places_perm (fs : List Finding) :
    (fs.filterMap Finding.place?).Perm ((fs.filterMap Finding.token?).map Token.start ++
      (fs.filterMap Finding.diagnostic?).filterMap Diagnostic.strayPlace?) := by
  induction fs with
  | nil => exact .nil
  | cons f fs ih =>
    rcases f with t | ⟨p, c | _⟩
    · exact ih.cons t.start
    · exact (ih.cons p).trans List.perm_middle.symm
    · exact ih

/-- Two increasing lists that have nothing in common merge to an increasing one. -/
theorem merge_increasing {ps qs all : List Position} (hall : all.Pairwise (· < ·))
    (hp : ps.Sublist all) (hq : qs.Sublist all) (hperm : all.Perm (ps ++ qs)) :
    (List.merge ps qs Position.le).Pairwise (· < ·) := by
  have hle : all.Pairwise fun p q => p.le q = true := hall.imp Position.le_of_lt
  have hsorted : (List.merge ps qs Position.le).Pairwise fun p q => p.le q = true :=
    @List.pairwise_merge Position Position.le (fun _ _ _ => Position.le_trans) Position.le_total
      ps qs (hle.sublist hp) (hle.sublist hq)
  have hnodup : (List.merge ps qs Position.le).Nodup := by
    refine ((List.merge_perm_append Position.le).trans hperm.symm).nodup_iff.2 (hall.imp ?_)
    rintro p q h rfl
    exact Position.lt_irrefl p h
  exact (hsorted.and hnodup).imp fun h => Position.lt_of_le_of_ne h.1 h.2

/-! ## The places of a scan -/

section
variable (source : List Char)

theorem scan_found : (found source 0 (pieces source)).map Prod.snd = (scan source).findings :=
  @found_findings [] source _ (cuts_pieces source)

theorem scan_stands : ∀ x ∈ found source 0 (pieces source),
    Stands source x.1 x.2 ∧ 0 < x.2.width ∧ x.1 + x.2.width ≤ source.length := by
  intro x hx
  obtain ⟨h1, h2, -, h3⟩ := @found_stands [] source _ (cuts_pieces source) x hx
  exact ⟨h1, h2, h3⟩

theorem scan_apart : (found source 0 (pieces source)).Pairwise Apart :=
  @found_apart [] source _ (cuts_pieces source)

theorem stop_eq : (scan source).stop = placeAt source source.length := by
  rw [stop_scan, after_eq, placeAt, List.take_length]

/-- Tokens and stray characters come in the order of their places, the end of the text last. -/
theorem places_increasing :
    ((scan source).findings.filterMap Finding.place? ++ [(scan source).stop]).Pairwise (· < ·) := by
  have hplace : ∀ x ∈ found source 0 (pieces source), ∀ p ∈ x.2.place?, p = placeAt source x.1 := by
    rintro ⟨o, t | ⟨p, c | _⟩⟩ hx q hq
    · obtain rfl := Option.some.inj hq
      exact (scan_stands source _ hx).1.2
    · obtain rfl := Option.some.inj hq
      exact (scan_stands source _ hx).1.2
    · cases hq
  rw [← scan_found, List.filterMap_map, List.pairwise_append]
  refine ⟨?_, List.pairwise_singleton _ _, ?_⟩
  · rw [List.pairwise_filterMap]
    refine List.Pairwise.imp_of_mem ?_ (scan_apart source)
    intro x y hx hy hxy p hp q hq
    rw [hplace x hx p hp, hplace y hy q hq]
    have hlen := (scan_stands source y hy).2.2
    exact placeAt_lt hxy.1 (by omega)
  · intro p hp q hq
    obtain ⟨x, hx, hp⟩ := List.mem_filterMap.1 hp
    obtain rfl := List.mem_singleton.1 hq
    obtain ⟨-, hpos, hlen⟩ := scan_stands source x hx
    rw [hplace x hx p hp, stop_eq]
    exact placeAt_lt (by omega) (Nat.le_refl _)

/-! ## Tokens with their offsets -/

def placedToken? (x : Nat × Finding) : Option (Nat × Token) := x.2.token?.map (x.1, ·)

theorem eq_of_placedToken? {x : Nat × Finding} {a : Nat × Token} (h : placedToken? x = some a) :
    x = (a.1, .token a.2) := by
  rcases x with ⟨o, t | d⟩
  · obtain rfl := Option.some.inj h; rfl
  · cases h

/-- The tokens of a scan with their offsets. -/
def placed : List (Nat × Token) :=
  (found source 0 (pieces source)).filterMap placedToken? ++
    [(source.length, Token.endOfText (placeAt source source.length))]

theorem mem_placed {a : Nat × Token} (h : a ∈ placed source) :
    (a.1, .token a.2) ∈ found source 0 (pieces source) ∨
      a = (source.length, Token.endOfText (placeAt source source.length)) := by
  rcases List.mem_append.1 h with h | h
  · obtain ⟨x, hx, ha⟩ := List.mem_filterMap.1 h
    rw [eq_of_placedToken? ha] at hx
    exact .inl hx
  · exact .inr (List.mem_singleton.1 h)

theorem placed_tokens : (placed source).map Prod.snd = (scan source).tokens := by
  rw [placed, List.map_append, List.map_filterMap, Scan.tokens, ← scan_found, List.filterMap_map,
    stop_eq]
  congr 2
  funext x
  rcases x with ⟨o, t | d⟩ <;> rfl

theorem placed_apart :
    (placed source).Pairwise fun x y => x.1 < y.1 ∧ x.1 + x.2.length ≤ y.1 := by
  rw [placed, List.pairwise_append]
  refine ⟨?_, List.pairwise_singleton _ _, ?_⟩
  · refine List.Pairwise.filterMap placedToken? ?_ (scan_apart source)
    intro x y hxy a ha b hb
    rw [eq_of_placedToken? ha, eq_of_placedToken? hb] at hxy
    exact hxy
  · intro a ha b hb
    obtain ⟨x, hx, ha⟩ := List.mem_filterMap.1 ha
    obtain rfl := List.mem_singleton.1 hb
    obtain ⟨-, hpos, hlen⟩ := scan_stands source x hx
    rw [eq_of_placedToken? ha] at hpos hlen
    exact ⟨by show a.1 < source.length; omega, hlen⟩

theorem placed_stands : ∀ a ∈ placed source,
    a.2.lexeme <+: source.drop a.1 ∧ a.2.start = placeAt source a.1 := by
  intro a ha
  rcases mem_placed source ha with ha | rfl
  · exact (scan_stands source _ ha).1
  · exact ⟨List.nil_prefix, rfl⟩

/-- A problem that was found at an offset has no token around it. -/
theorem problem_outside {o : Nat} {d : Diagnostic}
    (h : (o, .problem d) ∈ found source 0 (pieces source)) :
    ∀ a ∈ placed source, ¬ (a.1 ≤ o ∧ o < a.1 + a.2.length) := by
  rintro a ha ⟨hle, hlt⟩
  rcases mem_placed source ha with ha | rfl
  · have hsymm : Std.Symm fun x y => Apart x y ∨ Apart y x := ⟨fun _ _ => Or.symm⟩
    have hsides : (found source 0 (pieces source)).Pairwise fun x y => Apart x y ∨ Apart y x :=
      (scan_apart source).imp Or.inl
    rcases hsides.forall h ha (by simp) with h | h
    · exact absurd hle (Nat.not_le.2 h.1)
    · exact absurd hlt (Nat.not_lt.2 h.2)
  · exact absurd hlt (Nat.not_lt.2 hle)

theorem problem_placed {d : Diagnostic} (hd : d ∈ (scan source).diagnostics) :
    (∃ c o, d = ⟨placeAt source o, .unexpected c⟩ ∧ source[o]? = some c ∧
      ∀ a ∈ placed source, ¬ (a.1 ≤ o ∧ o < a.1 + a.2.length)) ∨
    d = ⟨placeAt source source.length, .unterminated⟩ := by
  rw [Scan.diagnostics, ← scan_found, List.filterMap_map] at hd
  obtain ⟨⟨o, f⟩, hx, hf⟩ := List.mem_filterMap.1 hd
  have hstands := (scan_stands source _ hx).1
  rcases f with t | ⟨p, c | _⟩
  · cases hf
  · obtain rfl := Option.some.inj hf
    obtain ⟨hc, hp⟩ : source[o]? = some c ∧ p = placeAt source o := hstands
    exact .inl ⟨c, o, congrArg (Diagnostic.mk · (.unexpected c)) hp, hc, problem_outside source hx⟩
  · obtain rfl := Option.some.inj hf
    exact .inr (congrArg (Diagnostic.mk · .unterminated) hstands)

theorem merged_increasing :
    (List.merge ((scan source).tokens.map Token.start)
      ((scan source).diagnostics.filterMap Diagnostic.strayPlace?) Position.le).Pairwise
        (· < ·) := by
  rw [Scan.tokens, List.map_append, Scan.diagnostics]
  refine merge_increasing (places_increasing source) ?_ ?_ ?_
  · exact (starts_sublist _).append (List.Sublist.refl _)
  · exact (strays_sublist _).trans (List.sublist_append_left _ _)
  · rw [List.append_assoc]
    refine ((places_perm _).append_right _).trans ?_
    rw [List.append_assoc]
    exact List.perm_append_comm.append_left _

end

/-- **Places.** The tokens of a scan have offsets in the text at which they stand, without overlap
and with the end of the text last; stray characters stand outside of them; all places are those of
the offsets, an unclosed string being told at the end of the text; and the places of tokens and
stray characters, merged, are strictly increasing. -/
theorem scan_places (source : List Char) :
    ∃ placed : List (Nat × Token),
      placed.map Prod.snd = (scan source).tokens ∧
      placed.Pairwise (fun x y => x.1 < y.1 ∧ x.1 + x.2.length ≤ y.1) ∧
      (∀ x ∈ placed, x.2.lexeme <+: source.drop x.1 ∧ x.2.start = placeAt source x.1) ∧
      placed.getLast? = some (source.length, Token.endOfText (placeAt source source.length)) ∧
      (∀ d ∈ (scan source).diagnostics,
        (∃ c o, d = ⟨placeAt source o, .unexpected c⟩ ∧ source[o]? = some c ∧
          ∀ x ∈ placed, ¬ (x.1 ≤ o ∧ o < x.1 + x.2.length)) ∨
        d = ⟨placeAt source source.length, .unterminated⟩) ∧
      (List.merge ((scan source).tokens.map Token.start)
        ((scan source).diagnostics.filterMap Diagnostic.strayPlace?) Position.le).Pairwise
          (· < ·) := by
  refine ⟨placed source, placed_tokens source, placed_apart source, placed_stands source, ?_,
    fun d hd => problem_placed source hd, merged_increasing source⟩
  rw [placed, List.getLast?_append]
  rfl

end Lox

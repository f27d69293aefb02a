import Mathlib.Data.List.Forall2
import Lox.Proofs.Content
import Lox.Proofs.Places

/-!
# Going on after an error

A stray character is skipped, and nothing else is lost: it parts the text around it just as a blank
does. So a text in which every reported character has been replaced by a space gives the same
tokens, at the same places, and what remains to report is an unclosed string. Such a string takes
all of the text behind its quote, and leaves all that stands before the quote as it is.

Results:
* `cuts_softened`: pieces with their stray characters softened to blanks are cut apart again.
* `blanked_eq`: replacing what was reported is softening the pieces.
* `cuts_before`: the pieces up to any of them are those of the text up to there.
* `scan_recovers`: what both say about whole scans.
-/
namespace Lox

/-! ## Softening -/

/-- A stray character turned into a space. -/
def Piece.soften : Piece → Piece
  | stray _ => blank ' '
  | q => q

/-- The text of pieces, with the stray ones softened. -/
def softText (qs : List Piece) : List Char := (qs.map Piece.soften).flatMap Piece.text

/-- Texts that differ in spaces for stray characters only. -/
def Softened : List Char → List Char → Prop :=
  List.Forall₂ fun c d => c = d ∨ (Piece.isStray c = true ∧ d = ' ')

theorem softened_refl (cs : List Char) : Softened cs cs :=
  List.forall₂_same.2 fun _ _ => .inl rfl

theorem softened_soften {q : Piece} (hq : q.WellFormed) : Softened q.text q.soften.text := by
  cases q with
  | stray c => exact .cons (.inr ⟨hq, rfl⟩) .nil
  | _ => exact softened_refl _

theorem breaks_softened {p : Char → Bool} {as bs : List Char}
    (hp : ∀ c, Piece.isStray c = true → p c = false → p ' ' = false) (h : Softened as bs)
    (ha : Breaks p as) : Breaks p bs := by
  cases h with
  | nil => exact breaks_nil p
  | @cons c d as bs hcd _ =>
    rw [breaks_cons] at ha ⊢
    rcases hcd with rfl | ⟨hc, rfl⟩
    · exact ha
    · exact hp c hc ha

/-- A piece stops where it stopped before. For a comment this needs that a line feed is no stray
character. -/
theorem stops_softened {q : Piece} {as bs : List Char} (h : Softened as bs) (hs : q.Stops as) :
    q.Stops bs := by
  cases q with
  | blank c => trivial
  | comment body =>
    refine breaks_softened ?_ h hs
    intro c hc hline
    obtain rfl : c = '\n' := by simpa using hline
    exact absurd hc (by decide)
  | string body => trivial
  | number whole fraction =>
    have hdigit : ∀ {as bs}, Softened as bs → Breaks Char.isDigit as → Breaks Char.isDigit bs :=
      breaks_softened fun _ _ _ => rfl
    cases fraction with
    | none =>
      obtain ⟨hstop, hpoint⟩ := hs
      refine ⟨hdigit h hstop, ?_⟩
      cases h with
      | nil => exact fun _ => breaks_nil _
      | @cons c d as bs hcd htail =>
        intro he
        obtain rfl : d = '.' := Option.some.inj he
        rcases hcd with rfl | ⟨-, hd⟩
        · exact hdigit htail (hpoint rfl)
        · exact absurd hd (by decide)
    | some places => exact hdigit h hs
  | word text => exact breaks_softened (fun _ _ _ => by decide) h hs
  | symbol s =>
    exact ⟨fun he => breaks_softened (fun _ _ _ => rfl) h (hs.1 he),
      fun he => breaks_softened (fun _ _ _ => rfl) h (hs.2 he)⟩
  | unclosed body =>
    obtain rfl : as = [] := hs
    cases h
    exact rfl
  | stray c => trivial

theorem wellFormed_soften {q : Piece} (hq : q.WellFormed) : q.soften.WellFormed := by
  cases q with
  | stray c => exact rfl
  | _ => exact hq

/-- Pieces are cut apart in the softened text as in the text itself. -/
theorem cuts_softened {s : List Char} {qs : List Piece} (h : Cuts s qs) :
    Softened s (softText qs) ∧ Cuts (softText qs) (qs.map Piece.soften) := by
  induction h with
  | nil => exact ⟨.nil, .nil⟩
  | @cons q rest qs hq hs _ ih =>
    obtain ⟨hrest, hcuts⟩ := ih
    refine ⟨List.rel_append (softened_soften hq) hrest, .cons (wellFormed_soften hq) ?_ hcuts⟩
    have hstops := stops_softened hrest hs
    cases q with
    | stray c => trivial
    | _ => exact hstops

/-! ## What is found in a softened text -/

theorem after_softened {as bs : List Char} (h : Softened as bs) (p : Position) :
    p.after as = p.after bs := by
  induction h generalizing p with
  | nil => rfl
  | @cons c d as bs hcd _ ih =>
    rcases hcd with rfl | ⟨hc, rfl⟩
    · exact ih _
    · have hline : c ≠ '\n' := ne_of_test hc (by decide)
      rw [Position.after_cons, Position.after_cons, ih, Position.next, if_neg hline]
      rfl

/-- The finding is a stray character. -/
def Finding.isStray : Finding → Bool
  | problem ⟨_, .unexpected _⟩ => true
  | _ => false

theorem finding_soften (q : Piece) (p : Position) :
    (q.soften.finding? p).toList = (q.finding? p).toList.filter (!·.isStray) := by
  cases q <;> rfl

/-- Stray characters are no longer found; all else is found where it was. -/
theorem findings_soften {qs : List Piece} (h : ∀ q ∈ qs, q.WellFormed) (p : Position) :
    findings p (qs.map Piece.soften) = (findings p qs).filter (!·.isStray) := by
  induction qs generalizing p with
  | nil => rfl
  | cons q qs ih =>
    obtain ⟨hq, hqs⟩ := List.forall_mem_cons.1 h
    rw [List.map_cons, findings, findings, List.filter_append, finding_soften,
      ← after_softened (softened_soften hq), ih hqs]

theorem tokens_not_stray (fs : List Finding) :
    (fs.filter (!·.isStray)).filterMap Finding.token? = fs.filterMap Finding.token? := by
  rw [List.filterMap_filter]
  refine List.filterMap_congr ?_
  intro f _
  rcases f with t | ⟨p, c | _⟩ <;> rfl

theorem diagnostics_not_stray (fs : List Finding) :
    (fs.filter (!·.isStray)).filterMap Finding.diagnostic? =
      (fs.filterMap Finding.diagnostic?).filter (·.problem = .unterminated) := by
  rw [List.filterMap_filter, List.filter_filterMap]
  refine List.filterMap_congr ?_
  intro f _
  rcases f with t | ⟨p, c | _⟩ <;> rfl

/-! ## Replacing what was reported -/

/-- The text with a space for every character that its scan reports. -/
def blanked (source : List Char) : List Char :=
  source.mapIdx fun o c =>
    if ⟨placeAt source o, .unexpected c⟩ ∈ (scan source).diagnostics then ' ' else c

theorem placeAt_injective {source : List Char} {o o' : Nat} (ho : o ≤ source.length)
    (ho' : o' ≤ source.length) (h : placeAt source o = placeAt source o') : o = o' := by
  rcases Nat.lt_trichotomy o o' with hlt | heq | hlt
  · exact absurd (h ▸ placeAt_lt hlt ho') (Position.lt_irrefl _)
  · exact heq
  · exact absurd (h ▸ placeAt_lt hlt ho) (Position.lt_irrefl _)

theorem stray_of_finding {q : Piece} {p place : Position} {c : Char}
    (h : q.finding? p = some (.problem ⟨place, .unexpected c⟩)) : q = .stray c := by
  cases q with
  | unclosed body => exact absurd (Finding.problem.inj (Option.some.inj h)) (by simp)
  | stray d =>
    cases h
    rfl
  | _ => cases h

/-- Pieces that stand one after the other from an offset `o` on have a stray character at `i`. -/
def StrayAt (source : List Char) (o : Nat) (qs : List Piece) (i : Nat) (c : Char) : Prop :=
  (i, .problem ⟨placeAt source i, .unexpected c⟩) ∈ found source o qs

instance (source : List Char) (o : Nat) (qs : List Piece) (i : Nat) (c : Char) :
    Decidable (StrayAt source o qs i c) :=
  inferInstanceAs (Decidable (_ ∈ _))

section
variable {source : List Char} {o i : Nat} {q : Piece} {qs : List Piece} {c : Char}

theorem strayAt_cons : StrayAt source o (q :: qs) i c ↔
    (i = o ∧ q = .stray c) ∨ StrayAt source (o + q.text.length) qs i c := by
  rw [StrayAt, mem_found_cons]
  refine or_congr_left ?_
  constructor
  · rintro ⟨he, hf⟩
    exact ⟨he, stray_of_finding hf⟩
  · rintro ⟨rfl, rfl⟩
    exact ⟨rfl, rfl⟩

theorem le_of_strayAt {before s : List Char} (h : Cuts s qs)
    (hstray : StrayAt (before ++ s) before.length qs i c) : before.length ≤ i := by
  obtain ⟨-, -, hle, -⟩ := found_stands h _ hstray
  exact hle

/-- A character is reported at the place of an offset exactly if it is found to be stray there. -/
theorem reported_iff (ho : o < source.length) :
    ⟨placeAt source o, .unexpected c⟩ ∈ (scan source).diagnostics ↔
      StrayAt source 0 (pieces source) o c := by
  rw [Scan.diagnostics, ← scan_found, List.filterMap_map, List.mem_filterMap]
  constructor
  · rintro ⟨⟨o', t | d⟩, hx, hd⟩
    · cases hd
    · obtain rfl := Option.some.inj hd
      obtain ⟨⟨-, hplace⟩, hwidth, hend⟩ := scan_stands source _ hx
      obtain rfl : o = o' := placeAt_injective (by omega) (by omega) hplace
      exact hx
  · intro hx
    exact ⟨_, hx, rfl⟩

end

theorem mapIdx_eq_self {f : Nat → Char → Char} {cs : List Char}
    (h : ∀ i c, i < cs.length → f i c = c) : cs.mapIdx f = cs := by
  induction cs generalizing f with
  | nil => rfl
  | cons c cs ih =>
    rw [List.mapIdx_cons, h 0 c (Nat.succ_pos _), ih]
    intro i d hi
    exact h (i + 1) d (Nat.succ_lt_succ hi)

/-- Softening goes by offsets: it changes the characters that are found to be stray. -/
theorem softText_eq {before s : List Char} {qs : List Piece} (h : Cuts s qs) :
    softText qs = s.mapIdx fun i c =>
      if StrayAt (before ++ s) before.length qs (before.length + i) c then ' ' else c := by
  induction h generalizing before with
  | nil => rfl
  | @cons q rest qs hq hs hrest ih =>
    have htail := @ih (before ++ q.text)
    have hafter := fun i c => @le_of_strayAt i qs c (before ++ q.text) rest hrest
    rw [List.append_assoc, List.length_append] at htail hafter
    have hpos := List.length_pos_iff.2 (Piece.text_ne_nil hq)
    rw [List.mapIdx_append, softText, List.map_cons, List.flatMap_cons]
    congr 1
    · cases q with
      | stray c => exact congrArg (· :: []) (if_pos (strayAt_cons.2 (.inl ⟨rfl, rfl⟩))).symm
      | _ =>
        -- The pieces behind this one have no character among its own.
        symm
        refine mapIdx_eq_self ?_
        intro i c hi
        refine if_neg ?_
        rw [strayAt_cons]
        rintro (⟨-, he⟩ | hlater)
        · cases he
        · have hle := hafter _ c hlater
          omega
    · refine htail.trans ?_
      congr 1
      funext i c
      have hoffset : before.length + (i + q.text.length) = before.length + q.text.length + i := by
        omega
      rw [hoffset]
      refine if_congr ?_ rfl rfl
      rw [strayAt_cons]
      refine (or_iff_right ?_).symm
      rintro ⟨he, -⟩
      omega

theorem blanked_eq (source : List Char) : blanked source = softText (pieces source) := by
  rw [@softText_eq [] source _ (cuts_pieces source), blanked]
  refine List.mapIdx_eq_mapIdx_iff.2 ?_
  intro o ho
  refine if_congr ?_ rfl rfl
  rw [reported_iff ho]
  simp only [List.length_nil, List.nil_append, Nat.zero_add]

theorem findings_blanked (source : List Char) :
    (scan (blanked source)).findings = (scan source).findings.filter (!·.isStray) := by
  have hcuts := cuts_pieces source
  have hsoft := pieces_of_cuts (cuts_softened hcuts).2
  show findings {} (pieces (blanked source)) = _
  rw [blanked_eq, hsoft]
  exact findings_soften (fun q hq => wellFormed_of_mem hcuts hq) {}

theorem stop_blanked (source : List Char) : (scan (blanked source)).stop = (scan source).stop := by
  rw [stop_scan, stop_scan, blanked_eq]
  exact (after_softened (cuts_softened (cuts_pieces source)).1 {}).symm

/-! ## Before an unclosed string -/

/-- The pieces up to any of them are those of the text up to there. -/
theorem cuts_before {s : List Char} {qs rs : List Piece} (h : Cuts s (qs ++ rs)) :
    Cuts (qs.flatMap Piece.text) qs := by
  induction qs generalizing s with
  | nil => exact .nil
  | cons q qs ih =>
    cases h with
    | @cons _ rest _ hq hs hrest =>
      have htext : rest = (qs ++ rs).flatMap Piece.text := by
        have hpieces := pieces_of_cuts hrest
        rw [← List.append_eq, ← hpieces, pieces_text]
      rw [htext, List.flatMap_append] at hs
      exact .cons hq (Piece.stops_mono (List.prefix_append _ _) hs) (ih hrest)

/-- An unclosed string is the last piece. -/
theorem unclosed_last {s : List Char} {qs rs : List Piece} {body : List Char}
    (h : Cuts s (qs ++ .unclosed body :: rs)) : rs = [] := by
  induction qs generalizing s with
  | nil =>
    cases h with
    | @cons _ rest _ _ hs hrest =>
      obtain rfl : rest = [] := hs
      rw [← pieces_of_cuts hrest, pieces_nil]
  | cons q qs ih =>
    cases h with
    | cons _ _ hrest => exact ih hrest

/-- An open text is a closed one and a quote that nothing closes. -/
theorem pieces_open {source : List Char} (h : ¬ (scan source).Closed) :
    ∃ before body, source = before ++ '"' :: body ∧ '"' ∉ body ∧
      pieces source = pieces before ++ [.unclosed body] := by
  rw [closed_iff, not_forall] at h
  obtain ⟨body, hbody⟩ := h
  obtain ⟨qs, rs, he⟩ := List.append_of_mem (not_not.1 hbody)
  have hcuts := cuts_pieces source
  have hwell := wellFormed_of_mem hcuts (not_not.1 hbody)
  rw [he] at hcuts
  obtain rfl := unclosed_last hcuts
  refine ⟨qs.flatMap Piece.text, body, ?_, hwell, ?_⟩
  · rw [← pieces_text source, he, List.flatMap_append]
    simp [Piece.text]
  · rw [he, pieces_of_cuts (cuts_before hcuts)]

theorem findings_open {source before body : List Char} (hsource : source = before ++ '"' :: body)
    (h : pieces source = pieces before ++ [.unclosed body]) :
    (scan source).findings =
      (scan before).findings ++ [.problem ⟨(scan source).stop, .unterminated⟩] := by
  show findings {} (pieces source) = findings {} (pieces before) ++ _
  rw [h, findings_append, pieces_text, stop_scan, hsource, Position.after_append]
  rfl

/-- Before its last piece a text is closed. -/
theorem closed_before {source before body : List Char}
    (h : pieces source = pieces before ++ [.unclosed body]) : (scan before).Closed := by
  refine closed_iff.2 ?_
  intro b hb
  obtain ⟨qs, rs, he⟩ := List.append_of_mem hb
  have hcuts := cuts_pieces source
  rw [h, he, List.append_assoc, List.cons_append] at hcuts
  exact List.append_ne_nil_of_right_ne_nil rs (List.cons_ne_nil _ _) (unclosed_last hcuts)

/-- **Recovery.** With a space for every character that was reported, a text gives the same tokens
at the same places, and an unclosed string is all there is to report, where it was. If there is one,
the text before its quote gives the same tokens, but for the place of the end, and the same
characters are reported. -/
theorem scan_recovers (source : List Char) :
    (scan (blanked source)).tokens = (scan source).tokens ∧
    (scan (blanked source)).diagnostics =
      (scan source).diagnostics.filter (·.problem = .unterminated) ∧
    (¬ (scan source).Closed → ∃ before body, source = before ++ '"' :: body ∧ '"' ∉ body ∧
      pieces source = pieces before ++ [.unclosed body] ∧
      (scan before).tokens =
        (scan source).words ++ [Token.endOfText (placeAt source before.length)] ∧
      (scan before).Closed ∧
      (scan source).diagnostics =
        (scan before).diagnostics ++ [⟨(scan source).stop, .unterminated⟩]) := by
  refine ⟨?_, ?_, ?_⟩
  · rw [Scan.tokens, Scan.tokens, findings_blanked, tokens_not_stray, stop_blanked]
  · rw [Scan.diagnostics, findings_blanked, diagnostics_not_stray]
    rfl
  · intro hopen
    obtain ⟨before, body, hsource, hbody, hpieces⟩ := pieces_open hopen
    have hfindings := findings_open hsource hpieces
    refine ⟨before, body, hsource, hbody, hpieces, ?_, ?_, ?_⟩
    · have hwords : (scan source).words = (scan before).words := by
        rw [words_scan, hfindings, List.filterMap_append, words_scan]
        exact List.append_nil _
      rw [tokens_scan before, hwords, stop_scan, hsource, placeAt_length]
    · exact closed_before hpieces
    · rw [Scan.diagnostics, hfindings, List.filterMap_append]
      rfl

/-- Stray characters between digits, before a point and between two symbols, and others that stay
where they are, in a string, in a comment and behind a quote that nothing closes. -/
theorem scan_recovers_mixed :
    blanked "1#2@.3=&=\"#\"//@\né\"a\n#".toList = "1 2 .3= =\"#\"//@\n \"a\n#".toList ∧
    (scan "1 2 .3= =\"#\"//@\n \"a\n#".toList).tokens =
      (scan "1#2@.3=&=\"#\"//@\né\"a\n#".toList).tokens ∧
    ¬ (scan "1#2@.3=&=\"#\"//@\né\"a\n#".toList).Closed ∧
    ∃ before body, "1#2@.3=&=\"#\"//@\né\"a\n#".toList = before ++ '"' :: body ∧ '"' ∉ body ∧
      (scan before).diagnostics ++ [⟨⟨3, 2⟩, .unterminated⟩] =
        (scan "1#2@.3=&=\"#\"//@\né\"a\n#".toList).diagnostics := by
  have hblanked : blanked "1#2@.3=&=\"#\"//@\né\"a\n#".toList =
      "1 2 .3= =\"#\"//@\n \"a\n#".toList := by decide +kernel
  have hopen : ¬ (scan "1#2@.3=&=\"#\"//@\né\"a\n#".toList).Closed := by
    unfold Scan.Closed
    decide +kernel
  obtain ⟨htokens, -, hcut⟩ := scan_recovers "1#2@.3=&=\"#\"//@\né\"a\n#".toList
  obtain ⟨before, body, hsource, hbody, -, -, -, hdiagnostics⟩ := hcut hopen
  rw [hblanked] at htokens
  exact ⟨hblanked, htokens, hopen, before, body, hsource, hbody, hdiagnostics.symm⟩

end Lox

import Lox.Proofs.Cursor

/-!
# Every run ends

A run of the scanner never breaks off. From each place that it comes to, a step reads a character or
comes nearer to the end of a token, so after three steps for each character, and two more, it has
halted, and it has found what the scan of the text gives. On the way its counters stay in bounds.

Results:
* `states_reached`: after any number of steps the run is at a known place.
* `current_mono`, `call_returns`: the cursor never goes back, and every token comes to its end.
* `states_halted`: the run halts.
* `scan_total`: all of it, for every text.
-/
namespace Lox
namespace Cursor

variable {source before rest : List Char} {s s' : State}

/-! ## Between two tokens -/

/-- Where a run can be. -/
def Reached (source : List Char) (s : State) : Prop :=
  Running source s ∨ (s.mode = .halted ∧ Settled source s source [])

theorem reached_start (source : List Char) : Reached source {} := by
  have hsettled : Settled source {} [] source := ⟨rfl, Nat.le_refl 0, rfl, rfl, rfl⟩
  exact .inl (.between rfl hsettled)

/-- A new token starts where the cursor is. -/
theorem Settled.reading (h : Settled source s before rest) :
    Reading source { s with start := s.current, startPlace := s.place, mode := .first } before []
      rest :=
  ⟨h.text, h.current, h.current, h.place, rfl, h.found⟩

theorem Settled.atEnd_eq (h : Settled source s before rest) : atEnd source s = rest.isEmpty :=
  h.reading.atEnd_eq

/-- Between two tokens a step goes to the next one, or it halts. -/
theorem step_between (hmode : s.mode = .between) (h : Settled source s before rest) :
    Leads source s (step source s) ∨
      ∃ s', step source s = .ok s' ∧ s'.mode = .halted ∧ s'.current = s.current ∧
        Settled source s' source [] := by
  simp only [step, hmode, h.atEnd_eq]
  cases rest with
  | nil =>
    have hall : source = before := h.text.trans (List.append_nil before)
    subst hall
    exact .inr ⟨_, rfl, rfl, rfl, ⟨h.text, h.start, h.current, h.place, h.found⟩⟩
  | cons c rest =>
    refine .inl ⟨_, rfl, .reading ⟨rfl, List.cons_ne_nil c rest⟩ h.reading, .inr ⟨rfl, ?_⟩⟩
    rw [hmode]
    exact Nat.zero_lt_one

/-! ## One step -/

/-- The steps that are left, at most. -/
def potential (source : List Char) (s : State) : Nat :=
  3 * (source.length - s.current) + s.mode.rank

theorem rank_le (m : Mode) : m.rank ≤ 2 := by
  cases m <;> simp [Mode.rank]

theorem potential_lt (h : Progress source s s') : potential source s' < potential source s := by
  have hrank := rank_le s'.mode
  unfold potential
  rcases h with ⟨hcurrent, hlt⟩ | ⟨hcurrent, hlt⟩ <;> omega

theorem current_le (h : Progress source s s') : s.current ≤ s'.current := by
  rcases h with ⟨hcurrent, -⟩ | ⟨hcurrent, -⟩ <;> omega

/-- From the first character of a token a step can only move on. -/
theorem current_lt (h : Progress source s s') (hmode : s.mode = .first) :
    s.current < s'.current := by
  rcases h with ⟨hcurrent, -⟩ | ⟨-, hlt⟩
  · omega
  · rw [hmode] at hlt
    exact absurd hlt (Nat.not_lt_zero _)

theorem Running.mode_ne (h : Running source s) : s.mode ≠ .halted ∧ s.mode ≠ .unread := by
  cases h with
  | between hmode _ =>
    rw [hmode]
    decide
  | reading hb _ =>
    constructor <;> (intro hmode; rw [hmode] at hb; exact hb)

/-- Where a token is being read, a step leads on. -/
theorem leads_of_running (h : Running source s) (hmode : s.mode ≠ .between) :
    Leads source s (step source s) := by
  cases h with
  | between he _ => exact absurd he hmode
  | reading hb h => exact h.leads_step hb

/-- What holds behind a step. -/
structure Next (source : List Char) (s s' : State) : Prop where
  reached : Reached source s'
  current : s.current ≤ s'.current
  first : s.mode = .first → s.current < s'.current
  left : s'.mode = .halted ∨ (s.mode ≠ .halted ∧ potential source s' < potential source s)

theorem next_of_leads (hrun : Running source s) (h : Leads source s (step source s)) :
    ∃ s', step source s = .ok s' ∧ Next source s s' := by
  obtain ⟨s', hstep, hrun', hprogress⟩ := h
  exact ⟨s', hstep, .inl hrun', current_le hprogress, current_lt hprogress,
    .inr ⟨hrun.mode_ne.1, potential_lt hprogress⟩⟩

/-- **One step** never breaks off, from any place that a run can be at. -/
theorem step_next (h : Reached source s) : ∃ s', step source s = .ok s' ∧ Next source s s' := by
  rcases h with hrun | ⟨hmode, h⟩
  · by_cases hmode : s.mode = .between
    · cases hrun with
      | between _ h =>
        rcases step_between hmode h with hleads | ⟨s', hstep, hhalted, hsame, hs'⟩
        · exact next_of_leads (.between hmode h) hleads
        · refine ⟨s', hstep, .inr ⟨hhalted, hs'⟩, Nat.le_of_eq hsame.symm, ?_, .inl hhalted⟩
          intro hfirst
          rw [hmode] at hfirst
          cases hfirst
      | reading hb _ =>
        rw [hmode] at hb
        exact hb.elim
    · exact next_of_leads hrun (leads_of_running hrun hmode)
  · refine ⟨s, by simp only [step, hmode], .inr ⟨hmode, h⟩, Nat.le_refl _, ?_, .inl hmode⟩
    intro hfirst
    rw [hmode] at hfirst
    cases hfirst

/-! ## Runs -/

theorem states_succ {n : Nat} (h : states source n = .ok s) :
    states source (n + 1) = step source s := by
  rw [states, h]
  rfl

/-- A run comes to known places only, and to its end. -/
theorem states_reached (source : List Char) (n : Nat) :
    ∃ s, states source n = .ok s ∧ Reached source s ∧
      (s.mode = .halted ∨ n + potential source s ≤ 3 * source.length + 1) := by
  induction n with
  | zero =>
    refine ⟨{}, rfl, reached_start source, .inr ?_⟩
    rw [Nat.zero_add]
    exact Nat.le_refl _
  | succ n ih =>
    obtain ⟨s, hs, hreached, hleft⟩ := ih
    obtain ⟨s', hstep, hnext⟩ := step_next hreached
    refine ⟨s', (states_succ hs).trans hstep, hnext.reached, ?_⟩
    rcases hnext.left with hhalted | ⟨hmode, hlt⟩
    · exact .inl hhalted
    · have hle := hleft.resolve_left hmode
      exact .inr (by omega)

/-- The cursor never goes back, and from the first character of a token it has moved on. -/
theorem current_mono {n : Nat} (hs : states source n = .ok s) (k : Nat)
    (hs' : states source (n + k) = .ok s') :
    s.current ≤ s'.current ∧ (s.mode = .first → 0 < k → s.current < s'.current) := by
  induction k generalizing s' with
  | zero =>
    obtain rfl : s = s' := Except.ok.inj (hs.symm.trans hs')
    exact ⟨Nat.le_refl _, fun _ hk => absurd hk (Nat.lt_irrefl 0)⟩
  | succ k ih =>
    obtain ⟨t, ht, hreached, -⟩ := states_reached source (n + k)
    obtain ⟨hle, hlt⟩ := ih ht
    obtain ⟨t', hstep, hnext⟩ := step_next hreached
    obtain rfl : t' = s' := Except.ok.inj (hstep.symm.trans ((states_succ ht).symm.trans hs'))
    refine ⟨Nat.le_trans hle hnext.current, ?_⟩
    intro hfirst _
    cases k with
    | zero =>
      obtain rfl : s = t := Except.ok.inj (hs.symm.trans ht)
      exact hnext.first hfirst
    | succ k => exact Nat.lt_of_lt_of_le (hlt hfirst (Nat.succ_pos k)) hnext.current

/-- A token comes to its end. -/
theorem call_returns {n : Nat} (hs : states source n = .ok s) (hrun : Running source s)
    (hmode : s.mode ≠ .between) :
    ∃ m s', n < m ∧ states source m = .ok s' ∧ s'.mode = .between := by
  induction hp : potential source s using Nat.strongRecOn generalizing n s with
  | ind p ih =>
    obtain ⟨t, hstep, ht, hprogress⟩ := leads_of_running hrun hmode
    have hnext := (states_succ hs).trans hstep
    by_cases hbetween : t.mode = .between
    · exact ⟨n + 1, t, Nat.lt_succ_self n, hnext, hbetween⟩
    · obtain ⟨m, s', hm, hs', hend⟩ :=
        ih _ (hp ▸ potential_lt hprogress) hnext ht hbetween rfl
      exact ⟨m, s', by omega, hs', hend⟩

/-- After three steps for each character, and two more, the run has halted. -/
theorem states_halted (source : List Char) :
    ∃ s, states source (3 * source.length + 2) = .ok s ∧ s.mode = .halted ∧
      (⟨s.found, s.place⟩ : Scan) = scan source := by
  obtain ⟨s, hs, hreached, hleft⟩ := states_reached source (3 * source.length + 2)
  have hmode : s.mode = .halted := by
    rcases hleft with hmode | hleft
    · exact hmode
    · omega
  refine ⟨s, hs, hmode, ?_⟩
  rcases hreached with hrun | ⟨-, h⟩
  · exact absurd hmode hrun.mode_ne.1
  · have hfound := h.found
    rw [pieces_nil, findings, List.append_nil] at hfound
    rw [hfound, h.place]
    rfl

/-! ## Bounds -/

/-- Offsets in the text, and counters that do not run ahead of the cursor. -/
structure InBounds (source : List Char) (s : State) : Prop where
  start : s.start ≤ s.current
  current : s.current ≤ source.length
  line : 1 ≤ s.place.line
  column : 1 ≤ s.place.column
  counters : s.place.line + s.place.column ≤ s.current + 2

/-- Each character moves the place on by one at most, counting lines and columns together. -/
theorem after_bounds {p : Position} (hline : 1 ≤ p.line) (hcolumn : 1 ≤ p.column) (cs : List Char) :
    1 ≤ (p.after cs).line ∧ 1 ≤ (p.after cs).column ∧
      (p.after cs).line + (p.after cs).column ≤ p.line + p.column + cs.length := by
  induction cs generalizing p with
  | nil => exact ⟨hline, hcolumn, Nat.le_refl _⟩
  | cons c cs ih =>
    have hnext : 1 ≤ (p.next c).line ∧ 1 ≤ (p.next c).column ∧
        (p.next c).line + (p.next c).column ≤ p.line + p.column + 1 := by
      unfold Position.next
      split <;> simp only <;> omega
    obtain ⟨hl, hc, hsum⟩ := ih hnext.1 hnext.2.1
    rw [Position.after_cons, List.length_cons]
    exact ⟨hl, hc, by omega⟩

theorem inBounds_of_place {cs : List Char} (hstart : s.start ≤ cs.length)
    (hcurrent : s.current = cs.length) (hle : cs.length ≤ source.length)
    (hplace : s.place = Position.after {} cs) : InBounds source s := by
  obtain ⟨hline, hcolumn, hsum⟩ := @after_bounds {} (Nat.le_refl 1) (Nat.le_refl 1) cs
  rw [← hplace] at hline hcolumn hsum
  refine ⟨by omega, by omega, hline, hcolumn, ?_⟩
  rw [hcurrent]
  refine Nat.le_trans hsum ?_
  show 1 + 1 + cs.length ≤ cs.length + 2
  omega

theorem Settled.inBounds (h : Settled source s before rest) : InBounds source s := by
  refine inBounds_of_place h.start h.current ?_ h.place
  rw [h.text, List.length_append]
  exact Nat.le_add_right _ _

theorem Reached.inBounds (h : Reached source s) : InBounds source s := by
  rcases h with (⟨-, h⟩ | @⟨before, part, rest, -, h⟩) | ⟨-, h⟩
  · exact h.inBounds
  · have hplace : s.place = Position.after {} (before ++ part) := by
      rw [h.place, h.startPlace, Position.after_append]
    refine inBounds_of_place ?_ ?_ ?_ hplace
    · rw [h.start, List.length_append]
      exact Nat.le_add_right _ _
    · rw [h.current, List.length_append]
    · rw [h.length, List.length_append]
      exact Nat.le_add_right _ _
  · exact h.inBounds

theorem Reached.mode_ne (h : Reached source s) : s.mode ≠ .unread := by
  rcases h with hrun | ⟨hmode, -⟩
  · exact hrun.mode_ne.2
  · rw [hmode]
    decide

/-- A text fits in memory if it takes no more bytes, four for a character, than the greatest signed
word `top`. Then the counters and the offset behind the cursor are unsigned words. -/
theorem InBounds.fits {top : Nat} (h : InBounds source s) (htop : 4 * source.length ≤ top) :
    s.current + 1 ≤ 2 * top + 1 ∧ s.place.line ≤ 2 * top + 1 ∧ s.place.column ≤ 2 * top + 1 := by
  obtain ⟨-, hcurrent, hline, hcolumn, hsum⟩ := h
  refine ⟨?_, ?_, ?_⟩ <;> omega

/-- **Totality.** No step of a run breaks off, so nothing is read behind the end of the text and
every slice is one of the text. At every step the offsets are those of the text, the counters stay
in bounds and in a machine word, and there is no number that cannot be read. From the first
character of a token the run comes to the end of that token, and the cursor stands further on ever
after. In the end the run halts, and it has found what the scan of the text gives. -/
theorem scan_total (source : List Char) :
    (∀ n, ∃ s, states source n = .ok s ∧ InBounds source s ∧ s.mode ≠ .unread ∧
      (∀ top, 4 * source.length ≤ top → s.current + 1 ≤ 2 * top + 1 ∧
        s.place.line ≤ 2 * top + 1 ∧ s.place.column ≤ 2 * top + 1) ∧
      (s.mode = .first →
        (∃ m s', n < m ∧ states source m = .ok s' ∧ s'.mode = .between) ∧
        ∀ m s', n < m → states source m = .ok s' → s.current < s'.current)) ∧
    ∃ s, states source (3 * source.length + 2) = .ok s ∧ s.mode = .halted ∧
      (⟨s.found, s.place⟩ : Scan) = scan source := by
  refine ⟨?_, states_halted source⟩
  intro n
  obtain ⟨s, hs, hreached, -⟩ := states_reached source n
  refine ⟨s, hs, hreached.inBounds, hreached.mode_ne, fun top => hreached.inBounds.fits, ?_⟩
  intro hfirst
  constructor
  · rcases hreached with hrun | ⟨hmode, -⟩
    · exact call_returns hs hrun (by rw [hfirst]; decide)
    · rw [hfirst] at hmode
      cases hmode
  · intro m s' hm hs'
    obtain ⟨k, rfl⟩ := Nat.exists_eq_add_of_lt hm
    rw [Nat.add_assoc] at hs'
    exact (current_mono hs (k + 1) hs').2 hfirst (Nat.succ_pos k)

/-- A number before U+0000, that character on its own, and a string of it that is never closed. -/
theorem scan_total_nul :
    ∃ s, states "1\x00\"\x00".toList 4 = .ok s ∧ s.mode = .first ∧
      InBounds "1\x00\"\x00".toList s ∧ s.mode ≠ .unread ∧
      4 * "1\x00\"\x00".toList.length ≤ 16 ∧ s.current + 1 ≤ 33 ∧ s.place.line ≤ 33 ∧
      s.place.column ≤ 33 ∧
      (∃ m s', 4 < m ∧ states "1\x00\"\x00".toList m = .ok s' ∧ s'.mode = .between) ∧
      (∃ s', states "1\x00\"\x00".toList 9 = .ok s' ∧ s.current < s'.current) ∧
      ∃ s', states "1\x00\"\x00".toList 14 = .ok s' ∧ s'.mode = .halted ∧
        (⟨s'.found, s'.place⟩ : Scan) = scan "1\x00\"\x00".toList := by
  obtain ⟨hrun, hend⟩ := scan_total "1\x00\"\x00".toList
  obtain ⟨s, hs, hbounds, hread, hfits, hfirst⟩ := hrun 4
  obtain ⟨s', hs', -⟩ := hrun 9
  have hmode : s.mode = .first := by
    have h : (states "1\x00\"\x00".toList 4).toOption.map State.mode = some .first := by
      decide +kernel
    rw [hs] at h
    exact Option.some.inj h
  obtain ⟨hreturns, hfurther⟩ := hfirst hmode
  obtain ⟨hcurrent, hline, hcolumn⟩ := hfits 16 (by decide)
  exact ⟨s, hs, hmode, hbounds, hread, by decide, hcurrent, hline, hcolumn, hreturns,
    ⟨s', hs', hfurther 9 s' (by decide) hs'⟩, hend⟩

end Cursor
end Lox

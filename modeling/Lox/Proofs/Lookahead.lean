import Lox.Proofs.Lexeme
import Lox.Proofs.Modes
import Lox.Proofs.Recovery
import Lox.Proofs.Script

/-!
# How far ahead a scan looks

Whether a piece is over is told by the two characters behind it: only a number needs both, to see
whether a point has a digit behind it. So a text that goes on behind these two is cut in the same way
up to there, whatever it goes on with. All that can change is what ends within one character of the
end: the end itself, the last token or two, and a string or a comment that is open there.

Results:
* `stops_of_long`: a piece that stops before two characters stops whatever stands behind these.
* `cuts_append`: pieces with two characters behind them are those of every longer text.
* `token_at_iff`: the token at an index is that of a piece with so many tokens before it.
* `strays_prefix`: the stray characters that are met in a text are met first in every longer one.
* `scan_append`: what a scan of a text tells about every longer text.
-/
namespace Lox

/-! ## Pieces -/

/-- **Lookahead.** The two characters behind a piece tell that it is over. -/
theorem stops_of_long {q : Piece} {rest : List Char} (h : q.Stops rest) (hlong : 2 ≤ rest.length)
    (more : List Char) : q.Stops (rest ++ more) := by
  have hne : rest ≠ [] := by
    rintro rfl
    simp at hlong
  cases q with
  | blank c => trivial
  | comment body => exact breaks_longer hne h more
  | string body => trivial
  | number whole fraction =>
    cases fraction with
    | none =>
      refine ⟨breaks_longer hne h.1 more, ?_⟩
      rw [List.head?_append_of_ne_nil _ hne, List.tail_append_of_ne_nil hne]
      intro hpoint
      have hbehind : rest.tail ≠ [] := by
        apply List.ne_nil_of_length_pos
        rw [List.length_tail]
        omega
      exact breaks_longer hbehind (h.2 hpoint) more
    | some places => exact breaks_longer hne h more
  | word text => exact breaks_longer hne h more
  | symbol s =>
    exact ⟨fun hs => breaks_longer hne (h.1 hs) more, fun hs => breaks_longer hne (h.2 hs) more⟩
  | unclosed body => exact absurd h hne
  | stray c => trivial

/-- Pieces with two characters behind them are cut off whatever the text goes on with. -/
theorem cuts_append {source more : List Char} {as bs rs : List Piece}
    (h : Cuts source (as ++ bs)) (hlong : 2 ≤ (bs.flatMap Piece.text).length)
    (hrest : Cuts (bs.flatMap Piece.text ++ more) rs) : Cuts (source ++ more) (as ++ rs) := by
  induction as generalizing source with
  | nil => rwa [← text_of_cuts h]
  | cons q as ih =>
    cases h with
    | @cons _ rest _ hq hstops hcuts =>
      have hlength := congrArg List.length (text_of_cuts hcuts)
      rw [List.append_eq, List.flatMap_append, List.length_append] at hlength
      rw [List.append_assoc]
      exact .cons hq (stops_of_long hstops (by omega) more) (ih hcuts)

/-! ## Tokens -/

section
variable {p : Position} {q : Piece} {qs : List Piece} {i : Nat} {t : Token}

/-- The tokens that pieces give from a place on. -/
def tokensFrom (p : Position) (qs : List Piece) : List Token :=
  (findings p qs).filterMap Finding.token?

theorem tokensFrom_append (p : Position) (as bs : List Piece) :
    tokensFrom p (as ++ bs) =
      tokensFrom p as ++ tokensFrom (p.after (as.flatMap Piece.text)) bs := by
  rw [tokensFrom, findings_append, List.filterMap_append]
  rfl

theorem tokensFrom_singleton (p : Position) (q : Piece) :
    tokensFrom p [q] = [] ∨ ∃ t, q.finding? p = some (.token t) ∧ tokensFrom p [q] = [t] := by
  cases q <;> first | exact .inl rfl | exact .inr ⟨_, rfl, rfl⟩

/-- The token at an index is that of a piece that has so many tokens before it. -/
theorem token_at_iff : (tokensFrom p qs)[i]? = some t ↔
    ∃ as q bs, qs = as ++ q :: bs ∧ (tokensFrom p as).length = i ∧
      q.finding? (p.after (as.flatMap Piece.text)) = some (.token t) := by
  constructor
  · intro h
    induction qs generalizing p i with
    | nil => cases h
    | cons q qs ih =>
      have hcons (rs : List Piece) : tokensFrom p (q :: rs) =
          tokensFrom p [q] ++ tokensFrom (p.after q.text) rs := by
        rw [← List.singleton_append, tokensFrom_append, List.flatMap_singleton]
      -- the piece that gives the token is one further on than in the rest
      have hlater {j : Nat} (hj : (tokensFrom (p.after q.text) qs)[j]? = some t)
          (hi : (tokensFrom p [q]).length + j = i) : ∃ as r bs, q :: qs = as ++ r :: bs ∧
            (tokensFrom p as).length = i ∧
            r.finding? (p.after (as.flatMap Piece.text)) = some (.token t) := by
        obtain ⟨as, r, bs, rfl, rfl, hr⟩ := ih hj
        refine ⟨q :: as, r, bs, rfl, ?_, ?_⟩
        · rw [hcons, List.length_append, hi]
        · rwa [List.flatMap_cons, Position.after_append]
      rw [hcons] at h
      rcases tokensFrom_singleton p q with hnone | ⟨u, hu, hone⟩
      · rw [hnone] at h hlater
        exact hlater h (Nat.zero_add i)
      · rw [hone] at h hlater
        cases i with
        | zero =>
          obtain rfl : u = t := Option.some.inj h
          exact ⟨[], q, qs, rfl, rfl, hu⟩
        | succ i => exact hlater h (Nat.add_comm 1 i)
  · intro ⟨as, q, bs, hqs, hi, ht⟩
    rw [hqs, tokensFrom_append, List.getElem?_append_right (by omega), hi, Nat.sub_self, tokensFrom,
      findings, ht]
    rfl

end

namespace Modes

/-- **Stray characters.** Those that are met in a text are met first in every longer text. -/
theorem strays_prefix (m : Mode) (o : Nat) (as bs : List Char) :
    (walk m o as).strays <+: (walk m o (as ++ bs)).strays := by
  fun_induction walk m o as with
  | case1 m o => exact List.nil_prefix
  | case2 o as ih => exact ih
  | case3 o as hslash ih => rwa [List.cons_append, walk_quote]
  | case4 o c as hslash hq hk ih =>
    by_cases hnil : as = []
    · -- a slash at the end may open a comment with what stands behind it
      rw [hnil]
      exact List.nil_prefix
    · have hbreaks (hc : c = '/') : Breaks (· == '/') (as ++ bs) :=
        breaks_longer hnil (breaks_of_slash hslash hc) bs
      rwa [List.cons_append, walk_known hk hq hbreaks]
  | case5 o c as hslash hq hk ih =>
    have hbreaks : c = '/' → Breaks (· == '/') (as ++ bs) := by
      rintro rfl
      exact absurd (by decide) hk
    rw [List.cons_append, walk_code_cons hbreaks, if_neg hq, if_neg hk]
    exact List.cons_prefix_cons.2 ⟨rfl, ih⟩
  | case6 o c as ih => rwa [List.cons_append, walk]
  | case7 o c as ih => rwa [List.cons_append, walk]

/-- What a scan of a text tells of it but for an unclosed string. -/
theorem diagnostics_strays (source : List Char) :
    (scan source).diagnostics.filter (·.problem ≠ .unterminated) =
      (walk .code 0 source).strays.map fun x => ⟨placeAt source x.1, .unexpected x.2⟩ := by
  have hstrays := @strays_problem source (walk .code 0 source)
  rw [diagnostics_eq_told, told, List.filter_append, List.filter_eq_self.2 (by simpa using hstrays)]
  split <;> simp

end Modes

theorem placeAt_append {source : List Char} {o : Nat} (h : o ≤ source.length) (more : List Char) :
    placeAt (source ++ more) o = placeAt source o := by
  rw [placeAt, placeAt, List.take_append_of_le_length h]

theorem strays_append (source more : List Char) :
    (scan source).diagnostics.filter (·.problem ≠ .unterminated) <+:
      (scan (source ++ more)).diagnostics := by
  have hplaces : ∀ x ∈ (Modes.walk .code 0 source).strays,
      (⟨placeAt source x.1, .unexpected x.2⟩ : Diagnostic) =
        ⟨placeAt (source ++ more) x.1, .unexpected x.2⟩ := by
    intro x hx
    have hbound := (Modes.strays_between x hx).2
    rw [placeAt_append (by omega)]
  rw [Modes.diagnostics_strays, List.map_congr_left hplaces, Modes.diagnostics_eq_told, Modes.told]
  apply List.IsPrefix.trans _ (List.prefix_append _ _)
  exact (Modes.strays_prefix .code 0 source more).map _

theorem start_of_finding {q : Piece} {p : Position} {t : Token}
    (h : q.finding? p = some (.token t)) : t.start = p := by
  cases q <;> cases h <;> rfl

theorem token_append {source : List Char} {i o : Nat} {t : Token}
    (ht : (scan source).tokens[i]? = some t) (hkind : t.kind ≠ .eof)
    (hstart : t.start = placeAt source o) (hlong : o + t.length + 2 ≤ source.length)
    (more : List Char) : (scan (source ++ more)).tokens[i]? = some t := by
  have htokens (source : List Char) : (scan source).tokens =
      tokensFrom {} (pieces source) ++ [Token.endOfText (scan source).stop] := rfl
  rw [htokens] at ht ⊢
  have hlt : i < (tokensFrom {} (pieces source)).length := by
    by_contra hge
    rw [List.getElem?_append_right (by omega), List.getElem?_singleton] at ht
    split at ht
    · obtain rfl := Option.some.inj ht
      exact hkind rfl
    · cases ht
  rw [List.getElem?_append_left hlt] at ht
  obtain ⟨as, q, bs, hpieces, hcount, hfinding⟩ := token_at_iff.1 ht
  have hcuts := cuts_pieces source
  rw [hpieces] at hcuts
  have htext := text_of_cuts hcuts
  rw [List.flatMap_append, List.flatMap_cons] at htext
  have hlength := congrArg List.length htext
  rw [List.length_append, List.length_append] at hlength
  have hoffset : o = (as.flatMap Piece.text).length := by
    have hplace : placeAt source o = placeAt source (as.flatMap Piece.text).length := by
      rw [← hstart, start_of_finding hfinding, ← htext, placeAt_length]
    exact placeAt_injective (by omega) (by omega) hplace
  have hwidth : t.length = q.text.length := congrArg List.length (lexeme_of_finding hfinding)
  have hbehind : 2 ≤ (bs.flatMap Piece.text).length := by omega
  rw [List.append_cons] at hcuts
  have hlonger := pieces_of_cuts (cuts_append hcuts hbehind (cuts_pieces (_ ++ more)))
  rw [← List.append_cons] at hlonger
  have hfound := token_at_iff.2 ⟨as, q, _, hlonger, hcount, hfinding⟩
  rwa [List.getElem?_append_left (List.getElem?_eq_some_iff.1 hfound).1]

/-- **Lookahead.** Whatever a text goes on with, a token that has two characters behind it stays the
same token, at its index and its place, and the stray characters stay the first that are reported. -/
theorem scan_append (a b : List Char) :
    (∀ (i o : Nat) (t : Token), (scan a).tokens[i]? = some t → t.kind ≠ .eof →
      t.start = placeAt a o → o + t.length + 2 ≤ a.length →
      (scan (a ++ b)).tokens[i]? = some t) ∧
    (scan a).diagnostics.filter (·.problem ≠ .unterminated) <+: (scan (a ++ b)).diagnostics :=
  ⟨fun _ _ _ ht hkind hstart hlong => token_append ht hkind hstart hlong b, strays_append a b⟩

/-- A number before a point stays as it is if there is one more character behind the point, and else
may get a fraction. -/
theorem scan_append_point :
    let a := "#1.x 2.".toList
    (scan a).tokens[0]? = some ⟨.number, ['1'], some (.number ⟨0x3FF0000000000000⟩), ⟨1, 2⟩⟩ ∧
    (scan (a ++ "5\"".toList)).tokens[0]? = (scan a).tokens[0]? ∧
    (scan (a ++ "5\"".toList)).tokens[3]? ≠ (scan a).tokens[3]? ∧
    [⟨⟨1, 1⟩, .unexpected '#'⟩] <+: (scan (a ++ "5\"".toList)).diagnostics := by
  intro a
  obtain ⟨htokens, hstrays⟩ := scan_append a "5\"".toList
  have htoken : (scan a).tokens[0]? =
      some ⟨.number, ['1'], some (.number ⟨0x3FF0000000000000⟩), ⟨1, 2⟩⟩ := by decide +kernel
  have hkept := htokens 0 1 _ htoken Kind.noConfusion (by decide) (by decide)
  have hstray : (scan a).diagnostics.filter (·.problem ≠ .unterminated) =
      [⟨⟨1, 1⟩, .unexpected '#'⟩] := by decide +kernel
  rw [hstray] at hstrays
  refine ⟨htoken, hkept.trans htoken.symm, ?_, hstrays⟩
  decide +kernel

end Lox

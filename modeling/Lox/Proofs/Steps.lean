import Mathlib.Data.List.TakeWhile
import Lox.Files.Path

/-!
# The steps of a path

Slashes cut a path, so what stands before one and what stands behind it take their steps one after
the other. The path before the last part and the parent of a path are beginnings of the path, and
their steps are the steps of the path but for the last one and for some that stay.

Results:
* `steps_splitLast`: the steps before the last part, and the one of the last part.
* `steps_trim`: what a trimmed path loses are steps that stay.
* `parent?_eq`: a parent is the path before the last part, trimmed.
* `splitLast_named`, `parent?_named`: the same for a path that ends in a name.
-/
namespace Lox
namespace Path

/-! ## Parts -/

theorem parts_ne_nil (p : Path) : parts p ≠ [] := by
  induction p with
  | nil => exact List.cons_ne_nil _ _
  | cons b p ih =>
    unfold parts
    split
    · exact List.cons_ne_nil _ _
    split <;> exact List.cons_ne_nil _ _

/-- **A slash cuts.** -/
theorem parts_append (p q : Path) : parts (p ++ slash :: q) = parts p ++ parts q := by
  induction p with
  | nil => simp [parts]
  | cons b p ih =>
    simp only [List.cons_append, parts, ih]
    split
    · rfl
    · cases hp : parts p with
      | nil => exact absurd hp (parts_ne_nil p)
      | cons part rest => rfl

theorem parts_of_no_slash {p : Path} (h : slash ∉ p) : parts p = [p] := by
  induction p with
  | nil => rfl
  | cons b p ih =>
    rw [List.mem_cons, not_or] at h
    simp [parts, Ne.symm h.1, ih h.2]

theorem steps_ne_nil (p : Path) : steps p ≠ [] := by
  rw [steps, ne_eq, List.map_eq_nil_iff]
  exact parts_ne_nil p

theorem steps_append (p q : Path) : steps (p ++ slash :: q) = steps p ++ steps q := by
  rw [steps, parts_append, List.map_append]
  rfl

theorem steps_of_no_slash {p : Path} (h : slash ∉ p) : steps p = [.ofPart p] := by
  rw [steps, parts_of_no_slash h]
  rfl

theorem steps_snoc_slash (p : Path) : steps (p ++ [slash]) = steps p ++ [.stay] := by
  rw [steps_append]
  rfl

/-- Slashes at the end stay. -/
theorem steps_slashes (p : Path) (k : Nat) :
    steps (p ++ List.replicate k slash) = steps p ++ List.replicate k .stay := by
  induction k with
  | zero => simp
  | succ k ih =>
    rw [List.replicate_succ', ← List.append_assoc, steps_snoc_slash, ih, List.append_assoc,
      ← List.replicate_succ']

/-! ## The last part -/

/-- The path before the last part is empty or ends in a slash. -/
theorem splitLast_fst (p : Path) : p.splitLast.1 = [] ∨ ∃ q, p.splitLast.1 = q ++ [slash] := by
  unfold splitLast
  have hhead := List.head?_dropWhile_not (· != slash) (p.reverse.dropWhile (· == slash))
  cases h : (p.reverse.dropWhile (· == slash)).dropWhile (· != slash) with
  | nil => exact .inl (by simp only [h, List.reverse_nil])
  | cons b q =>
    rw [h] at hhead
    obtain rfl : b = slash := by simpa using hhead
    exact .inr ⟨q.reverse, by simp only [h, List.reverse_cons]⟩

theorem splitLast_snd (p : Path) : slash ∉ p.splitLast.2 := by
  intro h
  have hne := List.mem_takeWhile_imp (List.mem_reverse.1 h)
  simp at hne

theorem splitLast_append (p : Path) :
    ∃ k, p = p.splitLast.1 ++ p.splitLast.2 ++ List.replicate k slash := by
  refine ⟨(p.reverse.takeWhile (· == slash)).length, ?_⟩
  have hstays : p.reverse.takeWhile (· == slash) =
      List.replicate (p.reverse.takeWhile (· == slash)).length slash := by
    refine List.eq_replicate_of_mem ?_
    intro b hb
    simpa using List.mem_takeWhile_imp hb
  rw [← List.reverse_inj, List.reverse_append, List.reverse_replicate, ← hstays, splitLast,
    List.reverse_append, List.reverse_reverse, List.reverse_reverse,
    List.takeWhile_append_dropWhile, List.takeWhile_append_dropWhile]

theorem steps_of_splitLast {p : Path} {k : Nat}
    (hp : p = p.splitLast.1 ++ p.splitLast.2 ++ List.replicate k slash) :
    ∃ xs, p.splitLast.1.steps = xs ++ [.stay] ∧
      p.steps = xs ++ .ofPart p.splitLast.2 :: List.replicate k .stay := by
  have hlast := steps_of_no_slash (splitLast_snd p)
  rcases splitLast_fst p with hfst | ⟨q, hfst⟩
  · refine ⟨[], by rw [hfst]; rfl, ?_⟩
    calc p.steps
        = steps (p.splitLast.2 ++ List.replicate k slash) := by
          rw [← List.nil_append p.splitLast.2, ← hfst, ← hp]
      _ = .ofPart p.splitLast.2 :: List.replicate k .stay := by rw [steps_slashes, hlast]; rfl
  · refine ⟨q.steps, by rw [hfst, steps_snoc_slash], ?_⟩
    calc p.steps
        = steps (q ++ slash :: (p.splitLast.2 ++ List.replicate k slash)) := by
          rw [← List.cons_append, ← List.append_assoc, List.append_cons, ← hfst, ← hp]
      _ = q.steps ++ .ofPart p.splitLast.2 :: List.replicate k .stay := by
          rw [steps_append, steps_slashes, hlast]
          rfl

theorem steps_splitLast (p : Path) :
    ∃ xs k, p.splitLast.1.steps = xs ++ [.stay] ∧
      p.steps = xs ++ .ofPart p.splitLast.2 :: List.replicate k .stay := by
  obtain ⟨k, hp⟩ := splitLast_append p
  obtain ⟨xs, h⟩ := steps_of_splitLast hp
  exact ⟨xs, k, h⟩

/-- Nothing stays behind the last part of a path that does not end in a slash. -/
theorem steps_of_getLast {p : Path} (h : p.getLast? ≠ some slash) :
    ∃ xs, p.splitLast.1.steps = xs ++ [.stay] ∧ p.steps = xs ++ [.ofPart p.splitLast.2] := by
  obtain ⟨k, hp⟩ := splitLast_append p
  obtain rfl : k = 0 := by
    cases k with
    | zero => rfl
    | succ k =>
      rw [List.replicate_succ', ← List.append_assoc] at hp
      rw [hp, List.getLast?_concat] at h
      exact absurd rfl h
  exact steps_of_splitLast hp

theorem splitLast_fst_isPrefix (p : Path) : p.splitLast.1 <+: p := by
  obtain ⟨k, hp⟩ := splitLast_append p
  exact ⟨p.splitLast.2 ++ List.replicate k slash, by rw [← List.append_assoc, ← hp]⟩

/-! ## Trimming -/

/-- A path without the slashes and `.` parts at its end. -/
def trim (p : Path) : Path := (trimReversed p.reverse).reverse

theorem reverse_trim (p : Path) : p.trim.reverse = trimReversed p.reverse := List.reverse_reverse _

theorem trimReversed_suffix (bs : Bytes) : trimReversed bs <:+ bs := by
  induction bs with
  | nil => exact List.suffix_rfl
  | cons b bs ih =>
    unfold trimReversed
    split
    · exact ih.trans (List.suffix_cons b bs)
    split
    · exact ih.trans (List.suffix_cons b bs)
    · exact List.suffix_rfl

theorem trimReversed_trimReversed (bs : Bytes) : trimReversed (trimReversed bs) = trimReversed bs := by
  induction bs with
  | nil => rfl
  | cons b bs ih =>
    by_cases h1 : b = slash ∧ bs ≠ []
    · rw [trimReversed, if_pos h1, ih]
    by_cases h2 : b = dot ∧ bs.head? = some slash
    · rw [trimReversed, if_neg h1, if_pos h2, ih]
    · have h : trimReversed (b :: bs) = b :: bs := by rw [trimReversed, if_neg h1, if_neg h2]
      rw [h, h]

theorem trimReversed_eq_nil {bs : Bytes} : trimReversed bs = [] ↔ bs = [] := by
  induction bs with
  | nil => exact ⟨fun _ => rfl, fun _ => rfl⟩
  | cons b bs ih =>
    refine ⟨fun h => ?_, fun h => absurd h (List.cons_ne_nil _ _)⟩
    unfold trimReversed at h
    split at h
    · rename_i h1
      exact absurd (ih.1 h) h1.2
    split at h
    · rename_i h2
      rw [ih.1 h] at h2
      cases h2.2
    · exact absurd h (List.cons_ne_nil _ _)

/-- What is cut off are steps that stay. -/
theorem steps_trimReversed (bs : Bytes) :
    ∃ k, steps bs.reverse = steps (trimReversed bs).reverse ++ List.replicate k .stay := by
  induction bs with
  | nil => exact ⟨0, rfl⟩
  | cons b bs ih =>
    obtain ⟨k, hk⟩ := ih
    unfold trimReversed
    split
    · rename_i h1
      refine ⟨k + 1, ?_⟩
      rw [List.reverse_cons, h1.1, steps_snoc_slash, hk, List.append_assoc, ← List.replicate_succ']
    split
    · rename_i h2
      -- the `.` takes the place of the empty part behind the slash before it
      obtain ⟨cs, rfl⟩ := List.head?_eq_some_iff.1 h2.2
      refine ⟨k, ?_⟩
      rw [← hk, h2.1, List.reverse_cons, List.reverse_cons, steps_snoc_slash, List.append_assoc,
        List.singleton_append, steps_append]
      rfl
    · exact ⟨0, by rw [List.replicate_zero, List.append_nil]⟩

theorem trim_isPrefix (p : Path) : p.trim <+: p := by
  rw [← List.reverse_suffix, reverse_trim]
  exact trimReversed_suffix p.reverse

theorem trim_trim (p : Path) : p.trim.trim = p.trim := by
  rw [trim, reverse_trim, trimReversed_trimReversed]
  rfl

theorem trim_eq_nil {p : Path} : p.trim = [] ↔ p = [] := by
  rw [trim, List.reverse_eq_nil_iff, trimReversed_eq_nil, List.reverse_eq_nil_iff]

theorem steps_trim (p : Path) : ∃ k, p.steps = p.trim.steps ++ List.replicate k .stay := by
  have h := steps_trimReversed p.reverse
  rwa [List.reverse_reverse] at h

/-! ## Parents -/

/-- A path that ends in a part has the path before it, trimmed, as its parent. -/
theorem parent?_eq (p : Path) :
    p.parent? = if p.trim = [] ∨ p.trim = [slash] then none else some p.trim.splitLast.1.trim := by
  have hnil : trimReversed p.reverse = [] ↔ p.trim = [] := by
    rw [← reverse_trim, List.reverse_eq_nil_iff]
  have hslash : trimReversed p.reverse = [slash] ↔ p.trim = [slash] := by
    rw [← reverse_trim, ← List.reverse_inj, List.reverse_reverse]
    rfl
  simp only [parent?, hnil, hslash]
  by_cases h : p.trim = [] ∨ p.trim = [slash]
  · rw [if_pos h, if_pos h]
  rw [if_neg h, if_neg h]
  have hbody : (trimReversed p.reverse).dropWhile (· == slash) = trimReversed p.reverse := by
    cases hb : trimReversed p.reverse with
    | nil => rfl
    | cons b rest =>
      rcases head_trimReversed hb with hne | hrest
      · rw [List.dropWhile_cons_of_neg (by simpa using hne)]
      · subst hrest
        refine List.dropWhile_cons_of_neg ?_
        intro hs
        rw [beq_iff_eq] at hs
        exact h (.inr (hslash.1 (by rw [hb, hs])))
  rw [trim, splitLast, reverse_trim, hbody, List.reverse_reverse]

theorem parent?_isPrefix {p above : Path} (h : p.parent? = some above) : above <+: p := by
  rw [parent?_eq] at h
  split at h
  · cases h
  · obtain rfl := Option.some.inj h
    exact ((trim_isPrefix _).trans (splitLast_fst_isPrefix _)).trans (trim_isPrefix p)

/-! ## Paths that end in a name -/

section Named

variable {n : Name} (hn : Step.ofPart n = .down n) (hs : slash ∉ n)

include hn

theorem name_ne_nil : n ≠ [] := by
  intro h
  rw [h] at hn
  cases hn

include hs

theorem steps_named (p : Path) : steps (p ++ slash :: n) = p.steps ++ [.down n] := by
  rw [steps_append, steps_of_no_slash hs, hn]

theorem getLast?_named (p : Path) : (p ++ slash :: n).getLast? ≠ some slash := by
  intro hlast
  have hne := name_ne_nil hn
  rw [List.append_cons, List.getLast?_append, List.getLast?_eq_some_getLast hne] at hlast
  exact hs (Option.some.inj hlast ▸ List.getLast_mem hne)

theorem splitLast_named (p : Path) : (p ++ slash :: n).splitLast = (p ++ [slash], n) := by
  have hall : ∀ b ∈ n.reverse, (b != slash) = true := by
    intro b hb
    rw [bne_iff_ne]
    intro he
    exact hs (he ▸ List.mem_reverse.1 hb)
  have hbody : (n.reverse ++ slash :: p.reverse).dropWhile (· == slash) =
      n.reverse ++ slash :: p.reverse := by
    cases hr : n.reverse with
    | nil => exact absurd (List.reverse_eq_nil_iff.1 hr) (name_ne_nil hn)
    | cons b r =>
      have hb : b ≠ slash := bne_iff_ne.1 (hall b (hr ▸ List.mem_cons_self))
      exact List.dropWhile_cons_of_neg (by simpa using hb)
  have hreverse : (p ++ slash :: n).reverse = n.reverse ++ slash :: p.reverse := by simp
  rw [splitLast, hreverse, hbody, List.dropWhile_append_of_pos hall,
    List.takeWhile_append_of_pos hall]
  simp

theorem trim_named (p : Path) : (p ++ slash :: n).trim = p ++ slash :: n := by
  have hreverse : (p ++ slash :: n).reverse = n.reverse ++ slash :: p.reverse := by simp
  have hbody : trimReversed (n.reverse ++ slash :: p.reverse) = n.reverse ++ slash :: p.reverse := by
    cases hr : n.reverse with
    | nil => exact absurd (List.reverse_eq_nil_iff.1 hr) (name_ne_nil hn)
    | cons b r =>
      have hmem (c : UInt8) (hc : c ∈ b :: r) : c ≠ slash := by
        intro he
        exact hs (List.mem_reverse.1 (hr ▸ he ▸ hc))
      rw [List.cons_append, trimReversed, if_neg fun h => hmem b List.mem_cons_self h.1, if_neg]
      intro h
      cases r with
      | nil =>
        -- the name would be a single dot
        rw [List.reverse_eq_iff.1 hr, h.1] at hn
        cases hn
      | cons c r => exact hmem c (by simp) (Option.some.inj h.2)
  rw [trim, hreverse, hbody]
  simp

theorem parent?_named (p : Path) : (p ++ slash :: n).parent? = some (p ++ [slash]).trim := by
  rw [parent?_eq, trim_named hn hs, splitLast_named hn hs, if_neg]
  intro h
  rcases h with h | h
  · exact List.append_ne_nil_of_right_ne_nil p (List.cons_ne_nil _ _) h
  · have hlen := congrArg List.length h
    have hpos := List.length_pos_iff.2 (name_ne_nil hn)
    simp only [List.length_append, List.length_cons, List.length_nil] at hlen
    omega

end Named

end Path
end Lox

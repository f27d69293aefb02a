import Lox.Files.Basic
import Lox.Proofs.Tree

/-!
# Where a path leads

There are no links in a tree, so the place that a path leads to can be told from its steps alone.
Whether the way there can be gone depends on the files: each step is taken from a folder, to a name
that is not too long, and something has to be at the end. A way is clear if no file stands on it;
what is missing on a clear way are only folders.

Results:
* `walk_of_passable`, `walk_of_blocked`: a walk gets to the end exactly on a passable way, and on a
  clear one nothing but a missing folder can stop it.
* `exists?_iff`, `isFolder_iff`, `target_of_passable`, `target_of_blocked`: the same for look-ups.
* `passable_of_no_up`: without steps up, a clear way to something that exists is passable.
-/
namespace Lox

namespace Path

namespace Step

/-- Where a step leads, whatever stands there. -/
def lead (place : Place) : Step → Place
  | stay => place
  | up => place.dropLast
  | down n => place ++ [n]

def Short : Step → Prop
  | down n => n.length ≤ 255
  | _ => True

instance : (step : Step) → Decidable step.Short
  | stay | up => .isTrue trivial
  | down n => inferInstanceAs (Decidable (n.length ≤ 255))

end Step

def reach (place : Place) (steps : List Step) : Place := steps.foldl Step.lead place

theorem reach_append (place : Place) (xs ys : List Step) :
    reach place (xs ++ ys) = reach (reach place xs) ys := List.foldl_append

theorem reach_stays (place : Place) (k : Nat) : reach place (List.replicate k .stay) = place := by
  induction k with
  | zero => rfl
  | succ k ih => exact ih

end Path

open Lox.Path (Step reach reach_append reach_stays)

/-! ## Ways through a tree -/

namespace Node

/-- Every step is taken from a folder, to a short name, and there is an end. -/
def Passable (root : Node) : Place → List Step → Prop
  | place, [] => root.item? place ≠ none
  | place, step :: steps =>
    root.item? place = some .folder ∧ step.Short ∧ Passable root (step.lead place) steps

/-- No step is taken from a file, or to a long name. -/
def Clear (root : Node) : Place → List Step → Prop
  | _, [] => True
  | place, step :: steps =>
    (∀ content, root.item? place ≠ some (.file content)) ∧ step.Short ∧
      Clear root (step.lead place) steps

instance decidablePassable (root : Node) :
    (place : Place) → (steps : List Step) → Decidable (root.Passable place steps)
  | place, [] => inferInstanceAs (Decidable (root.item? place ≠ none))
  | place, step :: steps =>
    have := decidablePassable root (step.lead place) steps
    inferInstanceAs (Decidable (_ ∧ _ ∧ _))

instance : (x : Option Item) → Decidable (∀ content, x ≠ some (.file content))
  | none => .isTrue nofun
  | some .folder => .isTrue nofun
  | some (.file content) => .isFalse fun h => h content rfl

instance decidableClear (root : Node) :
    (place : Place) → (steps : List Step) → Decidable (root.Clear place steps)
  | _, [] => .isTrue trivial
  | place, step :: steps =>
    have := decidableClear root (step.lead place) steps
    inferInstanceAs (Decidable (_ ∧ _ ∧ _))

theorem Passable.start {root : Node} {place : Place} {steps : List Step}
    (h : root.Passable place steps) : root.item? place ≠ none := by
  cases steps with
  | nil => exact h
  | cons step steps => rw [h.1]; exact Option.some_ne_none _

theorem Passable.clear {root : Node} {place : Place} {steps : List Step}
    (h : root.Passable place steps) : root.Clear place steps := by
  induction steps generalizing place with
  | nil => trivial
  | cons step steps ih =>
    refine ⟨?_, h.2.1, ih h.2.2⟩
    intro content hfile
    rw [h.1] at hfile
    cases hfile

/-- A way stays passable where all folders stay, and something stays where something is. -/
theorem Passable.mono {root root' : Node} {place : Place} {steps : List Step}
    (hfolder : ∀ x, root.item? x = some .folder → root'.item? x = some .folder)
    (hthere : ∀ x, root.item? x ≠ none → root'.item? x ≠ none) (h : root.Passable place steps) :
    root'.Passable place steps := by
  induction steps generalizing place with
  | nil => exact hthere place h
  | cons step steps ih => exact ⟨hfolder place h.1, h.2.1, ih h.2.2⟩

theorem passable_append {root : Node} {place : Place} {xs ys : List Step} :
    root.Passable place (xs ++ ys) ↔ root.Passable place xs ∧ root.Passable (reach place xs) ys := by
  induction xs generalizing place with
  | nil => exact ⟨fun h => ⟨h.start, h⟩, fun h => h.2⟩
  | cons x xs ih =>
    rw [List.cons_append, Passable, Passable, ih]
    exact ⟨fun h => ⟨⟨h.1, h.2.1, h.2.2.1⟩, h.2.2.2⟩, fun h => ⟨h.1.1, h.1.2.1, h.1.2.2, h.2⟩⟩

theorem clear_append {root : Node} {place : Place} {xs ys : List Step} :
    root.Clear place (xs ++ ys) ↔ root.Clear place xs ∧ root.Clear (reach place xs) ys := by
  induction xs generalizing place with
  | nil => exact ⟨fun h => ⟨trivial, h⟩, fun h => h.2⟩
  | cons x xs ih =>
    rw [List.cons_append, Clear, Clear, ih]
    exact ⟨fun h => ⟨⟨h.1, h.2.1, h.2.2.1⟩, h.2.2.2⟩, fun h => ⟨h.1.1, h.1.2.1, h.1.2.2, h.2⟩⟩

/-- Staying is possible in a folder. -/
theorem passable_stays {root : Node} {place : Place} (h : root.item? place = some .folder) (k : Nat) :
    root.Passable place (List.replicate k .stay) := by
  induction k with
  | zero => rw [List.replicate_zero, Passable, h]; exact Option.some_ne_none _
  | succ k ih => exact ⟨h, trivial, ih⟩

theorem passable_snoc_stay {root : Node} {place : Place} {steps : List Step} :
    root.Passable place (steps ++ [.stay]) ↔
      root.Passable place steps ∧ root.item? (reach place steps) = some .folder := by
  rw [passable_append]
  constructor
  · intro h
    exact ⟨h.1, h.2.1⟩
  · intro h
    exact ⟨h.1, passable_stays h.2 1⟩

theorem clear_snoc_stay {root : Node} {place : Place} {steps : List Step} :
    root.Clear place (steps ++ [.stay]) ↔ root.Clear place steps ∧
      ∀ content, root.item? (reach place steps) ≠ some (.file content) := by
  rw [clear_append]
  constructor
  · intro h
    exact ⟨h.1, h.2.1⟩
  · intro h
    exact ⟨h.1, h.2, trivial, trivial⟩

/-- What exists, does so below folders; a way down to it is blocked by files only. -/
theorem passable_of_no_up {root : Node} {place : Place} {steps : List Step} (hup : .up ∉ steps)
    (hclear : root.Clear place steps) (hstop : root.item? (reach place steps) ≠ none) :
    root.Passable place steps := by
  induction steps generalizing place with
  | nil => exact hstop
  | cons step steps ih =>
    have hrest : root.Passable (step.lead place) steps :=
      ih (fun h => hup (List.mem_cons_of_mem _ h)) hclear.2.2 hstop
    refine ⟨?_, hclear.2.1, hrest⟩
    have hnext := hrest.start
    cases step with
    | stay =>
      cases hi : root.item? place with
      | none => exact absurd hi hnext
      | some item =>
        cases item with
        | folder => rfl
        | file content => exact absurd hi (hclear.1 content)
    | up => exact absurd List.mem_cons_self hup
    | down n => exact item?_above hnext

end Node

/-! ## Walking -/

namespace Files

open Node (Passable Clear)

theorem child?_of_item? {root node : Node} {place : Place} (h : root.at? place = some node) (n : Name) :
    root.at? (place ++ [n]) = node.child? n := by
  rw [Node.at?_append, h, Option.bind_some, Node.at?]
  cases node.child? n <;> rfl

/-- A walk goes through on a passable way. -/
theorem walk_of_passable {root : Node} {steps : List Step} :
    ∀ {place : Place} {node : Node}, root.at? place = some node → root.Passable place steps →
      ∃ last, root.at? (reach place steps) = some last ∧
        walk root place.reverse node steps = .ok (reach place steps, last) := by
  induction steps with
  | nil =>
    intro place node hnode _
    exact ⟨node, hnode, by rw [walk, List.reverse_reverse]; rfl⟩
  | cons step steps ih =>
    intro place node hnode hpass
    obtain ⟨hfolder, hshort, hrest⟩ := hpass
    obtain ⟨entries, he⟩ := Node.item?_eq_folder.1 hfolder
    obtain rfl := Option.some.inj (he.symm.trans hnode)
    obtain ⟨next, hnext⟩ := Option.ne_none_iff_exists'.1 (mt Node.item?_eq_none.2 hrest.start)
    have hgoes := ih hnext hrest
    cases step with
    | stay =>
      obtain rfl := Option.some.inj (hnode.symm.trans hnext)
      exact hgoes
    | up =>
      simp only [Step.lead] at hnext hgoes
      simp only [walk, List.tail_reverse, List.reverse_reverse, hnext]
      exact hgoes
    | down n =>
      simp only [Step.lead, List.reverse_append, List.reverse_singleton, List.singleton_append]
        at hnext hgoes
      rw [child?_of_item? hnode, Node.child?] at hnext
      simp only [walk, hnext, if_neg (Nat.not_lt.2 hshort)]
      exact hgoes

/-- A walk is stopped on any other way, and on a clear one by what is missing. -/
theorem walk_of_blocked {root : Node} {steps : List Step} :
    ∀ {place : Place} {node : Node}, root.at? place = some node → ¬ root.Passable place steps →
      ∃ t, walk root place.reverse node steps = .error t ∧
        (root.Clear place steps → t = .missing) := by
  induction steps with
  | nil =>
    intro place node hnode hblocked
    refine absurd ?_ hblocked
    rw [Passable, Node.item?_of_at? hnode]
    exact Option.some_ne_none _
  | cons step steps ih =>
    intro place node hnode hblocked
    cases node with
    | file content =>
      exact ⟨.notFolder, rfl, fun hclear => absurd (Node.item?_of_at? hnode) (hclear.1 content)⟩
    | folder entries =>
      have hrest (hs : step.Short) : ¬ root.Passable (step.lead place) steps :=
        fun h => hblocked ⟨Node.item?_of_at? hnode, hs, h⟩
      cases step with
      | stay =>
        obtain ⟨t, hwalk, ht⟩ := ih hnode (hrest trivial)
        exact ⟨t, hwalk, fun hclear => ht hclear.2.2⟩
      | up =>
        simp only [walk, List.tail_reverse, List.reverse_reverse]
        cases habove : root.at? place.dropLast with
        | none => exact ⟨.missing, rfl, fun _ => rfl⟩
        | some above =>
          obtain ⟨t, hwalk, ht⟩ := ih habove (hrest trivial)
          exact ⟨t, hwalk, fun hclear => ht hclear.2.2⟩
      | down n =>
        simp only [walk]
        by_cases hlong : 255 < n.length
        · rw [if_pos hlong]
          exact ⟨.nameTooLong, rfl, fun hclear => absurd hclear.2.1 (Nat.not_le.2 hlong)⟩
        rw [if_neg hlong]
        cases hchild : entries.lookup n with
        | none => exact ⟨.missing, rfl, fun _ => rfl⟩
        | some child =>
          have hnext : root.at? (place ++ [n]) = some child := (child?_of_item? hnode n).trans hchild
          obtain ⟨t, hwalk, ht⟩ := ih hnext (hrest (Nat.not_lt.1 hlong))
          rw [List.reverse_append] at hwalk
          exact ⟨t, hwalk, fun hclear => ht hclear.2.2⟩

theorem follow_of_passable {f : Files} {p : Path} {steps : List Step}
    (h : f.root.Passable (f.start p) steps) :
    ∃ last, f.root.at? (reach (f.start p) steps) = some last ∧
      f.follow p steps = .ok (reach (f.start p) steps, last) := by
  obtain ⟨node, hnode⟩ := Option.ne_none_iff_exists'.1 (mt Node.item?_eq_none.2 h.start)
  obtain ⟨last, hlast, hwalk⟩ := walk_of_passable hnode h
  exact ⟨last, hlast, by rw [follow, hnode]; exact hwalk⟩

theorem follow_of_blocked {f : Files} {p : Path} {steps : List Step}
    (h : ¬ f.root.Passable (f.start p) steps) :
    ∃ t, f.follow p steps = .error t ∧ (f.root.Clear (f.start p) steps → t = .missing) := by
  unfold follow
  cases hnode : f.root.at? (f.start p) with
  | none => exact ⟨.missing, rfl, fun _ => rfl⟩
  | some node => exact walk_of_blocked hnode h

/-! ## Look-ups -/

/-- The place that a path leads to. -/
def goal (f : Files) (p : Path) : Place := reach (f.start p) p.steps

theorem resolve_of_passable {f : Files} {p : Path} (hp : check p = none)
    (h : f.root.Passable (f.start p) p.steps) :
    ∃ node, f.root.at? (f.goal p) = some node ∧ f.resolve p = .ok node := by
  obtain ⟨last, hlast, hfollow⟩ := follow_of_passable h
  refine ⟨last, hlast, ?_⟩
  unfold resolve
  rw [hp]
  simp only [hfollow]

theorem resolve_of_blocked {f : Files} {p : Path}
    (h : ¬ (check p = none ∧ f.root.Passable (f.start p) p.steps)) :
    ∃ t, f.resolve p = .error t := by
  unfold resolve
  cases hp : check p with
  | some t => exact ⟨t, rfl⟩
  | none =>
    obtain ⟨t, hfollow, -⟩ := follow_of_blocked fun hpass => h ⟨hp, hpass⟩
    exact ⟨t, by simp only [hfollow]⟩

theorem exists?_iff {f : Files} {p : Path} :
    f.exists? p = true ↔ check p = none ∧ f.root.Passable (f.start p) p.steps := by
  unfold exists?
  by_cases h : check p = none ∧ f.root.Passable (f.start p) p.steps
  · obtain ⟨node, -, hnode⟩ := resolve_of_passable h.1 h.2
    simp only [hnode, h, and_self]
  · obtain ⟨t, ht⟩ := resolve_of_blocked h
    simp only [ht, h, Bool.false_eq_true]

theorem isFolder_iff {f : Files} {p : Path} :
    f.isFolder p = true ↔ check p = none ∧ f.root.Passable (f.start p) p.steps ∧
      f.root.item? (f.goal p) = some .folder := by
  unfold isFolder
  by_cases h : check p = none ∧ f.root.Passable (f.start p) p.steps
  · obtain ⟨node, hat, hnode⟩ := resolve_of_passable h.1 h.2
    simp only [hnode, h, true_and, Node.isFolder_iff, Node.item?_of_at? hat, Option.some.injEq]
  · obtain ⟨t, ht⟩ := resolve_of_blocked h
    simp only [ht, ← and_assoc, h, false_and, Bool.false_eq_true]

theorem target_of_passable {f : Files} {p : Path} (hp : check p = none)
    (h : f.root.Passable (f.start p) p.splitLast.1.steps) :
    f.target p = .ok (reach (f.start p) p.splitLast.1.steps, .ofPart p.splitLast.2) := by
  obtain ⟨last, -, hfollow⟩ := follow_of_passable h
  unfold target
  rw [hp]
  simp only [hfollow]

theorem target_of_blocked {f : Files} {p : Path} (hp : check p = none)
    (h : ¬ f.root.Passable (f.start p) p.splitLast.1.steps) :
    ∃ t, f.target p = .error t ∧
      (f.root.Clear (f.start p) p.splitLast.1.steps → t = .missing) := by
  obtain ⟨t, hfollow, ht⟩ := follow_of_blocked h
  refine ⟨t, ?_, ht⟩
  unfold target
  rw [hp]
  simp only [hfollow]

/-- What a target tells: the way to the folder was passable. -/
theorem target_cases {f : Files} {p : Path} {place : Place} {last : Step}
    (h : f.target p = .ok (place, last)) :
    check p = none ∧ f.root.Passable (f.start p) p.splitLast.1.steps ∧
      place = reach (f.start p) p.splitLast.1.steps ∧ last = .ofPart p.splitLast.2 := by
  cases hp : check p with
  | some t =>
    unfold target at h
    rw [hp] at h
    cases h
  | none =>
    by_cases hpass : f.root.Passable (f.start p) p.splitLast.1.steps
    · rw [target_of_passable hp hpass] at h
      cases h
      exact ⟨rfl, hpass, rfl, rfl⟩
    · obtain ⟨t, ht, -⟩ := target_of_blocked hp hpass
      rw [ht] at h
      cases h

end Files
end Lox

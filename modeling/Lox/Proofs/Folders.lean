import Lox.Proofs.Route
import Lox.Proofs.Steps

/-!
# Making folders

Making a folder and those above it changes nothing but that folders come to stand where nothing was.
It succeeds along every clear way: what is missing there is made from above, one folder at a time,
and each is needed for the next to be reached.

Results:
* `makeFolders_grown`: whatever comes of it, the files are the old ones with some new folders.
* `makeFolders_start`: it succeeds only from a folder that was there before.
* `makeFolders_of_clear`: it succeeds from there if the way is clear, and the way is passable then.
-/
namespace Lox

open Lox.Path (Step reach reach_append reach_stays)

/-! ## Ways and the last part -/

namespace Node

variable {root : Node} {place : Place} {p : Path}

theorem Passable.start_folder {steps : List Step} (h : root.Passable place steps) (hne : steps ≠ []) :
    root.item? place = some .folder := by
  cases steps with
  | nil => exact absurd rfl hne
  | cons step steps => exact h.1

theorem item?_dropLast (h : root.item? place = some .folder) :
    root.item? place.dropLast = some .folder := by
  rcases List.eq_nil_or_concat place with rfl | ⟨p, n, rfl⟩
  · exact h
  · rw [List.concat_eq_append] at h ⊢
    rw [List.dropLast_concat]
    exact item?_above (h ▸ Option.some_ne_none _)

/-- The place of the folder before the last part is where its path stays. -/
theorem base_folder (h : root.Passable place p.splitLast.1.steps) :
    root.item? (reach place p.splitLast.1.steps) = some .folder := by
  obtain ⟨xs, k, hbase, -⟩ := Path.steps_splitLast p
  rw [hbase] at h ⊢
  rw [reach_append]
  exact (passable_snoc_stay.1 h).2

theorem reach_last (place : Place) (p : Path) :
    reach place p.steps = (Step.ofPart p.splitLast.2).lead (reach place p.splitLast.1.steps) := by
  obtain ⟨xs, k, hbase, hsteps⟩ := Path.steps_splitLast p
  rw [hbase, hsteps, reach_append, reach_append]
  exact reach_stays _ k

/-- The way to the folder before the last part goes on to the folder that the path names. -/
theorem passable_last (h : root.Passable place p.splitLast.1.steps)
    (hshort : (Step.ofPart p.splitLast.2).Short)
    (hgoal : root.item? (reach place p.steps) = some .folder) :
    root.Passable place (p.steps ++ [.stay]) := by
  have hlast := reach_last place p
  have hfolder := base_folder h
  obtain ⟨xs, k, hbase, hsteps⟩ := Path.steps_splitLast p
  refine passable_snoc_stay.2 ⟨?_, hgoal⟩
  rw [hlast] at hgoal
  rw [hbase, reach_append] at hfolder hgoal
  rw [hbase, passable_snoc_stay] at h
  rw [hsteps, passable_append]
  exact ⟨h.1, hfolder, hshort, passable_stays hgoal k⟩

theorem clear_last (h : root.Clear place p.steps) :
    root.Clear place (p.splitLast.1.steps ++ [.stay]) ∧ (Step.ofPart p.splitLast.2).Short := by
  obtain ⟨xs, k, hbase, hsteps⟩ := Path.steps_splitLast p
  rw [hsteps, clear_append] at h
  obtain ⟨hxs, hfile, hshort, -⟩ := h
  refine ⟨?_, hshort⟩
  rw [hbase, clear_snoc_stay, clear_snoc_stay, reach_append]
  exact ⟨⟨hxs, hfile⟩, hfile⟩

/-- A way on from a folder to a name. -/
theorem clear_named {n : Name} (hn : Step.ofPart n = .down n) (hs : Path.slash ∉ n)
    (hshort : n.length ≤ 255) (h : root.Clear place (p ++ [Path.slash]).steps) :
    root.Clear place (p ++ Path.slash :: n).steps := by
  rw [Path.steps_snoc_slash, clear_snoc_stay] at h
  rw [Path.steps_named hn hs, clear_append]
  exact ⟨h.1, h.2, hshort, trivial⟩

theorem clear_slash_stay (h : root.Clear place (p ++ [Path.slash]).steps) :
    root.Clear place ((p ++ [Path.slash]).steps ++ [.stay]) := by
  rw [Path.steps_snoc_slash] at h ⊢
  rw [clear_snoc_stay, reach_append]
  exact ⟨h, (clear_snoc_stay.1 h).2⟩

/-- What is trimmed off a path stays at its end. -/
theorem passable_trim (h : root.Passable place (p.trim.steps ++ [.stay])) :
    root.Passable place p.steps := by
  obtain ⟨k, hk⟩ := Path.steps_trim p
  rw [passable_snoc_stay] at h
  rw [hk, passable_append]
  exact ⟨h.1, passable_stays h.2 k⟩

theorem clear_trim (h : root.Clear place (p.steps ++ [.stay])) :
    root.Clear place (p.trim.steps ++ [.stay]) := by
  obtain ⟨k, hk⟩ := Path.steps_trim p
  rw [clear_snoc_stay, hk, clear_append, reach_append, reach_stays] at h
  rw [clear_snoc_stay]
  exact ⟨h.1.1, h.2⟩

end Node

/-! ## What grows -/

namespace Files

/-- Nothing is changed but that folders stand where nothing was. -/
structure Grown (f g : Files) : Prop where
  here : g.here = f.here
  items : ∀ place, g.root.item? place = f.root.item? place ∨
    (f.root.item? place = none ∧ g.root.item? place = some .folder)

namespace Grown

variable {f g h : Files} {place : Place} {steps : List Step}

theorem refl (f : Files) : Grown f f := ⟨rfl, fun _ => .inl rfl⟩

theorem trans (hfg : Grown f g) (hgh : Grown g h) : Grown f h := by
  refine ⟨hgh.here.trans hfg.here, ?_⟩
  intro place
  rcases hgh.items place with h2 | ⟨h2, h3⟩
  · rw [h2]
    exact hfg.items place
  · rcases hfg.items place with h1 | ⟨-, h1⟩
    · exact .inr ⟨h1 ▸ h2, h3⟩
    · rw [h1] at h2
      cases h2

theorem start (hfg : Grown f g) (p : Path) : g.start p = f.start p := by
  unfold Files.start
  rw [hfg.here]

theorem goal (hfg : Grown f g) (p : Path) : g.goal p = f.goal p := by
  rw [Files.goal, hfg.start, Files.goal]

theorem file_iff (hfg : Grown f g) {content : Bytes} :
    g.root.item? place = some (.file content) ↔ f.root.item? place = some (.file content) := by
  rcases hfg.items place with h1 | ⟨h1, h2⟩
  · rw [h1]
  · rw [h1, h2]
    constructor <;> (intro h; cases h)

theorem item (hfg : Grown f g) {x : Item} (h : f.root.item? place = some x) :
    g.root.item? place = some x := by
  rcases hfg.items place with h1 | ⟨h1, -⟩
  · rw [h1, h]
  · rw [h1] at h
    cases h

theorem passable (hfg : Grown f g) (h : f.root.Passable place steps) :
    g.root.Passable place steps := by
  refine h.mono (fun _ => hfg.item) ?_
  intro x hx
  obtain ⟨item, hitem⟩ := Option.ne_none_iff_exists'.1 hx
  rw [hfg.item hitem]
  exact Option.some_ne_none _

theorem clear_iff (hfg : Grown f g) : g.root.Clear place steps ↔ f.root.Clear place steps := by
  induction steps generalizing place with
  | nil => exact Iff.rfl
  | cons step steps ih => rw [Node.Clear, Node.Clear, ih]; simp only [ne_eq, hfg.file_iff]

end Grown
/-! ## One folder -/

variable {f g : Files} {p : Path}

theorem start_of_isPrefix {q : Path} (h : q <+: p) (hne : q ≠ []) : f.start q = f.start p := by
  obtain ⟨rest, rfl⟩ := h
  cases q with
  | nil => exact absurd rfl hne
  | cons b q => rfl

theorem check_of_isPrefix {q : Path} (hp : check p = none) (h : q <+: p) (hne : q ≠ []) :
    check q = none := by
  unfold check at hp ⊢
  have hlen := h.length_le
  by_cases h0 : (0 : UInt8) ∈ p
  · rw [if_pos h0] at hp
    cases hp
  rw [if_neg h0] at hp
  have hpne : p ≠ [] := fun hnil => hne (List.prefix_nil.1 (hnil ▸ h))
  rw [if_neg hpne] at hp
  by_cases h4 : 4096 ≤ p.length
  · rw [if_pos h4] at hp
    cases hp
  rw [if_neg fun hm => h0 (h.subset hm), if_neg hne, if_neg (by omega)]

/-- What making one folder does. -/
theorem makeFolder_cases (h : f.makeFolder p = .ok g) :
    check p = none ∧ f.root.Passable (f.start p) p.splitLast.1.steps ∧
      (Step.ofPart p.splitLast.2).Short ∧ f.root.item? (f.goal p) = none ∧
      g = f.put (f.goal p) (.folder []) ∧
      ∃ n, f.goal p = reach (f.start p) p.splitLast.1.steps ++ [n] := by
  have hgoal : f.goal p = _ := Node.reach_last (f.start p) p
  unfold makeFolder at h
  split at h
  · cases h
  · rename_i place n htarget
    obtain ⟨hp, hpass, rfl, hn⟩ := target_cases htarget
    rw [← hn] at hgoal ⊢
    rw [hgoal]
    split at h
    · cases h
    split at h
    · cases h
    rename_i hshort hnone
    cases h
    rw [Option.not_isSome_iff_eq_none] at hnone
    exact ⟨hp, hpass, Nat.not_lt.1 hshort, Node.item?_eq_none.2 hnone, rfl, n, rfl⟩
  · cases h

theorem put_items {q place : Place} {n : Name} {new : Node} (hq : q = place ++ [n]) (hnew : new.Bare)
    (hfolder : f.root.item? place = some .folder) (hold : f.root.item? q ≠ some .folder) (r : Place) :
    (f.put q new).root.item? r = if r = q then some new.item else f.root.item? r := by
  subst hq
  exact Node.item?_put hnew place hfolder hold r

theorem makeFolder_grown (h : f.makeFolder p = .ok g) : Grown f g := by
  obtain ⟨-, hpass, -, hnone, rfl, n, hgoal⟩ := makeFolder_cases h
  refine ⟨rfl, ?_⟩
  intro place
  rw [put_items hgoal Node.bare_empty (Node.base_folder hpass) (by rw [hnone]; exact nofun)]
  by_cases hplace : place = f.goal p
  · rw [if_pos hplace, hplace]
    exact .inr ⟨hnone, rfl⟩
  · rw [if_neg hplace]
    exact .inl rfl

/-- The folder itself is there then. -/
theorem makeFolder_passable (h : f.makeFolder p = .ok g) :
    g.root.Passable (f.start p) (p.steps ++ [.stay]) := by
  have hgrown := makeFolder_grown h
  obtain ⟨-, hpass, hshort, hnone, rfl, n, hgoal⟩ := makeFolder_cases h
  refine Node.passable_last (hgrown.passable hpass) hshort ?_
  exact (put_items hgoal Node.bare_empty (Node.base_folder hpass) (by rw [hnone]; exact nofun) _).trans
    (if_pos rfl)

/-! ## A folder that may be there already -/

/-- Makes one folder, unless it is there. -/
def settle (f : Files) (p : Path) : Files × Option Trouble :=
  match f.makeFolder p with
  | .ok made => (made, none)
  | .error t => (f, if f.isFolder p then none else some t)

theorem settle_grown (f : Files) (p : Path) : Grown f (f.settle p).1 := by
  unfold settle
  split
  · rename_i made h
    exact makeFolder_grown h
  · exact .refl f

theorem settle_start (h : (f.settle p).2 = none) : f.root.item? (f.start p) = some .folder := by
  unfold settle at h
  split at h
  · rename_i made hmade
    obtain ⟨-, hpass, -⟩ := makeFolder_cases hmade
    exact hpass.start_folder (Path.steps_ne_nil _)
  · split at h
    · rename_i hfolder
      exact (isFolder_iff.1 hfolder).2.1.start_folder (Path.steps_ne_nil p)
    · cases h

/-- Where the way to the last part is passable, a folder that cannot be made is there. -/
theorem folder_of_unmade {e : Trouble} (hp : check p = none)
    (hpass : f.root.Passable (f.start p) p.splitLast.1.steps)
    (hshort : (Step.ofPart p.splitLast.2).Short)
    (hfile : ∀ content, f.root.item? (f.goal p) ≠ some (.file content))
    (h : f.makeFolder p = .error e) : f.root.item? (f.goal p) = some .folder := by
  have hgoal : f.goal p = _ := Node.reach_last (f.start p) p
  have hbase := Node.base_folder hpass
  unfold makeFolder at h
  rw [target_of_passable hp hpass] at h
  rw [hgoal] at hfile ⊢
  cases hlast : Step.ofPart p.splitLast.2 with
  | stay => exact hbase
  | up => exact Node.item?_dropLast hbase
  | down n =>
    rw [hlast] at h hshort hfile
    simp only [if_neg (Nat.not_lt.2 hshort)] at h
    split at h
    · rename_i hsome
      obtain ⟨node, hnode⟩ := Option.isSome_iff_exists.1 hsome
      have hitem := Node.item?_of_at? hnode
      cases node with
      | folder entries => exact hitem
      | file content => exact absurd hitem (hfile content)
    · cases h

/-- On a clear way that is passable up to the last part, the folder is there in the end. -/
theorem settle_of_passable (hp : check p = none)
    (hpass : f.root.Passable (f.start p) p.splitLast.1.steps)
    (hclear : f.root.Clear (f.start p) (p.steps ++ [.stay])) :
    (f.settle p).2 = none ∧ (f.settle p).1.root.Passable (f.start p) (p.steps ++ [.stay]) := by
  obtain ⟨hsteps, hfile⟩ := Node.clear_snoc_stay.1 hclear
  have hshort := (Node.clear_last hsteps).2
  unfold settle
  cases hmade : f.makeFolder p with
  | ok made => exact ⟨rfl, makeFolder_passable hmade⟩
  | error e =>
    have hfolder := folder_of_unmade hp hpass hshort hfile hmade
    have hopen := Node.passable_last hpass hshort hfolder
    have hthere : f.isFolder p = true :=
      isFolder_iff.2 ⟨hp, (Node.passable_snoc_stay.1 hopen).1, hfolder⟩
    exact ⟨if_pos hthere, hopen⟩

theorem makeFolder_missing (hp : check p = none)
    (hblocked : ¬ f.root.Passable (f.start p) p.splitLast.1.steps)
    (hclear : f.root.Clear (f.start p) p.splitLast.1.steps) :
    f.makeFolder p = .error .missing := by
  obtain ⟨t, htarget, ht⟩ := target_of_blocked hp hblocked
  unfold makeFolder
  rw [htarget, ht hclear]

theorem makeFolder_ne_missing (hp : check p = none)
    (hpass : f.root.Passable (f.start p) p.splitLast.1.steps) :
    f.makeFolder p ≠ .error .missing := by
  unfold makeFolder
  rw [target_of_passable hp hpass]
  split
  · rename_i h
    cases h
  · split
    · exact nofun
    split <;> exact nofun
  · exact nofun

/-! ## Folders above folders -/

theorem makeFolders_nil (f : Files) : f.makeFolders [] = (f, none) := by
  rw [makeFolders, if_pos rfl]

/-- The folders above come first if one of them is missing. -/
theorem makeFolders_of_missing (hp : p ≠ []) (h : f.makeFolder p = .error .missing) :
    f.makeFolders p =
      match p.parent? with
      | none => (f, some (.other "failed to create whole tree".toList))
      | some above =>
        match f.makeFolders above with
        | (g, some t) => (g, some t)
        | (g, none) => g.settle p := by
  rw [makeFolders, if_neg hp, h]
  cases p.parent? <;> rfl

theorem makeFolders_of_ne_missing (hp : p ≠ []) (h : f.makeFolder p ≠ .error .missing) :
    f.makeFolders p = f.settle p := by
  rw [makeFolders, if_neg hp]
  unfold settle
  split
  · rename_i made hmade
    rw [hmade]
  · rename_i hmissing
    exact absurd hmissing h
  · rename_i t _ ht
    rw [ht]

/-- **What making folders comes down to.** Either the folder is settled at once, or those above are
made first, or nothing is done. -/
theorem makeFolders_cases (f : Files) (hp : p ≠ []) :
    f.makeFolders p = f.settle p ∨
    (∃ above, p.parent? = some above ∧ (f.makeFolders above).2 = none ∧
      f.makeFolders p = (f.makeFolders above).1.settle p) ∨
    (∃ above, p.parent? = some above ∧ (f.makeFolders above).2 ≠ none ∧
      f.makeFolders p = f.makeFolders above) ∨
    ((f.makeFolders p).1 = f ∧ (f.makeFolders p).2 ≠ none) := by
  by_cases hmissing : f.makeFolder p = .error .missing
  · rw [makeFolders_of_missing hp hmissing]
    cases hparent : p.parent? with
    | none => exact .inr (.inr (.inr ⟨rfl, Option.some_ne_none _⟩))
    | some above =>
      simp only
      cases hmade : f.makeFolders above with
      | mk g trouble =>
        cases trouble with
        | none => exact .inr (.inl ⟨above, rfl, by rw [hmade], by rw [hmade]⟩)
        | some t =>
          refine .inr (.inr (.inl ⟨above, rfl, ?_, hmade.symm⟩))
          rw [hmade]
          exact Option.some_ne_none _
  · exact .inl (makeFolders_of_ne_missing hp hmissing)

/-- Induction from a path to those below it. -/
theorem parents_induction {motive : Path → Prop}
    (step : ∀ p, (∀ above, p.parent? = some above → motive above) → motive p) (p : Path) : motive p :=
  step p fun above _ => parents_induction step above
termination_by p.length
decreasing_by exact Path.parent?_length ‹_›

/-- **Frame.** Whatever comes of it, only folders are made. -/
theorem makeFolders_grown (f : Files) (p : Path) : Grown f (f.makeFolders p).1 := by
  induction p using parents_induction with
  | step p ih =>
    by_cases hp : p = []
    · rw [hp, makeFolders_nil]
      exact .refl f
    rcases makeFolders_cases f hp with h | ⟨above, ha, -, h⟩ | ⟨above, ha, -, h⟩ | ⟨h, -⟩
    · rw [h]
      exact settle_grown f p
    · rw [h]
      exact (ih above ha).trans (settle_grown _ p)
    · rw [h]
      exact ih above ha
    · rw [h]
      exact .refl f

theorem makeFolders_start (hp : p ≠ []) (h : (f.makeFolders p).2 = none) :
    f.root.item? (f.start p) = some .folder := by
  induction p using parents_induction with
  | step p ih =>
    rcases makeFolders_cases f hp with hs | ⟨above, ha, hnone, hs⟩ | ⟨above, ha, hsome, hs⟩ | ⟨-, hsome⟩
    · rw [hs] at h
      exact settle_start h
    · by_cases hne : above = []
      · rw [hs, hne, makeFolders_nil] at h
        exact settle_start h
      · rw [← start_of_isPrefix (Path.parent?_isPrefix ha) hne]
        exact ih above ha hne hnone
    · rw [hs] at h
      exact absurd h hsome
    · exact absurd h hsome

/-- Where the way to the last part is blocked, there is a parent. -/
theorem parent_of_blocked (htrim : p.trim = p) (hp : p ≠ [])
    (hstart : f.root.item? (f.start p) = some .folder)
    (hblocked : ¬ f.root.Passable (f.start p) p.splitLast.1.steps) :
    p.parent? = some p.splitLast.1.trim ∧ p.splitLast.1.trim ≠ [] := by
  have hne : p.splitLast.1 ≠ [] := by
    intro hnil
    rw [hnil] at hblocked
    exact hblocked (Node.passable_stays hstart 1)
  refine ⟨?_, mt Path.trim_eq_nil.1 hne⟩
  rw [Path.parent?_eq, htrim, if_neg]
  intro h
  rcases h with h | h
  · exact hp h
  · rw [h] at hne
    exact hne rfl

/-- **On a clear way all folders can be made.** -/
theorem makeFolders_of_clear (htrim : p.trim = p) (hp : p = [] ∨ check p = none)
    (hstart : f.root.item? (f.start p) = some .folder)
    (hclear : f.root.Clear (f.start p) (p.steps ++ [.stay])) :
    (f.makeFolders p).2 = none ∧
      (f.makeFolders p).1.root.Passable (f.start p) (p.steps ++ [.stay]) := by
  induction p using parents_induction with
  | step p ih =>
    rcases hp with rfl | hp
    · rw [makeFolders_nil]
      exact ⟨rfl, Node.passable_stays hstart 2⟩
    have hne : p ≠ [] := by
      intro hnil
      rw [hnil] at hp
      cases hp
    have hbase := (Node.clear_last (Node.clear_snoc_stay.1 hclear).1).1
    by_cases hpass : f.root.Passable (f.start p) p.splitLast.1.steps
    · rw [makeFolders_of_ne_missing hne (makeFolder_ne_missing hp hpass)]
      exact settle_of_passable hp hpass hclear
    obtain ⟨hparent, hane⟩ := parent_of_blocked htrim hne hstart hpass
    have habove : p.splitLast.1.trim <+: p := Path.parent?_isPrefix hparent
    have hsame : f.start p.splitLast.1.trim = f.start p := start_of_isPrefix habove hane
    obtain ⟨hnone, hthere⟩ := ih _ hparent (Path.trim_trim _)
      (.inr (check_of_isPrefix hp habove hane)) (hsame ▸ hstart) (hsame ▸ Node.clear_trim hbase)
    rw [makeFolders_of_missing hne (makeFolder_missing hp hpass (Node.clear_snoc_stay.1 hbase).1),
      hparent]
    simp only
    cases hmade : f.makeFolders p.splitLast.1.trim with
    | mk g trouble =>
      have hgrown := makeFolders_grown f p.splitLast.1.trim
      rw [hmade] at hnone hthere hgrown
      obtain rfl : trouble = none := hnone
      rw [hsame, ← hgrown.start p] at hthere
      rw [← hgrown.start p]
      exact settle_of_passable hp (Node.passable_trim hthere)
        (hgrown.clear_iff.2 (hgrown.start p ▸ hclear))

end Files
end Lox

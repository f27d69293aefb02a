import Lox.Proofs.ConfigText

/-!
# The folders above a path

A path that is cut at a slash, with a part behind the slash that leads on, names something above
what the path names. The folders that are made for a path are those: saving a configuration adds
folders only at paths above its own, whether it succeeds or not, and a file only at its own path.

Results:
* `parent?_above`: the parent of a path is above it, unless it is empty or the root.
* `makeFolders_new`: what is new after making folders is named by the path or by one above it.
* `save_changed`: the places that saving can change.
* `save_all_or_nothing`: a save is complete, or changes no file.
-/
namespace Lox

open Lox.Path (Step reach reach_append slash)

/-! ## Paths above a path -/

namespace Path

/-- The one path is the other up to a slash, and is left behind after it. -/
structure Above (q p : Path) : Prop where
  ne_nil : q ≠ []
  cut : ∃ rest : Path, p = q ++ slash :: rest ∧ ∃ step ∈ rest.steps, step ≠ Step.stay

theorem Above.isPrefix {q p : Path} (h : Above q p) : q <+: p := by
  obtain ⟨rest, rfl, -⟩ := h.cut
  exact List.prefix_append q _

theorem Above.trans {q r p : Path} (hqr : Above q r) (hrp : Above r p) : Above q p := by
  obtain ⟨xs, rfl, step, hmem, hstep⟩ := hqr.cut
  obtain ⟨ys, rfl, -⟩ := hrp.cut
  refine ⟨hqr.ne_nil, xs ++ slash :: ys, by simp, step, ?_, hstep⟩
  rw [steps_append]
  exact List.mem_append_left _ hmem

theorem not_above_slash (q : Path) : ¬ Above q [slash] := by
  intro h
  obtain ⟨rest, he, -⟩ := h.cut
  have hlen := congrArg List.length he
  have hpos := List.length_pos_iff.2 h.ne_nil
  simp only [List.length_append, List.length_cons, List.length_nil] at hlen
  omega

/-- What is trimmed off starts with a slash, unless nothing but the root is left. -/
theorem trimReversed_cut (bs : Bytes) : ∃ cut, bs = cut ++ trimReversed bs ∧
    (trimReversed bs = [slash] ∨ cut = [] ∨ cut.getLast? = some slash) := by
  induction bs with
  | nil => exact ⟨[], rfl, .inr (.inl rfl)⟩
  | cons b bs ih =>
    obtain ⟨cut, hcut, hlast⟩ := ih
    unfold trimReversed
    split
    · rename_i h1
      refine ⟨b :: cut, congrArg (b :: ·) hcut, ?_⟩
      rcases hlast with hroot | rfl | hlast
      · exact .inl hroot
      · exact .inr (.inr (congrArg some h1.1))
      · exact .inr (.inr (by rw [List.getLast?_cons, hlast]; rfl))
    split
    · rename_i h2
      refine ⟨b :: cut, congrArg (b :: ·) hcut, ?_⟩
      rcases hlast with hroot | rfl | hlast
      · exact .inl hroot
      · -- a slash that was kept behind the dot is the root
        obtain ⟨rest, hrest⟩ := List.head?_eq_some_iff.1 h2.2
        have hkept : trimReversed bs = slash :: rest := hcut.symm.trans hrest
        rcases head_trimReversed hkept with hne | hnil
        · exact absurd rfl hne
        · exact .inl (hnil ▸ hkept)
      · exact .inr (.inr (by rw [List.getLast?_cons, hlast]; rfl))
    · exact ⟨[], rfl, .inr (.inl rfl)⟩

theorem trim_cut (p : Path) :
    ∃ cut, p = p.trim ++ cut ∧ (p.trim = [slash] ∨ cut = [] ∨ cut.head? = some slash) := by
  obtain ⟨cut, hcut, hlast⟩ := trimReversed_cut p.reverse
  refine ⟨cut.reverse, ?_, ?_⟩
  · rw [← List.reverse_inj, List.reverse_append, reverse_trim, List.reverse_reverse, ← hcut]
  · rw [← reverse_trim, List.reverse_eq_iff, List.reverse_singleton] at hlast
    rwa [List.reverse_eq_nil_iff, List.head?_reverse]

theorem trim_snoc_slash {p : Path} (hp : p ≠ []) : (p ++ [slash]).trim = p.trim := by
  rw [trim, List.reverse_append, List.reverse_singleton, List.singleton_append, trimReversed,
    if_pos ⟨rfl, mt List.reverse_eq_nil_iff.1 hp⟩]
  rfl

/-- A path that goes on behind a slash also goes on so from where it is trimmed. -/
theorem trim_append_slash (p rest : Path) : p.trim = [slash] ∨
    ∃ (k : Nat) (behind : Path), p ++ slash :: rest = p.trim ++ slash :: behind ∧
      behind.steps = List.replicate k .stay ++ rest.steps := by
  obtain ⟨cut, hcut, hroot | hhead⟩ := trim_cut p
  · exact .inl hroot
  obtain ⟨behind, hbehind⟩ : ∃ behind : Path, p ++ slash :: rest = p.trim ++ slash :: behind := by
    rcases hhead with rfl | hhead
    · exact ⟨rest, by rw [List.append_nil] at hcut; rw [← hcut]⟩
    · obtain ⟨cs, rfl⟩ := List.head?_eq_some_iff.1 hhead
      refine ⟨cs ++ slash :: rest, ?_⟩
      calc p ++ slash :: rest
          = (p.trim ++ slash :: cs) ++ slash :: rest := by rw [← hcut]
        _ = p.trim ++ slash :: (cs ++ slash :: rest) := by rw [List.append_assoc]; rfl
  obtain ⟨k, hk⟩ := steps_trim p
  have hsteps := congrArg steps hbehind
  rw [steps_append, steps_append, hk, List.append_assoc, List.append_cancel_left_eq] at hsteps
  exact .inr ⟨k, behind, hbehind, hsteps.symm⟩

/-- A slash before a dot would be trimmed off with it. -/
theorem dot_of_trimmed {bs : Bytes} (h : trimReversed (dot :: bs) = dot :: bs) :
    bs.head? ≠ some slash := by
  intro hhead
  have hne : ¬ (dot = slash ∧ bs ≠ []) := fun h => absurd h.1 (by decide)
  have hlen := congrArg List.length h
  have hle := trimReversed_length bs
  rw [trimReversed, if_neg hne, if_pos ⟨rfl, hhead⟩, List.length_cons] at hlen
  omega

/-- The last part of a path that cannot be trimmed does not stay, if a slash is before it. -/
theorem last_ne_stay {p : Path} (htrim : p.trim = p) (hroot : p ≠ [slash])
    (hfst : p.splitLast.1 ≠ []) : Step.ofPart p.splitLast.2 ≠ .stay := by
  have hfixed : trimReversed p.reverse = p.reverse := by rw [← reverse_trim, htrim]
  cases hp : p.reverse with
  | nil =>
    rw [splitLast, hp] at hfst
    exact absurd rfl hfst
  | cons b bs =>
    rw [hp] at hfixed
    have hb : b ≠ slash := by
      rcases head_trimReversed hfixed with hb | hbs
      · exact hb
      · rintro rfl
        exact hroot (List.reverse_eq_iff.1 (hbs ▸ hp))
    have hlast : p.splitLast.2 = (b :: bs.takeWhile (· != slash)).reverse := by
      simp [splitLast, hp, hb]
    have hbefore : p.splitLast.1 = (bs.dropWhile (· != slash)).reverse := by
      simp [splitLast, hp, hb]
    intro hstay
    have hdot : b = dot ∧ bs.takeWhile (· != slash) = [] := by
      rw [hlast, Step.ofPart] at hstay
      split at hstay
      · rename_i h
        rw [List.reverse_eq_nil_iff, List.reverse_eq_iff] at h
        rcases h with h | h
        · cases h
        · exact List.cons.inj h
      split at hstay <;> cases hstay
    obtain ⟨rfl, htake⟩ := hdot
    cases bs with
    | nil => exact hfst hbefore
    | cons c cs =>
      have hc : c = slash := by simpa [List.takeWhile_cons] using htake
      exact dot_of_trimmed hfixed (congrArg some hc)

/-- **A parent is above**, unless it is empty or the root. -/
theorem parent?_above {p above : Path} (h : p.parent? = some above) :
    above = [] ∨ above = [slash] ∨ Above above p := by
  rw [parent?_eq] at h
  split at h
  · cases h
  rename_i hroot
  rw [not_or] at hroot
  obtain rfl := Option.some.inj h
  rcases splitLast_fst p.trim with hnil | ⟨s, hs⟩
  · rw [hnil]
    exact .inl rfl
  by_cases hsnil : s = []
  · rw [hs, hsnil]
    exact .inr (.inl rfl)
  have hlast := last_ne_stay (trim_trim p) hroot.2 (by simp [hs])
  obtain ⟨rest, hrest⟩ := (splitLast_fst_isPrefix p.trim).trans (trim_isPrefix p)
  rw [hs, List.append_assoc, List.singleton_append] at hrest
  -- the last part comes first behind the slash
  obtain ⟨xs, k, hbase, hsteps⟩ := steps_splitLast p.trim
  obtain ⟨j, hj⟩ := steps_trim p
  rw [hs, steps_snoc_slash, List.append_left_inj] at hbase
  have hbehind : p.steps = s.steps ++ steps rest := by rw [← steps_append, hrest]
  rw [hj, hsteps, hbase, List.append_assoc, List.append_cancel_left_eq] at hbehind
  rw [hs, trim_snoc_slash hsnil]
  rcases trim_append_slash s rest with hslash | ⟨k, behind, hcut, hstays⟩
  · exact .inr (.inl hslash)
  refine .inr (.inr ⟨mt trim_eq_nil.1 hsnil, behind, by rw [← hrest, hcut], _, ?_, hlast⟩)
  rw [hstays, ← hbehind]
  simp

end Path

/-! ## What is new after making folders -/

namespace Files

variable {f g : Files} {p q : Path} {place : Place}

theorem Grown.isFolder (h : Grown f g) (hq : f.isFolder q = true) : g.isFolder q = true := by
  obtain ⟨hcheck, hpass, hfolder⟩ := isFolder_iff.1 hq
  rw [isFolder_iff, h.start, h.goal]
  exact ⟨hcheck, h.passable hpass, h.item hfolder⟩

theorem item?_root (f : Files) : f.root.item? [] ≠ none := Option.some_ne_none _

theorem settle_new (hold : f.root.item? place = none)
    (hnew : (f.settle p).1.root.item? place ≠ none) :
    (f.settle p).2 = none ∧ (f.settle p).1.isFolder p = true ∧ f.goal p = place := by
  unfold settle at hnew ⊢
  cases hmade : f.makeFolder p with
  | error t =>
    rw [hmade] at hnew
    exact absurd hold hnew
  | ok g =>
    rw [hmade] at hnew
    have hgrown := makeFolder_grown hmade
    have hopen := Node.passable_snoc_stay.1 (makeFolder_passable hmade)
    obtain ⟨hcheck, hpass, -, hnone, rfl, n, hgoal⟩ := makeFolder_cases hmade
    have hbase := Node.base_folder hpass
    refine ⟨rfl, ?_, ?_⟩
    · rw [isFolder_iff, hgrown.start, hgrown.goal]
      exact ⟨hcheck, hopen⟩
    · rw [put_items hgoal Node.bare_empty hbase (by rw [hnone]; exact nofun)] at hnew
      split at hnew
      · rename_i hplace
        exact hplace.symm
      · exact absurd hold hnew

/-- What a path names has come to be a folder. -/
structure Made (f g : Files) (q : Path) (place : Place) : Prop where
  start : f.root.item? (f.start q) = some .folder
  folder : g.isFolder q = true
  goal : f.goal q = place

theorem Made.grow {h : Files} (hmade : Made f g q place) (hgrown : Grown g h) : Made f h q place :=
  ⟨hmade.start, hgrown.isFolder hmade.folder, hmade.goal⟩

/-- What is new at a parent or above it is above the path. -/
theorem made_above {above : Path} (ha : p.parent? = some above) (hold : f.root.item? place = none)
    (h : ∃ q, (q = above ∨ q.Above above) ∧ Made f g q place) :
    ∃ q, q.Above p ∧ Made f g q place := by
  obtain ⟨q, hq, hmade⟩ := h
  rcases Path.parent?_above ha with rfl | rfl | hap
  · -- the empty path names nothing
    have hnil : q = [] := by
      rcases hq with hq | hq
      · exact hq
      · exact List.prefix_nil.1 hq.isPrefix
    have hcheck := (isFolder_iff.1 hmade.folder).1
    rw [hnil] at hcheck
    cases hcheck
  · rcases hq with rfl | hq
    · rw [← hmade.goal] at hold
      exact absurd hold (item?_root f)
    · exact absurd hq (Path.not_above_slash q)
  · rcases hq with rfl | hq
    · exact ⟨q, hap, hmade⟩
    · exact ⟨q, hq.trans hap, hmade⟩

/-- **What is new after making folders** is named by the path, or by one above it. -/
theorem makeFolders_new (f : Files) (p : Path) {place : Place} (hold : f.root.item? place = none)
    (hnew : (f.makeFolders p).1.root.item? place ≠ none) :
    ∃ q, (q = p ∨ q.Above p) ∧ Made f (f.makeFolders p).1 q place := by
  induction p using parents_induction with
  | step p ih =>
    by_cases hp : p = []
    · rw [hp, makeFolders_nil] at hnew
      exact absurd hold hnew
    rcases makeFolders_cases f hp with h | ⟨above, ha, hdone, h⟩ | ⟨above, ha, -, h⟩ | ⟨h, -⟩
    · rw [h] at hnew ⊢
      obtain ⟨hnone, hfolder, hgoal⟩ := settle_new hold hnew
      exact ⟨p, .inl rfl, settle_start hnone, hfolder, hgoal⟩
    · rw [h] at hnew ⊢
      by_cases hmade : (f.makeFolders above).1.root.item? place = none
      · obtain ⟨hnone, hfolder, hgoal⟩ := settle_new hmade hnew
        rw [(makeFolders_grown f above).goal] at hgoal
        exact ⟨p, .inl rfl, makeFolders_start hp (by rw [h, hnone]), hfolder, hgoal⟩
      · obtain ⟨q, hq, hnamed⟩ := made_above ha hold (ih above ha hmade)
        exact ⟨q, .inr hq, hnamed.grow (settle_grown _ p)⟩
    · rw [h] at hnew ⊢
      obtain ⟨q, hq, hnamed⟩ := made_above ha hold (ih above ha hnew)
      exact ⟨q, .inr hq, hnamed⟩
    · rw [h] at hnew
      exact absurd hold hnew

theorem Written.isFolder {content : Bytes} (h : Written f g p content) (hq : f.isFolder q = true) :
    g.isFolder q = true := by
  obtain ⟨hcheck, hpass, hfolder⟩ := isFolder_iff.1 hq
  rw [isFolder_iff, h.goal, h.start]
  exact ⟨hcheck, h.stays_passable hpass, h.folder hfolder⟩

/-- The same file stands at a place, or none in both cases. -/
def SameFile (f g : Files) (place : Place) : Prop :=
  ∀ content, g.root.item? place = some (.file content) ↔ f.root.item? place = some (.file content)

end Files

/-! ## What saving changes -/

namespace Config

open Files (Grown Made SameFile)

variable {f : Files} {p : Path} {place : Place}

theorem folders_new (f : Files) (p : Path) {place : Place} (hold : f.root.item? place = none)
    (hnew : (folders f p).1.root.item? place ≠ none) :
    ∃ q, q.Above p ∧ Made f (folders f p).1 q place := by
  unfold folders at hnew ⊢
  cases ha : p.parent? with
  | none =>
    rw [ha] at hnew
    exact absurd hold hnew
  | some above =>
    rw [ha] at hnew
    exact Files.made_above ha hold (Files.makeFolders_new f above hold hnew)

theorem save_start (c : Config) (q : Path) : (c.save f p).1.start q = f.start q := by
  have hgrown := (folders_grown f p).start q
  rcases save_steps c f p with ⟨-, hg⟩ | ⟨-, -, hwritten⟩
  · rw [hg, hgrown]
  · rw [hwritten.start, hgrown]

theorem save_goal (c : Config) (q : Path) : (c.save f p).1.goal q = f.goal q := by
  rw [Files.goal, save_start, Files.goal]

/-- The file stands at the end of the path. -/
theorem save_written (c : Config) (h : (c.save f p).2 = none) :
    (c.save f p).1.root.item? (f.goal p) = some (.file (Utf8.encode c.write)) := by
  rcases save_steps c f p with ⟨hfailed, -⟩ | ⟨-, -, hwritten⟩
  · exact absurd h hfailed
  · rw [hwritten.items, if_pos ((folders_grown f p).goal p).symm]

/-- Folders stay. -/
theorem save_folder (c : Config) (h : f.root.item? place = some .folder) :
    (c.save f p).1.root.item? place = some .folder := by
  have hmade := (folders_grown f p).item h
  rcases save_steps c f p with ⟨-, hg⟩ | ⟨-, -, hwritten⟩
  · rw [hg, hmade]
  · exact hwritten.folder hmade

/-- Ways stay passable. -/
theorem save_passable (c : Config) {steps : List Step} (h : f.root.Passable place steps) :
    (c.save f p).1.root.Passable place steps := by
  have hmade := (folders_grown f p).passable h
  rcases save_steps c f p with ⟨-, hg⟩ | ⟨-, -, hwritten⟩
  · rw [hg]
    exact hmade
  · exact hwritten.stays_passable hmade

theorem folders_changed (h : (folders f p).1.root.item? place ≠ f.root.item? place) :
    f.root.item? place = none ∧ (folders f p).1.root.item? place = some .folder ∧
      ∃ q, q.Above p ∧ Made f (folders f p).1 q place := by
  rcases (folders_grown f p).items place with hsame | ⟨hold, hnew⟩
  · exact absurd hsame h
  · exact ⟨hold, hnew, folders_new f p hold (by rw [hnew]; exact Option.some_ne_none _)⟩

/-- **The places that saving can change**: the end of the path if the save succeeds, and what paths
above it name, where nothing was. -/
theorem save_changed (c : Config) (h : (c.save f p).1.root.item? place ≠ f.root.item? place) :
    ((c.save f p).2 = none ∧ place = (c.save f p).1.goal p) ∨
    (f.root.item? place = none ∧ (c.save f p).1.root.item? place = some .folder ∧
      ∃ q, q.Above p ∧ Made f (c.save f p).1 q place) := by
  rcases save_steps c f p with ⟨-, hg⟩ | ⟨hdone, -, hwritten⟩
  · rw [hg] at h ⊢
    exact .inr (folders_changed h)
  by_cases hplace : place = (folders f p).1.goal p
  · exact .inl ⟨hdone, hplace.trans (hwritten.goal p).symm⟩
  have hsame := hwritten.items place
  rw [if_neg hplace] at hsame
  rw [hsame] at h ⊢
  obtain ⟨hold, hnew, q, hq, hmade⟩ := folders_changed h
  exact .inr ⟨hold, hnew, q, hq, hmade.start, hwritten.isFolder hmade.folder, hmade.goal⟩

theorem save_sameFile (c : Config) (h : (c.save f p).2 = none → place ≠ (c.save f p).1.goal p) :
    SameFile f (c.save f p).1 place := by
  intro content
  by_cases hsame : (c.save f p).1.root.item? place = f.root.item? place
  · rw [hsame]
  rcases save_changed c hsame with ⟨hdone, hplace⟩ | ⟨hold, hnew, -⟩
  · exact absurd hplace (h hdone)
  · rw [hold, hnew]
    exact ⟨nofun, nofun⟩

/-- **Saving is all or nothing.** A save that succeeds is read back from the same path, and changes
no file but the one that this path names; a save that fails changes no file at all. In both cases
all folders stay, and every new one is named by a path above that of the file. -/
theorem save_all_or_nothing (c : Config) (f : Files) (p : Path) :
    ((c.save f p).2 = none → loadFrom (c.save f p).1 p = .ok c ∧
      ∀ place, place ≠ (c.save f p).1.goal p → SameFile f (c.save f p).1 place) ∧
    ((c.save f p).2 ≠ none → ∀ place, SameFile f (c.save f p).1 place) ∧
    (∀ place, f.root.item? place = some .folder →
      (c.save f p).1.root.item? place = some .folder) ∧
    ∀ place, (c.save f p).1.root.item? place = some .folder →
      f.root.item? place ≠ some .folder →
        ∃ q, q.Above p ∧ (c.save f p).1.isFolder q = true ∧ (c.save f p).1.goal q = place := by
  refine ⟨?_, ?_, fun place => save_folder c, ?_⟩
  · intro hdone
    exact ⟨loadFrom_of_saved (Prod.ext rfl hdone), fun place hplace => save_sameFile c fun _ => hplace⟩
  · intro hfailed place
    exact save_sameFile c fun hdone => absurd hdone hfailed
  · intro place hnew hold
    rcases save_changed c (hnew ▸ Ne.symm hold) with ⟨hdone, hplace⟩ | ⟨-, -, q, hq, hmade⟩
    · -- a file stands at the end of the path then
      rw [hplace, save_goal, save_written c hdone] at hnew
      cases hnew
    · exact ⟨q, hq, hmade.folder, (save_goal c q).trans hmade.goal⟩

/-- A folder with one file in it. -/
def bare : Files where
  root := .folder [(Command.word "notes", .file (Command.word "mine"))]
  here := []

/-- A save in a new folder, and one that fails when the folder has been made already. -/
theorem save_all_or_nothing_bare :
    (save {} bare (Command.word "new/config.json")).2 = none ∧
    loadFrom (save {} bare (Command.word "new/config.json")).1 (Command.word "new/config.json") =
      .ok {} ∧
    (save {} bare (Command.word "new/..")).2 ≠ none ∧
    SameFile bare (save {} bare (Command.word "new/..")).1 [Command.word "notes"] ∧
    ∃ q, q.Above (Command.word "new/..") ∧
      (save {} bare (Command.word "new/..")).1.goal q = [Command.word "new"] := by
  have hmade : bare.makeFolders (Command.word "new") = bare.settle (Command.word "new") :=
    Files.makeFolders_of_ne_missing (by decide)
      (Files.makeFolder_ne_missing (by decide) (by decide))
  have hfile : folders bare (Command.word "new/config.json") = bare.settle (Command.word "new") := hmade
  have hback : folders bare (Command.word "new/..") = bare.settle (Command.word "new") := hmade
  have hdone : (save {} bare (Command.word "new/config.json")).2 = none := by
    rw [save_eq, hfile]
    decide
  have hfailed : (save {} bare (Command.word "new/..")).2 ≠ none := by
    rw [save_eq, hback]
    decide
  obtain ⟨hok, -, -, -⟩ := save_all_or_nothing {} bare (Command.word "new/config.json")
  obtain ⟨-, herr, -, hnew⟩ := save_all_or_nothing {} bare (Command.word "new/..")
  obtain ⟨q, hq, -, hgoal⟩ := hnew [Command.word "new"]
    (by rw [save_eq, hback]; decide) (by decide)
  exact ⟨hdone, (hok hdone).1, hfailed, herr hfailed _, q, hq, hgoal⟩

end Config
end Lox

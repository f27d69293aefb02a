import Lox.Config.Store
import Lox.Proofs.Folders

/-!
# Saving a configuration

A configuration is saved by making the folders above its path and then writing the file, the path
being walked anew for each. Only folders come to stand where nothing was, and one file is written.

Results:
* `write_cases`, `write_of_passable`: what writing one file does, and when it succeeds.
* `Written.read`: what was written is read back from the same path.
* `path_eq`: the configuration file has the same name in every environment.
* `save_steps`, `save_cases`: what saving does to the files, whatever comes of it.
* `save_of_writable`: when saving to a file that is there succeeds.
-/
namespace Lox

open Lox.Path (Step reach_append)

/-! ## Writing one file -/

namespace Files

variable {f g : Files} {p : Path} {content : Bytes}

/-- What writing a file takes, and what it does. -/
structure Written (f g : Files) (p : Path) (content : Bytes) : Prop where
  usable : check p = none
  base : f.root.Passable (f.start p) p.splitLast.1.steps
  short : (Step.ofPart p.splitLast.2).Short
  named : p.getLast? ≠ some Path.slash
  room : f.root.item? (f.goal p) ≠ some .folder
  here : g.here = f.here
  items : ∀ place, g.root.item? place =
    if place = f.goal p then some (.file content) else f.root.item? place

theorem write_cases (h : f.write p content = .ok g) : Written f g p content := by
  have hgoal : f.goal p = _ := Node.reach_last (f.start p) p
  unfold write at h
  split at h
  · cases h
  · rename_i folder n htarget
    obtain ⟨hp, hpass, rfl, hn⟩ := target_cases htarget
    rw [← hn, Step.lead] at hgoal
    split at h
    · cases h
    rename_i hnamed
    split at h
    · cases h
    rename_i hshort
    split at h
    · cases h
    rename_i hold
    cases h
    have hroom : f.root.item? (f.goal p) ≠ some .folder := by
      intro hfolder
      obtain ⟨entries, he⟩ := Node.item?_eq_folder.1 hfolder
      exact hold entries (hgoal ▸ he)
    refine ⟨hp, hpass, hn ▸ Nat.not_lt.1 hshort, hnamed, hroom, rfl, ?_⟩
    rw [hgoal] at hroom ⊢
    exact put_items rfl (Node.bare_file content) (Node.base_folder hpass) hroom
  · cases h

theorem Written.start (h : Written f g p content) (q : Path) : g.start q = f.start q := by
  unfold Files.start
  rw [h.here]

theorem Written.goal (h : Written f g p content) (q : Path) : g.goal q = f.goal q := by
  unfold Files.goal
  rw [h.start]

/-- A folder stays one. -/
theorem Written.folder {place : Place} (h : Written f g p content)
    (hfolder : f.root.item? place = some .folder) : g.root.item? place = some .folder := by
  have hne : place ≠ f.goal p := by
    rintro rfl
    exact h.room hfolder
  rw [h.items, if_neg hne, hfolder]

/-- A way stays passable. -/
theorem Written.stays_passable {place : Place} {steps : List Step} (h : Written f g p content)
    (hpass : f.root.Passable place steps) : g.root.Passable place steps := by
  refine hpass.mono (fun _ => h.folder) ?_
  intro x hx
  rw [h.items]
  split
  · exact Option.some_ne_none _
  · exact hx

/-- The way to the file is passable when it has been written. -/
theorem Written.passable (h : Written f g p content) : g.root.Passable (g.start p) p.steps := by
  have hfile : g.root.item? (f.goal p) ≠ none := by
    rw [h.items, if_pos rfl]
    exact Option.some_ne_none _
  obtain ⟨xs, hbase, hsteps⟩ := Path.steps_of_getLast h.named
  have hpass := h.stays_passable h.base
  rw [hbase, Node.passable_snoc_stay] at hpass
  rw [Files.goal, hsteps, reach_append] at hfile
  rw [h.start, hsteps, Node.passable_append]
  exact ⟨hpass.1, hpass.2, h.short, hfile⟩

/-- **What was written is read back.** -/
theorem Written.read (h : Written f g p content) : g.read p = .ok content := by
  obtain ⟨node, hnode, hresolve⟩ := resolve_of_passable h.usable h.passable
  have hfile : g.root.item? (g.goal p) = some (.file content) := by
    rw [h.goal, h.items, if_pos rfl]
  obtain rfl := Option.some.inj (hnode.symm.trans (Node.item?_eq_file.1 hfile))
  rw [Files.read, hresolve]

theorem Written.exists? (h : Written f g p content) : g.exists? p = true :=
  exists?_iff.2 ⟨h.usable, h.passable⟩

/-- A file can be written where no folder stands, in a folder that can be reached. -/
theorem write_of_passable (content : Bytes) {q : Path} {n : Name} (hn : Step.ofPart n = .down n)
    (hs : Path.slash ∉ n) (hshort : n.length ≤ 255) (hp : check (q ++ Path.slash :: n) = none)
    (hpass : f.root.Passable (f.start (q ++ Path.slash :: n)) (q ++ [Path.slash]).steps)
    (hold : f.root.item? (f.goal (q ++ Path.slash :: n)) ≠ some .folder) :
    ∃ g, f.write (q ++ Path.slash :: n) content = .ok g := by
  have hsplit := Path.splitLast_named hn hs q
  have hgoal : f.goal (q ++ Path.slash :: n) = _ := Node.reach_last _ _
  have htarget : f.target (q ++ Path.slash :: n) = _ := target_of_passable hp (hsplit ▸ hpass)
  rw [hsplit] at hgoal htarget
  simp only [hn, Step.lead] at hgoal htarget
  unfold write
  simp only [htarget, if_neg (Path.getLast?_named hn hs q), if_neg (Nat.not_lt.2 hshort)]
  split
  · rename_i entries he
    rw [hgoal] at hold
    exact absurd (Node.item?_of_at? he) hold
  · exact ⟨_, rfl⟩

/-! ## Paths that can be written to -/

/-- Only folders are missing on the way to the last part, and they can be made. -/
structure Writable (f : Files) (p : Path) : Prop where
  usable : check p = none
  start : f.root.item? (f.start p) = some .folder
  clear : f.root.Clear (f.start p) p.splitLast.1.steps
  short : (Step.ofPart p.splitLast.2).Short

end Files

/-! ## Saving a configuration -/

namespace Path

theorem join_ne_nil {p q : Path} (h : p ≠ [] ∨ q ≠ []) : p.join q ≠ [] := by
  unfold join
  intro hnil
  split at hnil
  · rename_i habsolute
    rw [hnil] at habsolute
    cases habsolute
  split at hnil
  · obtain ⟨hp, hq⟩ := List.append_eq_nil_iff.1 hnil
    rcases h with h | h
    · exact h hp
    · exact h hq
  · exact List.append_ne_nil_of_right_ne_nil p (List.cons_ne_nil _ _) hnil

/-- A name that is no path from the root is joined behind a slash, which may be there already. -/
theorem join_name {p : Path} {n : Name} (hp : p ≠ []) (hn : isAbsolute n = false) :
    ∃ q, (p = q ∨ p = q ++ [slash]) ∧ p.join n = q ++ slash :: n := by
  unfold join
  rw [hn, if_neg Bool.false_ne_true]
  by_cases hlast : p.getLast? = some slash
  · obtain ⟨q, rfl⟩ := List.getLast?_eq_some_iff.1 hlast
    exact ⟨q, .inr rfl, by rw [if_pos (.inr hlast), List.append_assoc]; rfl⟩
  · rw [if_neg (not_or.2 ⟨hp, hlast⟩)]
    exact ⟨p, .inl rfl, rfl⟩

end Path

namespace Config

/-- The name of every configuration file. -/
def fileName : Name := Utf8.encode "config.json".toList

theorem fileName_step : Step.ofPart fileName = .down fileName := by decide

theorem slash_notMem_fileName : Path.slash ∉ fileName := by decide

theorem fileName_length : fileName.length ≤ 255 := by decide

/-- **The configuration file has its name**, whatever the environment is. -/
theorem path_eq (e : Environment) : ∃ q, path e = q ++ Path.slash :: fileName := by
  refine (Path.join_name ?_ ?_).imp fun q h => h.2
  · exact Path.join_ne_nil (.inl (Path.join_ne_nil (.inr (by decide))))
  · decide

variable {c : Config} {f : Files} {p : Path}

/-- Makes the folders above a path. -/
def folders (f : Files) (p : Path) : Files × Option Trouble :=
  match p.parent? with
  | none => (f, none)
  | some above => f.makeFolders above

theorem save_eq (c : Config) (f : Files) (p : Path) :
    c.save f p =
      match folders f p with
      | (g, some t) => (g, some (.access p t))
      | (g, none) =>
        match g.write p (Utf8.encode c.write) with
        | .error t => (g, some (.access p t))
        | .ok h => (h, none) := by
  unfold save folders
  cases p.parent? with
  | none => rfl
  | some above =>
    simp only
    cases f.makeFolders above with
    | mk g trouble => cases trouble <;> rfl

theorem folders_grown (f : Files) (p : Path) : Files.Grown f (folders f p).1 := by
  unfold folders
  cases p.parent? with
  | none => exact .refl f
  | some above => exact Files.makeFolders_grown f above

/-- A save that fails makes folders only; one that succeeds writes the file after that. -/
theorem save_steps (c : Config) (f : Files) (p : Path) :
    ((c.save f p).2 ≠ none ∧ (c.save f p).1 = (folders f p).1) ∨
    ((c.save f p).2 = none ∧ (folders f p).2 = none ∧
      Files.Written (folders f p).1 (c.save f p).1 p (Utf8.encode c.write)) := by
  rw [save_eq]
  cases hmade : folders f p with
  | mk g trouble =>
    cases trouble with
    | some t => exact .inl ⟨Option.some_ne_none _, rfl⟩
    | none =>
      simp only
      cases hwrite : g.write p (Utf8.encode c.write) with
      | error t => exact .inl ⟨Option.some_ne_none _, rfl⟩
      | ok h => exact .inr ⟨rfl, trivial, Files.write_cases hwrite⟩

/-- Folders are made only below the folder where the path starts. -/
theorem folders_start (hmade : (folders f p).2 = none)
    (hstart : (folders f p).1.root.item? (f.start p) = some .folder) :
    f.root.item? (f.start p) = some .folder := by
  unfold folders at hmade hstart
  cases hparent : p.parent? with
  | none =>
    rw [hparent] at hstart
    exact hstart
  | some above =>
    rw [hparent] at hmade hstart
    by_cases habove : above = []
    · rw [habove] at hstart
      simp only [Files.makeFolders_nil] at hstart
      exact hstart
    · rw [← Files.start_of_isPrefix (Path.parent?_isPrefix hparent) habove]
      exact Files.makeFolders_start habove hmade

/-- **What saving does**, for every path: it fails, and only folders were made, or the path can be
written to, and the configuration is written to its end after only folders were made. -/
theorem save_cases (c : Config) (f : Files) (p : Path) :
    ((c.save f p).2 ≠ none ∧ Files.Grown f (c.save f p).1) ∨
    ((c.save f p).2 = none ∧ f.Writable p ∧
      ∃ g, Files.Grown f g ∧ ∀ place, (c.save f p).1.root.item? place =
        if place = f.goal p then some (.file (Utf8.encode c.write)) else g.root.item? place) := by
  have hgrown := folders_grown f p
  rcases save_steps c f p with ⟨hfailed, hg⟩ | ⟨hdone, hmade, hwritten⟩
  · rw [hg]
    exact .inl ⟨hfailed, hgrown⟩
  · have hpass := hwritten.base
    have hitems := hwritten.items
    rw [hgrown.start] at hpass
    rw [hgrown.goal] at hitems
    have hstart := folders_start hmade (hpass.start_folder (Path.steps_ne_nil _))
    exact .inr ⟨hdone, ⟨hwritten.usable, hstart, hgrown.clear_iff.1 hpass.clear, hwritten.short⟩,
      _, hgrown, hitems⟩

/-- **Saving to a file that is there** succeeds if its path can be written to. -/
theorem save_of_writable {q : Path} {n : Name} {old : Bytes} (hn : Step.ofPart n = .down n)
    (hs : Path.slash ∉ n) (hpath : p = q ++ Path.slash :: n) (h : f.Writable p)
    (hfile : f.root.item? (f.goal p) = some (.file old)) : (c.save f p).2 = none := by
  subst hpath
  obtain ⟨hp, hstart, hbase, hshort⟩ := h
  rw [Path.splitLast_named hn hs] at hbase hshort
  rw [hn] at hshort
  have hparent := Path.parent?_named hn hs q
  have hprefix := Path.parent?_isPrefix hparent
  have hne : (q ++ [Path.slash]).trim ≠ [] :=
    mt Path.trim_eq_nil.1 (List.append_ne_nil_of_right_ne_nil q (List.cons_ne_nil _ _))
  have hsame := Files.start_of_isPrefix (f := f) hprefix hne
  have hclear := Node.clear_trim (Node.clear_slash_stay hbase)
  obtain ⟨hnone, hthere⟩ := Files.makeFolders_of_clear (Path.trim_trim _)
    (.inr (Files.check_of_isPrefix hp hprefix hne)) (hsame ▸ hstart) (hsame ▸ hclear)
  have hgrown := Files.makeFolders_grown f (q ++ [Path.slash]).trim
  rw [save_eq, folders, hparent]
  simp only
  cases hmade : f.makeFolders (q ++ [Path.slash]).trim with
  | mk g trouble =>
    rw [hmade] at hnone hthere hgrown
    obtain rfl : trouble = none := hnone
    have hpass := Node.passable_trim hthere
    rw [hsame, ← hgrown.start] at hpass
    have hold : g.root.item? (g.goal (q ++ Path.slash :: n)) = some (.file old) := by
      rw [hgrown.goal]
      exact hgrown.item hfile
    obtain ⟨h, hwrite⟩ := Files.write_of_passable (Utf8.encode c.write) hn hs hshort hp hpass
      (by simp [hold])
    simp only [hwrite]

end Config
end Lox

import Lox.Proofs.Ancestors
import Lox.Proofs.Create
import Lox.Proofs.Stretches

/-!
# Environments do not disturb each other

The configuration files of all environments lie in one folder, each in a folder with the name of its
environment. Saving in one environment makes the folders above its file and writes the file; none
of them is on the way from the common folder to the file of another environment. What is loaded
there depends on that way alone, so it stays what it was, whether it was a configuration, the
defaults or a failure.

Results:
* `load_congr`: loading depends on the way to the file and on what stands at its end.
* `save_elsewhere`: saving in one environment leaves the end of another one's path as it is.
* `environments_isolated`: no environment changes what is loaded in another.
-/
namespace Lox

open Lox.Path (Step reach reach_append slash)

/-! ## Ordinary names -/

namespace Path

/-- A single part of a path that leads down. -/
structure Ordinary (n : Name) : Prop where
  ne_nil : n ≠ []
  no_slash : slash ∉ n
  ne_dot : n ≠ [dot]
  ne_dots : n ≠ [dot, dot]

theorem Ordinary.step {n : Name} (h : Ordinary n) : Step.ofPart n = .down n := by
  rw [Step.ofPart, if_neg (not_or.2 ⟨h.ne_nil, h.ne_dot⟩), if_neg h.ne_dots]

theorem Ordinary.not_absolute {n : Name} (h : Ordinary n) : isAbsolute n = false := by
  cases n with
  | nil => rfl
  | cons b n =>
    have hb : b ≠ slash := fun he => h.no_slash (he ▸ List.mem_cons_self)
    simpa [isAbsolute] using hb

/-- Behind a name a slash is needed. -/
theorem join_named {q : Path} {m n : Name} (hm : Ordinary m) (hn : isAbsolute n = false) :
    (q ++ slash :: m).join n = q ++ slash :: m ++ slash :: n := by
  have hne : q ++ slash :: m ≠ [] := List.append_ne_nil_of_right_ne_nil q (List.cons_ne_nil _ _)
  rw [join, hn, if_neg Bool.false_ne_true,
    if_neg (not_or.2 ⟨hne, getLast?_named hm.step hm.no_slash q⟩)]

end Path

/-! ## Ways down -/

namespace Node

theorem reach_downs (place : Place) (ns : List Name) :
    reach place (ns.map Step.down) = place ++ ns := by
  induction ns generalizing place with
  | nil => exact (List.append_nil place).symm
  | cons n ns ih => exact (ih (place ++ [n])).trans (List.append_assoc place [n] ns)

/-- What exists below a place can be reached from it. -/
theorem passable_downs {root : Node} {place : Place} {ns : List Name} :
    root.Passable place (ns.map Step.down) ↔
      (∀ n ∈ ns, n.length ≤ 255) ∧ root.item? (place ++ ns) ≠ none := by
  induction ns generalizing place with
  | nil => simp [Passable]
  | cons n ns ih =>
    have hshort : (Step.down n).Short ↔ n.length ≤ 255 := Iff.rfl
    rw [List.map_cons, Passable, Step.lead, ih, List.append_assoc, List.singleton_append, hshort,
      List.forall_mem_cons]
    exact ⟨fun h => ⟨⟨h.2.1, h.2.2.1⟩, h.2.2.2⟩, fun h => ⟨item?_above h.2, h.1.1, h.1.2, h.2⟩⟩

theorem reach_length (place : Place) (steps : List Step) :
    (reach place steps).length ≤ place.length + steps.length := by
  induction steps generalizing place with
  | nil => exact Nat.le_refl _
  | cons step steps ih =>
    have hstep : (step.lead place).length ≤ place.length + 1 := by
      cases step <;> simp [Step.lead]; omega
    have hrest := ih (step.lead place)
    rw [List.length_cons]
    show (reach (step.lead place) steps).length ≤ _
    omega

end Node

/-! ## What is loaded -/

namespace Files

variable {f : Files} {p : Path}

/-- What is read at the end of a passable way. -/
theorem read_of_passable (hp : check p = none) (h : f.root.Passable (f.start p) p.steps) :
    f.read p =
      match f.root.item? (f.goal p) with
      | some (.file content) => .ok content
      | _ => .error .isFolder := by
  obtain ⟨node, hnode, hresolve⟩ := resolve_of_passable hp h
  rw [read, hresolve, Node.item?_of_at? hnode]
  cases node <;> rfl

end Files

namespace Config

variable {f g : Files} {e : Environment}

/-- **Loading depends on the way to the file**, and on what stands at its end. -/
theorem load_congr (hstart : g.start (path e) = f.start (path e))
    (hpass : g.root.Passable (f.start (path e)) (path e).steps ↔
      f.root.Passable (f.start (path e)) (path e).steps)
    (hitem : g.root.item? (f.goal (path e)) = f.root.item? (f.goal (path e))) :
    load g e = load f e := by
  have hexists : g.exists? (path e) = f.exists? (path e) := by
    rw [Bool.eq_iff_iff, Files.exists?_iff, Files.exists?_iff, hstart, hpass]
  unfold load
  simp only [hexists]
  by_cases h : f.exists? (path e) = true
  · obtain ⟨hcheck, hway⟩ := Files.exists?_iff.1 h
    have hread : g.read (path e) = f.read (path e) := by
      rw [Files.read_of_passable hcheck hway,
        Files.read_of_passable hcheck (hstart.symm ▸ hpass.2 hway), Files.goal, hstart, ← Files.goal,
        hitem]
    rw [loadFrom, hread, ← loadFrom]
  · rw [if_neg h, if_neg h]

/-! ## The files of the environments -/

/-- The folder of all environments. -/
def folderName : Name := Utf8.encode ".lox".toList

theorem ordinary_folderName : Path.Ordinary folderName := by
  constructor <;> decide

theorem ordinary_fileName : Path.Ordinary fileName := by
  constructor <;> decide

/-- The path of the configuration file of an environment. -/
def pathIn (home : Path) (n : Name) : Path := ((home.join folderName).join n).join fileName

theorem pathIn_eq {home : Path} (h : home ≠ []) : ∃ q, (home = q ∨ home = q ++ [slash]) ∧
    ∀ n, Path.Ordinary n →
      pathIn home n = q ++ slash :: folderName ++ slash :: n ++ slash :: fileName := by
  obtain ⟨q, hq, hjoin⟩ := Path.join_name h ordinary_folderName.not_absolute
  refine ⟨q, hq, ?_⟩
  intro n hn
  rw [pathIn, hjoin, Path.join_named ordinary_folderName hn.not_absolute,
    Path.join_named hn ordinary_fileName.not_absolute]

theorem pathIn_injective {home : Path} (h : home ≠ []) {m n : Name} (hm : Path.Ordinary m)
    (hn : Path.Ordinary n) (he : pathIn home m = pathIn home n) : m = n := by
  obtain ⟨q, -, hq⟩ := pathIn_eq h
  rw [hq m hm, hq n hn, List.append_left_inj, List.append_right_inj] at he
  exact (List.cons.inj he).2

theorem start_in {home : Path} (h : home ≠ []) {n : Name} (hn : Path.Ordinary n) :
    f.start (pathIn home n) = f.start home := by
  obtain ⟨q, hq, hpath⟩ := pathIn_eq h
  have hprefix : home <+: q ++ slash :: folderName ++ slash :: n ++ slash :: fileName := by
    rcases hq with rfl | rfl
    · exact ⟨slash :: folderName ++ slash :: n ++ slash :: fileName, by simp⟩
    · exact ⟨folderName ++ slash :: n ++ slash :: fileName, by simp⟩
  rw [hpath n hn, Files.start_of_isPrefix hprefix h]

/-- **The way to the file of an environment** goes through the home folder, and down from it. -/
theorem way_in {home : Path} (h : f.isFolder home = true) {n : Name} (hn : Path.Ordinary n) :
    ∃ steps, f.root.Passable (f.start home) steps ∧ reach (f.start home) steps = f.goal home ∧
      f.start (pathIn home n) = f.start home ∧
      (pathIn home n).steps = steps ++ [folderName, n, fileName].map Step.down := by
  obtain ⟨hcheck, hpass, -⟩ := Files.isFolder_iff.1 h
  have hne : home ≠ [] := by
    rintro rfl
    cases hcheck
  obtain ⟨q, hq, hpath⟩ := pathIn_eq hne
  rw [hpath n hn]
  have hsteps : (q ++ slash :: folderName ++ slash :: n ++ slash :: fileName).steps =
      q.steps ++ [folderName, n, fileName].map Step.down := by
    rw [Path.steps_named ordinary_fileName.step ordinary_fileName.no_slash,
      Path.steps_named hn.step hn.no_slash,
      Path.steps_named ordinary_folderName.step ordinary_folderName.no_slash]
    simp
  refine ⟨q.steps, ?_, ?_, hpath n hn ▸ start_in hne hn, hsteps⟩
  · rcases hq with rfl | rfl
    · exact hpass
    · rw [Path.steps_snoc_slash, Node.passable_snoc_stay] at hpass
      exact hpass.1
  · rcases hq with rfl | rfl
    · rfl
    · rw [Files.goal, Path.steps_snoc_slash, reach_append]
      rfl

theorem goal_in {home : Path} (h : f.isFolder home = true) {n : Name} (hn : Path.Ordinary n) :
    f.goal (pathIn home n) = f.goal home ++ [folderName, n, fileName] := by
  obtain ⟨steps, -, hreach, hstart, hsteps⟩ := way_in h hn
  rw [Files.goal, hstart, hsteps, reach_append, hreach, Node.reach_downs]

/-- What a path above the file of an environment names is there before, or is less deep. -/
theorem above_in {home q : Path} (h : f.isFolder home = true) {n : Name} (hn : Path.Ordinary n)
    (hq : q.Above (pathIn home n)) :
    f.root.item? (f.goal q) ≠ none ∨ (f.goal q).length < (f.goal home).length + 3 := by
  obtain ⟨steps, hpass, hreach, hstart, hsteps⟩ := way_in h hn
  obtain ⟨rest, hcut, -⟩ := hq.cut
  have hgoal : f.goal q = reach (f.start home) q.steps := by
    rw [Files.goal, Files.start_of_isPrefix hq.isPrefix hq.ne_nil, hstart]
  rw [hcut, Path.steps_append] at hsteps
  rw [hgoal]
  rcases List.append_eq_append_iff.1 hsteps with ⟨xs, hxs, -⟩ | ⟨xs, hxs, hdowns⟩
  · -- a way that ends before the home folder, or there
    rw [hxs, Node.passable_append] at hpass
    exact .inl hpass.2.start
  · refine .inr ?_
    have hlen := congrArg List.length hdowns
    have hrest := List.length_pos_iff.2 (Path.steps_ne_nil rest)
    have hle := Node.reach_length (f.goal home) xs
    rw [hxs, reach_append, hreach]
    simp only [List.length_map, List.length_cons, List.length_nil, List.length_append] at hlen
    omega

/-- **Saving in one environment** leaves the end of the path of another one as it is. -/
theorem save_elsewhere (c : Config) {home : Path} (h : f.isFolder home = true) {m n : Name}
    (hm : Path.Ordinary m) (hn : Path.Ordinary n) (hne : m ≠ n) :
    (c.save f (pathIn home m)).1.root.item? (f.goal (pathIn home n)) =
      f.root.item? (f.goal (pathIn home n)) := by
  by_contra hchanged
  rcases save_changed c hchanged with ⟨-, hplace⟩ | ⟨hold, -, q, hq, hmade⟩
  · rw [save_goal, goal_in h hm, goal_in h hn, List.append_right_inj] at hplace
    simp only [List.cons.injEq] at hplace
    exact hne hplace.2.1.symm
  · rw [← hmade.goal] at hold
    rcases above_in h hm hq with hthere | hdepth
    · exact hthere hold
    · rw [hmade.goal, goal_in h hn, List.length_append] at hdepth
      simp only [List.length_cons, List.length_nil] at hdepth
      omega

/-- **Saving in one environment changes nothing in another** that shares its home folder. -/
theorem load_elsewhere (c : Config) {home : Path} (h : f.isFolder home = true) {m n : Name}
    (hm : Path.Ordinary m) (hn : Path.Ordinary n) (hne : m ≠ n) (he : path e = pathIn home n) :
    load (c.save f (pathIn home m)).1 e = load f e := by
  have hitem := save_elsewhere c h hm hn hne
  obtain ⟨steps, hpass, hreach, hstart, hsteps⟩ := way_in h hn
  refine load_congr (save_start c _) ?_ (he ▸ hitem)
  rw [goal_in h hn] at hitem
  rw [he, hstart, hsteps, Node.passable_append, Node.passable_append, hreach, Node.passable_downs,
    Node.passable_downs, hitem]
  exact and_congr_left fun _ => ⟨fun _ => hpass, fun _ => save_passable c hpass⟩

/-- Nothing is saved below a place that is no folder. -/
theorem save_nowhere (c : Config) {p : Path} (h : f.root.item? (f.start p) ≠ some .folder)
    (place : Place) : (c.save f p).1.root.item? place = f.root.item? place := by
  by_contra hchanged
  rcases save_changed c hchanged with ⟨hdone, -⟩ | ⟨-, -, q, hq, hmade⟩
  · rcases save_cases c f p with ⟨hfailed, -⟩ | ⟨-, hwritable, -⟩
    · exact hfailed hdone
    · exact h hwritable.start
  · rw [← Files.start_of_isPrefix hq.isPrefix hq.ne_nil] at h
    exact h hmade.start

end Config

/-! ## Environments -/

namespace Environment

def name (e : Environment) : Name := pathOr e.profile "default".toList

def homePath (e : Environment) : Path := pathOr e.home ".".toList

end Environment

namespace Config

variable {f : Files} {a b : Environment}

theorem path_eq_pathIn (e : Environment) : path e = pathIn e.homePath e.name := rfl

theorem homePath_eq (h : a.home = b.home) : a.homePath = b.homePath := by
  rw [Environment.homePath, h, Environment.homePath]

/-- A home folder whose name is no text is passed over for the working folder, which may be gone. -/
theorem homePath_cases {home : Bytes} (h : f.isFolder home = true) (ha : a.home = some home) :
    a.homePath ≠ [] ∧
      (f.isFolder a.homePath = true ∨ f.root.item? (f.start a.homePath) ≠ some .folder) := by
  have hhome : a.homePath = Utf8.encode ((Utf8.decode? home).getD ".".toList) := by
    rw [Environment.homePath, ha]
    rfl
  cases hd : Utf8.decode? home with
  | some cs =>
    have hsame : a.homePath = home := by
      rw [hhome, hd, Utf8.decode?_iff.1 hd]
      rfl
    rw [hsame]
    refine ⟨?_, .inl h⟩
    rintro rfl
    cases (Files.isFolder_iff.1 h).1
  | none =>
    have hdot : a.homePath = [Path.dot] := by
      rw [hhome, hd]
      decide
    rw [hdot]
    refine ⟨List.cons_ne_nil _ _, ?_⟩
    by_cases hstart : f.root.item? (f.start [Path.dot]) = some .folder
    · exact .inl (Files.isFolder_iff.2 ⟨by decide, Node.passable_stays hstart 1, hstart⟩)
    · exact .inr hstart

/-- No save in one environment is seen in another. -/
theorem load_isolated {home : Bytes} (hhome : f.isFolder home = true) (ha : a.home = some home)
    (hb : b.home = some home) (hna : Path.Ordinary a.name) (hnb : Path.Ordinary b.name)
    (hne : a.name ≠ b.name) (c : Config) : load (c.save f (path a)).1 b = load f b := by
  have hsame : b.homePath = a.homePath := homePath_eq (hb.trans ha.symm)
  obtain ⟨hnil, hfolder | hnone⟩ := homePath_cases hhome ha
  · exact load_elsewhere c hfolder hna hnb hne (hsame ▸ path_eq_pathIn b)
  · have hitems := save_nowhere c (p := path a) (by rwa [path_eq_pathIn, start_in hnil hna])
    refine load_congr (save_start c _) ⟨fun h => ?_, save_passable c⟩ (hitems _)
    exact h.mono (fun x hx => hitems x ▸ hx) fun x hx => hitems x ▸ hx

end Config

namespace Command

/-- **Environments are isolated.** Two environments that share a home folder and have different
ordinary names keep their configurations at different paths, and neither saving a configuration nor
creating one in the one changes what is loaded in the other. -/
theorem environments_isolated (f : Files) (a b : Environment) (home : Bytes)
    (hhome : f.isFolder home = true) (ha : a.home = some home) (hb : b.home = some home)
    (hna : Path.Ordinary a.name) (hnb : Path.Ordinary b.name) (hne : a.name ≠ b.name) :
    Config.path a ≠ Config.path b ∧
    (∀ c : Config, Config.load (c.save f (Config.path a)).1 b = Config.load f b) ∧
    ∀ s : Start, s.files = f → s.environment = a →
      Config.load (run s.creating).files b = Config.load f b := by
  have hsaved := Config.load_isolated hhome ha hb hna hnb hne
  refine ⟨?_, hsaved, ?_⟩
  · intro hpath
    rw [Config.path_eq_pathIn, Config.path_eq_pathIn, Config.homePath_eq (ha.trans hb.symm)] at hpath
    exact hne (Config.pathIn_injective (Config.homePath_cases hhome hb).1 hna hnb hpath)
  · rintro s rfl rfl
    rw [files_creating]
    split
    · exact hsaved {}
    · rfl

/-- Two environments with one home folder, the second one without a name. -/
def work : Environment where
  home := some (word "home")
  profile := some (word "work")

def unnamed : Environment where
  home := some (word "home")

/-- Their home folder, with nothing in it. -/
def homeOnly : Files where
  root := .folder [(word "home", .folder [])]
  here := []

def startAtWork : Start where
  arguments := []
  environment := work
  files := homeOnly

theorem environments_isolated_work :
    Config.path work ≠ Config.path unnamed ∧
    Config.load (Config.save {} homeOnly (Config.path work)).1 unnamed =
      Config.load homeOnly unnamed ∧
    Config.load (run startAtWork.creating).files unnamed = Config.load homeOnly unnamed := by
  have hwork : work.name = word "work" := by
    simp only [work, Environment.name, Environment.pathOr, Environment.text?, word,
      Option.bind_some, Utf8.decode?_encode, Option.getD_some]
  obtain ⟨hpath, hsaved, hcreated⟩ := environments_isolated homeOnly work unnamed (word "home")
    (by decide) rfl rfl (by rw [hwork]; constructor <;> decide) (by constructor <;> decide)
    (by rw [hwork]; decide)
  exact ⟨hpath, hsaved {}, hcreated startAtWork rfl rfl⟩

end Command
end Lox

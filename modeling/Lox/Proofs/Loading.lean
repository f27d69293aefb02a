import Lox.Proofs.ConfigLayout
import Lox.Proofs.Stretches

/-!
# A broken file leaves no trace

Loading takes the prompt and the format from one place: from the file if it can be read as a whole,
and else from the defaults, even if the file is at fault only at its end. A level in the environment
comes before any other, whatever became of the file; and nothing else depends on it.

Results:
* `loadFrom_eq_ok`: what a file is read as, so that only a file that exists is read.
* `load_cases`: the three ways in which loading can go.
* `load_all_or_nothing`: the configuration and the failure, for all files and all environments.
-/
namespace Lox
namespace Config

open Utf8 (encode)

variable {f : Files} {p : Path}

/-! ## The file -/

theorem loadFrom_eq_ok {c : Config} :
    loadFrom f p = .ok c ↔ ∃ text, f.read p = .ok (encode text) ∧ read (encode text) = .ok c := by
  constructor
  · intro h
    unfold loadFrom ofFile at h
    split at h
    · cases h
    rename_i bytes hread
    split at h
    · cases h
    rename_i text htext
    obtain rfl := Utf8.decode?_iff.1 htext
    split at h
    · cases h
    rename_i hc
    cases h
    exact ⟨text, hread, hc⟩
  · rintro ⟨text, hread, hc⟩
    simp only [loadFrom, hread, ofFile, Utf8.decode?_encode, hc]

/-- Only what exists is read. -/
theorem exists?_of_read {bytes : Bytes} (h : f.read p = .ok bytes) : f.exists? p = true := by
  unfold Files.read at h
  unfold Files.exists?
  split at h
  · cases h
  · cases h
  · rename_i hresolve
    rw [hresolve]

theorem exists?_of_loadFrom {c : Config} (h : loadFrom f p = .ok c) : f.exists? p = true := by
  obtain ⟨text, hread, -⟩ := loadFrom_eq_ok.1 h
  exact exists?_of_read hread

/-! ## The environment -/

/-- The level of the environment, or else that of a configuration. -/
def withLevel (e : Environment) (c : Config) : Config :=
  { c with logLevel := (Environment.text? e.logLevel).getD c.logLevel }

variable {e : Environment}

theorem load_missing (h : f.exists? (path e) = false) : load f e = (withLevel e {}, none) := by
  simp [load, h, effective, withLevel]

theorem load_ok {c : Config} (h : loadFrom f (path e) = .ok c) :
    load f e = (withLevel e c, none) := by
  simp [load, exists?_of_loadFrom h, h, effective, withLevel]

theorem load_error {failure : ConfigFailure} (hexists : f.exists? (path e) = true)
    (h : loadFrom f (path e) = .error failure) : load f e = (withLevel e {}, some failure) := by
  simp [load, hexists, h, effective, withLevel]

/-- Nothing is there, or it is read, or it is at fault. -/
theorem load_cases (f : Files) (e : Environment) :
    (f.exists? (path e) = false ∧ (∀ c, loadFrom f (path e) ≠ .ok c) ∧
      load f e = (withLevel e {}, none)) ∨
    (∃ c, loadFrom f (path e) = .ok c ∧ load f e = (withLevel e c, none)) ∨
    ∃ failure, f.exists? (path e) = true ∧ loadFrom f (path e) = .error failure ∧
      load f e = (withLevel e {}, some failure) := by
  cases hexists : f.exists? (path e) with
  | false =>
    refine .inl ⟨rfl, fun c hc => ?_, load_missing hexists⟩
    rw [exists?_of_loadFrom hc] at hexists
    cases hexists
  | true =>
    cases hload : loadFrom f (path e) with
    | ok c => exact .inr (.inl ⟨c, rfl, load_ok hload⟩)
    | error failure => exact .inr (.inr ⟨failure, rfl, rfl, load_error hexists hload⟩)

/-- Another level in the environment leaves everything else as it is. -/
theorem load_relevel (f : Files) (e : Environment) (level : Option Bytes) :
    ∃ c failure, load f e = (withLevel e c, failure) ∧
      load f { e with logLevel := level } = (withLevel { e with logLevel := level } c, failure) := by
  have hpath : path { e with logLevel := level } = path e := rfl
  rcases load_cases f e with ⟨hmissing, -, hload⟩ | ⟨c, hfile, hload⟩ | ⟨x, hexists, hfile, hload⟩
  · exact ⟨_, _, hload, load_missing (hpath ▸ hmissing)⟩
  · exact ⟨_, _, hload, load_ok (hpath ▸ hfile)⟩
  · exact ⟨_, _, hload, load_error (hpath ▸ hexists) (hpath ▸ hfile)⟩

theorem load_failure_iff (f : Files) (e : Environment) (failure : ConfigFailure) :
    (load f e).2 = some failure ↔
      f.exists? (path e) = true ∧ loadFrom f (path e) = .error failure := by
  rcases load_cases f e with ⟨hmissing, -, hload⟩ | ⟨c, hfile, hload⟩ | ⟨x, hexists, hfile, hload⟩
  · simp [hload, hmissing]
  · simp [hload, hfile]
  · simp [hload, hfile, hexists]

/-- **All or nothing**: there is a failure exactly if the path exists and reading the file fails,
and it is that failure. Prompt and format are those of the file where it is read, and else the
defaults. The level is that of the environment where it has one, and else it goes by the same rule.
Nothing but the level depends on the level of the environment. -/
theorem load_all_or_nothing (f : Files) (e : Environment) :
    (∀ failure, (load f e).2 = some failure ↔
      f.exists? (path e) = true ∧ loadFrom f (path e) = .error failure) ∧
    (∀ c, loadFrom f (path e) = .ok c →
      (load f e).1 = { c with logLevel := (Environment.text? e.logLevel).getD c.logLevel }) ∧
    ((∀ c, loadFrom f (path e) ≠ .ok c) →
      (load f e).1 =
        { logLevel := (Environment.text? e.logLevel).getD ({} : Config).logLevel }) ∧
    ∀ level, (load f { e with logLevel := level }).2 = (load f e).2 ∧
      (load f { e with logLevel := level }).1 =
        { (load f e).1 with logLevel := (load f { e with logLevel := level }).1.logLevel } := by
  refine ⟨load_failure_iff f e, ?_, ?_, ?_⟩
  · intro c hfile
    rw [load_ok hfile, withLevel]
  · intro hnone
    rcases load_cases f e with ⟨-, -, hload⟩ | ⟨c, hfile, -⟩ | ⟨x, -, -, hload⟩
    · rw [hload, withLevel]
    · exact absurd hfile (hnone c)
    · rw [hload, withLevel]
  · intro level
    obtain ⟨c, failure, hload, hload'⟩ := load_relevel f e level
    rw [hload, hload']
    exact ⟨rfl, rfl⟩

/-- An environment with a level. -/
def verbose : Environment where
  logLevel := some (Command.word "debug")

/-- A file that is at fault at its last member leaves the default prompt, one that is read gives its
own; and with either the level is that of the environment. -/
theorem load_all_or_nothing_broken :
    (∃ failure,
      loadFrom (Command.atDefault (encode promptTwice.text)) (path verbose) = .error failure ∧
      load (Command.atDefault (encode promptTwice.text)) verbose =
        ({ logLevel := "debug".toList }, some failure)) ∧
    loadFrom (Command.atDefault (encode smiling.write)) (path verbose) = .ok smiling ∧
    (load (Command.atDefault (encode smiling.write)) verbose).1 =
      { smiling with logLevel := "debug".toList } := by
  have hlevel : Environment.text? verbose.logLevel = some "debug".toList :=
    Utf8.decode?_encode _
  have hexists (content : Bytes) :
      (Command.atDefault content).exists? (path verbose) = true := rfl
  have hread (content : Bytes) : (Command.atDefault content).read (path verbose) = .ok content := rfl
  -- The prompt is given twice.
  have htwice (c : Config) :
      loadFrom (Command.atDefault (encode promptTwice.text)) (path verbose) ≠ .ok c := by
    intro h
    obtain ⟨text, htext, hc⟩ := loadFrom_eq_ok.1 h
    rw [hread] at htext
    rw [← Except.ok.inj htext] at hc
    exact absurd (read_nodup promptTwice_wellFormed hc) (by decide)
  have hwritten : loadFrom (Command.atDefault (encode smiling.write)) (path verbose) = .ok smiling := by
    have hfile := ofFile_write smiling (List.forall_mem_nil _) (path verbose)
    rwa [List.append_nil, ← hread] at hfile
  obtain ⟨hfailure, -, hbroken, -⟩ :=
    load_all_or_nothing (Command.atDefault (encode promptTwice.text)) verbose
  obtain ⟨-, hfile, -, -⟩ := load_all_or_nothing (Command.atDefault (encode smiling.write)) verbose
  have hsmiling := hfile smiling hwritten
  have hdefault := hbroken htwice
  rw [hlevel] at hsmiling hdefault
  refine ⟨?_, hwritten, hsmiling⟩
  cases hfault : loadFrom (Command.atDefault (encode promptTwice.text)) (path verbose) with
  | ok c => exact absurd hfault (htwice c)
  | error failure =>
    exact ⟨failure, rfl, Prod.ext hdefault ((hfailure failure).2 ⟨hexists _, hfault⟩)⟩

end Config
end Lox

import Lox.Proofs.ConfigText
import Lox.Proofs.Modes
import Lox.Proofs.Prompt
import Lox.Proofs.Recovery
import Lox.Proofs.Stretches

/-!
# The outcome of a script

A script is a file of any bytes. It is read leniently, scanned as a whole and echoed as a whole, and
its diagnostics decide about the exit code. A stretch of bytes that is no UTF-8 stands as one
character in the text that is scanned, so it is reported where it stands in code, and is part of the
text of a string or of a comment otherwise.

Results:
* `walk_append`, `mem_strays_iff`: the machine of three modes along two texts, and the places where
  it meets a stray character.
* `diagnostics_of_outside`: a stray character outside of strings and comments leaves a diagnostic.
* `script_read`, `run_scanning`: what a session does with a script, and a run with a session.
* `script_outcome`: output, diagnostics and exit code for a script of any bytes.
-/
namespace Lox
namespace Modes

/-! ## Where the machine is in code -/

/-- Walking over two texts is walking over the one and then over the other, in the mode that the
first ends in. In code a slash at the end of the first would go together with one behind it. -/
theorem walk_append {m : Mode} {o : Nat} {as bs : List Char}
    (h : (walk m o as).mode = .code → Breaks (· == '/') bs) :
    walk m o (as ++ bs) =
      ⟨(walk m o as).strays ++ (walk (walk m o as).mode (o + as.length) bs).strays,
        (walk (walk m o as).mode (o + as.length) bs).mode⟩ := by
  have hlen (o : Nat) (c : Char) (cs : List Char) : o + (c :: cs).length = o + 1 + cs.length := by
    simp only [List.length_cons]
    omega
  fun_induction walk m o as with
  | case1 m o => rfl
  | case2 o as ih =>
    rw [List.cons_append, List.cons_append, walk, ih h, hlen, hlen]
  | case3 o as hslash ih =>
    rw [List.cons_append, walk_quote, ih h, hlen]
  | case4 o c as hslash hq hk ih =>
    have hbreaks : c = '/' → Breaks (· == '/') (as ++ bs) := by
      intro hc
      cases as with
      | nil => exact h rfl
      | cons d ds => exact breaks_longer (List.cons_ne_nil d ds) (breaks_of_slash hslash hc) bs
    rw [List.cons_append, walk_known hk hq hbreaks, ih h, hlen]
  | case5 o c as hslash hq hk ih =>
    have hbreaks : c = '/' → Breaks (· == '/') (as ++ bs) := by
      rintro rfl
      exact absurd (by decide) hk
    rw [List.cons_append, walk_code_cons hbreaks, if_neg hq, if_neg hk, ih h, hlen]
    rfl
  | case6 o c as ih =>
    rw [List.cons_append, walk, ih h, hlen]
  | case7 o c as ih =>
    rw [List.cons_append, walk, ih h, hlen]

theorem strays_between {m : Mode} {o : Nat} {cs : List Char} :
    ∀ x ∈ (walk m o cs).strays, o ≤ x.1 ∧ x.1 < o + cs.length := by
  fun_induction walk m o cs <;> grind

/-- A character that starts nothing is met exactly where the machine is in code. -/
theorem mem_strays_iff {before after : List Char} {c : Char} (hc : Piece.isStray c = true) :
    (before.length, c) ∈ (walk .code 0 (before ++ c :: after)).strays ↔
      (walk .code 0 before).mode = .code := by
  have hslash : Breaks (· == '/') (c :: after) :=
    breaks_cons.2 (beq_eq_false_iff_ne.2 (ne_of_test hc (by decide)))
  have hbefore : (before.length, c) ∉ (walk .code 0 before).strays := by
    intro hm
    have := (strays_between _ hm).2
    simp at this
  have hafter (m : Mode) : (before.length, c) ∉ (walk m (before.length + 1) after).strays := by
    intro hm
    exact Nat.not_succ_le_self _ (strays_between _ hm).1
  rw [walk_append fun _ => hslash, List.mem_append, Nat.zero_add]
  cases (walk .code 0 before).mode with
  | code => simp [walk_stray hc]
  | comment => simp [walk, hbefore, hafter]
  | string => simp [walk, hbefore, hafter]

/-- The mode that the machine is in when it comes to an offset. -/
def modeAt (source : List Char) (o : Nat) : Mode := (walk .code 0 (source.take o)).mode

/-- An offset that is in no comment and in no string; a string that is never closed is none. -/
def Outside (source : List Char) (o : Nat) : Prop :=
  match modeAt source o with
  | .code => True
  | .comment => False
  | .string => '"' ∉ source.drop o

/-- A character that starts nothing is reported exactly where the machine is in code. -/
theorem reported_iff_code {source : List Char} {o : Nat} {c : Char} (ho : source[o]? = some c)
    (hc : Piece.isStray c = true) :
    ⟨placeAt source o, .unexpected c⟩ ∈ (scan source).diagnostics ↔ modeAt source o = .code := by
  obtain ⟨hlt, rfl⟩ := List.getElem?_eq_some_iff.1 ho
  have hsplit : source = source.take o ++ source[o] :: source.drop (o + 1) := by simp
  have hlen : (source.take o).length = o := by simp; omega
  have hmem := @mem_strays_iff (source.take o) (source.drop (o + 1)) _ hc
  rw [← hsplit, hlen] at hmem
  rw [modeAt, ← hmem, diagnostics_eq_told, told, List.mem_append]
  constructor
  · rintro (hm | hm)
    · obtain ⟨⟨o', d⟩, hx, he⟩ := List.mem_map.1 hm
      simp only [Diagnostic.mk.injEq, Problem.unexpected.injEq] at he
      obtain ⟨hplace, rfl⟩ := he
      have hbound := strays_between _ hx
      obtain rfl : o' = o := placeAt_injective (by omega) (by omega) hplace
      exact hx
    · split at hm
      · simp at hm
      · cases hm
  · intro hm
    exact .inl (List.mem_map.2 ⟨_, hm, rfl⟩)

/-- Where a character that starts nothing is outside, something is reported. -/
theorem diagnostics_of_outside {source : List Char} {o : Nat} {c : Char} (ho : source[o]? = some c)
    (hc : Piece.isStray c = true) (h : Outside source o) : (scan source).diagnostics ≠ [] := by
  unfold Outside at h
  split at h
  · rename_i hmode
    exact List.ne_nil_of_mem ((reported_iff_code ho hc).2 hmode)
  · exact h.elim
  · rename_i hmode
    -- the string that is open there is open at the end too
    have hopen : (walk .string o (source.drop o)).mode = .string := by
      have hkeep := @walk_string o _ [] h
      rw [List.append_nil] at hkeep
      rw [hkeep]
      rfl
    have hend : (walk .code 0 source).mode = .string := by
      obtain ⟨hlt, -⟩ := List.getElem?_eq_some_iff.1 ho
      have hlen : (source.take o).length = o := by simp; omega
      rw [modeAt] at hmode
      rw [← List.take_append_drop o source, walk_append (by simp [hmode]), hmode, hlen, Nat.zero_add]
      exact hopen
    rw [diagnostics_eq_told, ne_eq, told_eq_nil_iff]
    exact fun hnil => hnil.2 hend

end Modes

namespace Command

open Modes (modeAt Outside)

/-! ## Sessions -/

/-- The lines of a list of diagnostics. -/
def reportLines (ds : List Diagnostic) : List Char := ds.flatMap (·.message ++ ['\n'])

/-- What the log is told about a script that is scanned. -/
def Session.scriptLog (s : Session) (path : Path) (source : List Char) : List Char :=
  s.log.write (.scanning path (Utf8.encode source).length) ++ s.logged (scan source)

theorem script_read {s : Session} (hs : s.output = .working) (path : Path) (bytes : Bytes) :
    s.script path (.ok bytes) =
      (⟨s.format.echo (scan (Utf8.decode bytes)).tokens,
        s.scriptLog path (Utf8.decode bytes) ++ reportLines (scan (Utf8.decode bytes)).diagnostics⟩,
        if (scan (Utf8.decode bytes)).diagnostics = [] then .done
        else .failed (.scan (scan (Utf8.decode bytes)).diagnostics.length)) :=
  script_bytes hs path bytes

/-- A run that is asked to scan a script, or its input, and the session that it opens for that. The
log of the session is set up from the level of the configuration, so there is no session for a level
that no log can be set up with: such a run is broken off before (`run_unlogged`). -/
structure Start.Opens (s : Start) (script : Option Path) (session : Session) : Prop where
  request : ∃ format, Request.ofArguments? s.arguments = some (.task (.scan script format)) ∧
    session.format = format.getD s.config.format
  log : Log.Filter.ofText? s.config.logLevel = some session.log
  prompt : session.prompt = s.config.prompt
  output : session.output = s.output

/-- What the session of a run makes of the script, or of the input. -/
def Start.scanned (s : Start) (script : Option Path) (session : Session) : Transcript × Ending :=
  match script with
  | some path => session.script path (s.files.read path)
  | none => session.prompted (Session.lines s.input)

/-- What a run does is what its session does, behind a warning about the configuration. -/
theorem run_opens {s : Start} {script : Option Path} {session : Session}
    (h : s.Opens script session) :
    run s =
      { exitCode := (s.scanned script session).2.exitCode
        output := (s.scanned script session).1.output
        errors := loadWarning session.log (Config.load s.files s.environment).2 ++
          (s.scanned script session).1.errors ++ (s.scanned script session).2.lines
        files := s.files } := by
  obtain ⟨⟨format, hrequest, hformat⟩, hlog, hprompt, houtput⟩ := h
  obtain ⟨prompt, format', log, output⟩ := session
  subst hformat hprompt houtput
  cases script with
  | some path => exact run_logged hrequest hlog rfl
  | none => exact run_logged hrequest hlog rfl

/-! ## Any bytes -/

/-- An ill-formed stretch is one character of the text. -/
theorem getElem?_illFormed {bytes : Bytes} {o : Nat} {stretch : Utf8.Stretch}
    (h : (Utf8.stretches bytes)[o]? = some stretch) (hnone : stretch.char? = none) :
    (Utf8.decode bytes)[o]? = some '\uFFFD' := by
  rw [Utf8.decode_eq, List.getElem?_map, h, Option.map_some, Utf8.Stretch.read, hnone]
  rfl

/-- **The outcome of a script**, whatever its bytes are. All tokens of the text are echoed, to its
end; then the diagnostics are told line by line, and they decide about the exit code. The text has
the line feeds of the file. A stretch of bytes that is no UTF-8 is reported exactly if it is in code,
and the exit code tells of it if it is in no string and in no comment. A run that scans the script,
and can set up its log (`Start.Opens`), has this outcome, behind a warning about its configuration if
there is one, and changes no file. -/
theorem script_outcome (bytes : Bytes) (path : Path) {session : Session}
    (hworking : session.output = .working) :
    let source := Utf8.decode bytes
    let scanned := scan source
    let outcome := session.script path (.ok bytes)
    outcome.1.output = session.format.echo (scanned.words ++ [Token.endOfText scanned.stop]) ∧
      outcome.1.errors = session.scriptLog path source ++ reportLines scanned.diagnostics ∧
      outcome.2.lines = [] ∧
      outcome.2.exitCode = (if scanned.diagnostics = [] then 0 else 65) ∧
      scanned.stop.line = 1 + bytes.count (Utf8.ascii '\n') ∧
      (∀ o stretch, (Utf8.stretches bytes)[o]? = some stretch → stretch.char? = none →
        (⟨placeAt source o, .unexpected '\uFFFD'⟩ ∈ scanned.diagnostics ↔ modeAt source o = .code) ∧
        (Outside source o → outcome.2.exitCode = 65)) ∧
      ∀ s : Start, s.Opens (some path) session → s.files.read path = .ok bytes →
        (run s).output = outcome.1.output ∧
        (run s).errors = loadWarning session.log (Config.load s.files s.environment).2 ++
          outcome.1.errors ∧
        (run s).exitCode = outcome.2.exitCode ∧ (run s).files = s.files := by
  intro source scanned outcome
  have hstray : Piece.isStray '\uFFFD' = true := by decide
  have houtcome : outcome = _ := script_read hworking path bytes
  have hlines : outcome.2.lines = [] := by
    rw [houtcome]
    dsimp only
    split <;> rfl
  have hcode : outcome.2.exitCode = if scanned.diagnostics = [] then 0 else 65 := by
    rw [houtcome]
    exact apply_ite Ending.exitCode _ _ _
  refine ⟨?_, ?_, hlines, hcode, ?_, ?_, ?_⟩
  · rw [houtcome, ← tokens_scan]
  · rw [houtcome]
  · rw [stop_scan, Position.after_line, Utf8.count_decode (by decide)]
  · intro o stretch h hnone
    have ho := getElem?_illFormed h hnone
    refine ⟨Modes.reported_iff_code ho hstray, ?_⟩
    intro houtside
    rw [hcode, if_neg (Modes.diagnostics_of_outside ho hstray houtside)]
  · intro s hs hread
    have hsession : s.scanned (some path) session = outcome := by rw [Start.scanned, hread]
    rw [run_opens hs, hsession]
    refine ⟨rfl, ?_, rfl, rfl⟩
    show _ ++ outcome.1.errors ++ outcome.2.lines = _
    rw [hlines, List.append_nil]

/-- A byte that is no UTF-8 in code, and the start of a character that is cut off in a string. -/
theorem script_outcome_illFormed :
    let bytes : Bytes := [0x31, 0xFF, 0x0A, 0x22, 0xE2, 0x82, 0x22]
    let session : Session := ⟨"> ".toList, .text, Log.Filter.upTo .warn, .working⟩
    let outcome := session.script (word "a.lox") (.ok bytes)
    session.output = .working ∧ Utf8.decode bytes = "1\uFFFD\n\"\uFFFD\"".toList ∧
      outcome.1.output = "NUMBER 1 1.0\nSTRING \"\uFFFD\" \uFFFD\nEOF  null\n".toList ∧
      outcome.1.errors = "[line 1] Error: Unexpected character.\n".toList ∧
      outcome.2.exitCode = 65 := by
  intro bytes session outcome
  have hbytes : Utf8.decode bytes = "1\uFFFD\n\"\uFFFD\"".toList := by decide +kernel
  obtain ⟨houtput, herrors, -, hcode, -⟩ := @script_outcome bytes (word "a.lox") session rfl
  rw [hbytes] at houtput herrors hcode
  refine ⟨rfl, hbytes, houtput.trans ?_, herrors.trans ?_, hcode.trans ?_⟩
  · decide +kernel
  · decide +kernel
  · decide +kernel

end Command
end Lox

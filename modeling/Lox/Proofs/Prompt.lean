import Mathlib.Data.List.DropRight
import Lox.Command.Session
import Lox.Proofs.Ascii
import Lox.Proofs.LineEnd

/-!
# The prompt and scripts

A script is scanned as a whole. At the prompt the same text is taken line by line, and each line is
scanned on its own, without the carriage returns and the line feed at its end. Where no string goes
over a line end the two come to the same, but for the lines that things are reported at: at the
prompt every line is the first.

Results:
* `lines_line`, `line_induction`: an input is its lines one after the other.
* `prompted_append`, `prompted_working`: what a session at the prompt writes, told by the scans of
  its lines.
* `typed_findings`: these scans find what the scan of the whole text finds.
* `prompt_agrees_script`: the prompt and a script give the same tokens and the same diagnostics.
-/
namespace Lox

/-! ## Everything on the first line -/

def Position.onFirstLine (p : Position) : Position := { p with line := 1 }

def Token.onFirstLine (t : Token) : Token := { t with start := t.start.onFirstLine }

def Diagnostic.onFirstLine (d : Diagnostic) : Diagnostic := { d with place := d.place.onFirstLine }

def Finding.onFirstLine : Finding → Finding
  | token t => token t.onFirstLine
  | problem d => problem d.onFirstLine

theorem onFirstLine_down (k : Nat) (f : Finding) : (f.down k).onFirstLine = f.onFirstLine := by
  cases f <;> rfl

theorem onFirstLine_eq {p : Position} (h : p.line = 1) : p.onFirstLine = p := by
  cases p
  cases h
  rfl

theorem line_after {p : Position} {cs : List Char} (hp : p.line = 1) (h : '\n' ∉ cs) :
    (p.after cs).line = 1 := by
  rw [Position.after_line, hp, List.count_eq_zero.2 h]

/-- In a text without line feeds everything is on the first line. -/
theorem findings_onFirstLine {p : Position} {qs : List Piece} (hp : p.line = 1)
    (h : '\n' ∉ qs.flatMap Piece.text) :
    (findings p qs).map Finding.onFirstLine = findings p qs := by
  induction qs generalizing p with
  | nil => rfl
  | cons q qs ih =>
    rw [List.flatMap_cons, List.mem_append, not_or] at h
    have hafter := line_after hp h.1
    have hstart := onFirstLine_eq hp
    have hend := onFirstLine_eq hafter
    rw [findings, List.map_append, ih hafter h.2]
    congr 1
    cases q <;>
      simp [Piece.finding?, Finding.onFirstLine, Token.onFirstLine, Diagnostic.onFirstLine, hstart,
        hend]

theorem tokens_onFirstLine (fs : List Finding) :
    (fs.map Finding.onFirstLine).filterMap Finding.token? =
      (fs.filterMap Finding.token?).map Token.onFirstLine :=
  filterMap_moved (fun f => by cases f <;> rfl) fs

theorem diagnostics_onFirstLine (fs : List Finding) :
    (fs.map Finding.onFirstLine).filterMap Finding.diagnostic? =
      (fs.filterMap Finding.diagnostic?).map Diagnostic.onFirstLine :=
  filterMap_moved (fun f => by cases f <;> rfl) fs

namespace Command

open Utf8 (ascii encode)

/-! ## Lines -/

theorem lines_line {bs : Bytes} (h : ascii '\n' ∉ bs) (rest : Bytes) :
    Session.lines (bs ++ ascii '\n' :: rest) = (bs ++ [ascii '\n']) :: Session.lines rest := by
  induction bs with
  | nil => rw [List.nil_append, Session.lines, if_pos rfl]; rfl
  | cons b bs ih =>
    obtain ⟨hb, hbs⟩ := not_or.1 (mt List.mem_cons.2 h)
    rw [List.cons_append, Session.lines, if_neg (Ne.symm hb), ih hbs]
    rfl

theorem lines_last {bs : Bytes} (hne : bs ≠ []) (h : ascii '\n' ∉ bs) :
    Session.lines bs = [bs] := by
  induction bs with
  | nil => exact absurd rfl hne
  | cons b bs ih =>
    obtain ⟨hb, hbs⟩ := not_or.1 (mt List.mem_cons.2 h)
    rw [Session.lines, if_neg (Ne.symm hb)]
    cases bs with
    | nil => rfl
    | cons d ds => rw [ih (List.cons_ne_nil d ds) hbs]

/-- A text is empty, or one line without an end, or a line with its end before another text. -/
theorem line_induction {motive : List Char → Prop} (nil : motive [])
    (last : ∀ a, a ≠ [] → '\n' ∉ a → motive a)
    (line : ∀ a b, '\n' ∉ a → motive b → motive (a ++ '\n' :: b)) (source : List Char) :
    motive source := by
  induction h : source.length using Nat.strongRecOn generalizing source with
  | ind n ih =>
    by_cases hm : '\n' ∈ source
    · obtain ⟨a, b, rfl, ha⟩ := List.eq_append_cons_of_mem hm
      refine line a b ha (ih b.length ?_ b rfl)
      rw [← h, List.length_append, List.length_cons]
      omega
    · by_cases hne : source = []
      · rw [hne]
        exact nil
      · exact last source hne hm

theorem line_feed_mem_encode {cs : List Char} : ascii '\n' ∈ encode cs ↔ '\n' ∈ cs :=
  Utf8.ascii_mem_encode (by decide)

theorem lines_encode_last {a : List Char} (hne : a ≠ []) (ha : '\n' ∉ a) :
    Session.lines (encode a) = [encode a] := by
  refine lines_last ?_ (mt line_feed_mem_encode.1 ha)
  intro he
  exact hne (by rw [← Utf8.decode_encode a, he, Utf8.decode_nil])

theorem lines_encode_line {a : List Char} (ha : '\n' ∉ a) (b : List Char) :
    Session.lines (encode (a ++ '\n' :: b)) =
      encode (a ++ ['\n']) :: Session.lines (encode b) := by
  have hfeed : String.utf8EncodeChar '\n' = [ascii '\n'] := rfl
  rw [Utf8.encode_append, Utf8.encode_append, Utf8.encode_cons, hfeed, List.singleton_append,
    lines_line (mt line_feed_mem_encode.1 ha)]
  rfl

/-- The lines of a text are texts. -/
theorem lines_encode (source : List Char) :
    ∀ line ∈ Session.lines (encode source), ∃ text, line = encode text := by
  induction source using line_induction with
  | nil => intro line hl; cases hl
  | last a hne ha =>
    rw [lines_encode_last hne ha]
    exact List.forall_mem_singleton.2 ⟨a, rfl⟩
  | line a b ha ih =>
    rw [lines_encode_line ha]
    exact List.forall_mem_cons.2 ⟨⟨a ++ ['\n'], rfl⟩, ih⟩

/-! ## The ends of lines -/

theorem trimEnd_line (a : List Char) : Session.trimEnd (a ++ ['\n']) = Session.trimEnd a :=
  List.rdropWhile_concat_pos _ a '\n' rfl

/-- What is trimmed off. -/
theorem trimEnd_append (a : List Char) :
    ∃ cs, Session.trimEnd a ++ cs = a ∧ ∀ c ∈ cs, c = '\n' ∨ c = '\r' := by
  refine ⟨a.rtakeWhile fun c => c == '\n' || c == '\r', List.rdropWhile_append_rtakeWhile .., ?_⟩
  intro c hc
  simpa using List.mem_rtakeWhile_imp hc

/-- The end of a line gives nothing. -/
theorem findings_trimEnd {a : List Char} (ha : '\n' ∉ a) (h : (scan a).Closed) :
    (scan (Session.trimEnd a)).findings = (scan a).findings := by
  obtain ⟨cs, he, hcs⟩ := trimEnd_append a
  have hreturns : ∀ c ∈ cs, Piece.isBlank c = true ∧ c ≠ '\n' := by
    intro c hc
    have hline : c ≠ '\n' := by
      rintro rfl
      exact ha (he ▸ List.mem_append_right _ hc)
    rcases hcs c hc with rfl | rfl
    · exact absurd rfl hline
    · exact ⟨rfl, hline⟩
  rw [← he] at h
  rw [← findings_trailing h hreturns, he]

/-! ## The scans of a session -/

/-- The scans of the lines of an input, as the prompt takes them. -/
def typed (input : Bytes) : List Scan :=
  (Session.lines input).map fun line => scan (Session.trimEnd (Utf8.decode line))

theorem typed_last {a : List Char} (hne : a ≠ []) (ha : '\n' ∉ a) :
    typed (encode a) = [scan (Session.trimEnd a)] := by
  rw [typed, lines_encode_last hne ha, List.map_singleton, Utf8.decode_encode]

theorem typed_line {a : List Char} (ha : '\n' ∉ a) (b : List Char) :
    typed (encode (a ++ '\n' :: b)) = scan (Session.trimEnd a) :: typed (encode b) := by
  rw [typed, lines_encode_line ha, List.map_cons, Utf8.decode_encode, trimEnd_line]
  rfl

theorem scan_onFirstLine {a : List Char} (ha : '\n' ∉ a) :
    (scan a).findings.map Finding.onFirstLine = (scan a).findings :=
  findings_onFirstLine rfl (by rwa [pieces_text])

/-- The scans of the lines find what the scan of the whole text finds. -/
theorem typed_findings {source : List Char}
    (h : ∀ line ∈ source.splitOn '\n', (scan line).Closed) :
    (typed (encode source)).flatMap Scan.findings =
      (scan source).findings.map Finding.onFirstLine := by
  induction source using line_induction with
  | nil => simp [typed, Session.lines, scan, findings]
  | last a hne ha =>
    rw [List.splitOn_eq_singleton ha] at h
    have hclosed := h a (List.mem_singleton_self a)
    rw [typed_last hne ha, scan_onFirstLine ha, ← findings_trimEnd ha hclosed]
    exact List.flatMap_singleton ..
  | line a b ha ih =>
    rw [List.splitOn_append_cons_self_of_not_mem ha] at h
    obtain ⟨hclosed, htail⟩ := List.forall_mem_cons.1 h
    have hdown : Finding.onFirstLine ∘ Finding.down (1 + a.count '\n') = Finding.onFirstLine :=
      funext fun f => onFirstLine_down _ f
    rw [typed_line ha, List.flatMap_cons, ih htail, findings_trimEnd ha hclosed,
      findings_line hclosed, List.map_append, List.map_map, hdown, scan_onFirstLine ha]

/-- Every line at the prompt is the first. -/
theorem typed_stop (source : List Char) : ∀ x ∈ typed (encode source), x.stop.line = 1 := by
  have htrim : ∀ a : List Char, '\n' ∉ a → (scan (Session.trimEnd a)).stop.line = 1 := by
    intro a ha
    obtain ⟨cs, he, -⟩ := trimEnd_append a
    exact line_after rfl fun hm => ha (he ▸ List.mem_append_left cs hm)
  induction source using line_induction with
  | nil => intro x hx; cases hx
  | last a hne ha =>
    rw [typed_last hne ha]
    exact List.forall_mem_singleton.2 (htrim a ha)
  | line a b ha ih =>
    rw [typed_line ha]
    exact List.forall_mem_cons.2 ⟨htrim a ha, ih⟩

theorem typed_words {source : List Char}
    (h : ∀ line ∈ source.splitOn '\n', (scan line).Closed) :
    (typed (encode source)).flatMap Scan.words = (scan source).words.map Token.onFirstLine := by
  have hwords : (typed (encode source)).flatMap Scan.words =
      (typed (encode source)).flatMap fun x => x.findings.filterMap Finding.token? := by
    refine List.flatMap_congr ?_
    intro x hx
    obtain ⟨line, -, rfl⟩ := List.mem_map.1 hx
    exact words_scan _
  rw [hwords, ← List.filterMap_flatMap, typed_findings h, tokens_onFirstLine, words_scan]

theorem typed_diagnostics {source : List Char}
    (h : ∀ line ∈ source.splitOn '\n', (scan line).Closed) :
    (typed (encode source)).flatMap Scan.diagnostics =
      (scan source).diagnostics.map Diagnostic.onFirstLine := by
  rw [Scan.diagnostics, ← diagnostics_onFirstLine, ← typed_findings h, List.filterMap_flatMap]
  rfl

/-! ## What a session writes -/

/-- What is written about a line on the error output. -/
def Session.heard (s : Session) (x : Scan) : List Char :=
  x.findings.flatMap s.reported ++ s.log.write (.finished x) ++
    if x.diagnostics.length = 0 then [] else s.log.write (.badLine x.diagnostics.length)

/-- What is written at the prompt, told by the scans of the lines. -/
def Session.dialogue (s : Session) (xs : List Scan) : Transcript :=
  ⟨xs.flatMap (fun x => s.prompt ++ s.format.echo x.tokens) ++ s.prompt, xs.flatMap s.heard⟩

theorem Transcript.append_eq (a b : Transcript) :
    a ++ b = ⟨a.output ++ b.output, a.errors ++ b.errors⟩ := rfl

theorem answer_working {s : Session} (hs : s.output = .working) (text : List Char) :
    s.answer (encode text) =
      (⟨s.format.echo (scan (Session.trimEnd text)).tokens,
        s.heard (scan (Session.trimEnd text))⟩, .done) := by
  rw [Session.answer, Utf8.decode?_encode]
  simp only [Session.echo, hs]
  rfl

/-- What is written for the lines that are answered, told by their scans. -/
def Session.answered (s : Session) (xs : List Scan) : Transcript :=
  ⟨xs.flatMap fun x => s.prompt ++ s.format.echo x.tokens, xs.flatMap s.heard⟩

theorem dialogue_eq (s : Session) (xs : List Scan) :
    s.dialogue xs = s.answered xs ++ ⟨s.prompt, []⟩ := by
  simp [Session.dialogue, Session.answered, Transcript.append_eq]

/-- The scan of a line, as the prompt takes it. -/
def scanLine (line : Bytes) : Scan := scan (Session.trimEnd (Utf8.decode line))

/-- Lines of text are answered one after the other, and then the session goes on. -/
theorem prompted_append {s : Session} (hs : s.output = .working) {ls : List Bytes}
    (h : ∀ line ∈ ls, ∃ text, line = encode text) (rest : List Bytes) :
    s.prompted (ls ++ rest) =
      (s.answered (ls.map scanLine) ++ (s.prompted rest).1, (s.prompted rest).2) := by
  have hshown : s.showPrompt = (⟨s.prompt, []⟩, .done) := by rw [Session.showPrompt, hs]
  induction ls with
  | nil => rfl
  | cons line ls ih =>
    obtain ⟨⟨text, rfl⟩, htail⟩ := List.forall_mem_cons.1 h
    rw [List.cons_append, Session.prompted, hshown, ih htail]
    simp only [answer_working hs, Transcript.append_eq, Session.answered, scanLine, List.map_cons,
      List.flatMap_cons, Utf8.decode_encode, List.append_assoc, List.nil_append]

/-- A session answers line after line, to the end of its input. -/
theorem prompted_working {s : Session} (hs : s.output = .working) {ls : List Bytes}
    (h : ∀ line ∈ ls, ∃ text, line = encode text) :
    s.prompted ls =
      (s.dialogue (ls.map fun line => scan (Session.trimEnd (Utf8.decode line))), .done) := by
  have hall := prompted_append hs h []
  rw [List.append_nil, Session.prompted, Session.showPrompt, hs] at hall
  rw [hall, dialogue_eq]
  rfl

/-! ## Agreement -/

/-- The line that a token is echoed on. -/
def echoLine (t : Token) : List Char := t.echo ++ ['\n']

theorem echo_scan (source : List Char) :
    Format.text.echo (scan source).tokens =
      (scan source).words.flatMap echoLine ++ "EOF  null\n".toList := by
  rw [tokens_scan]
  exact List.flatMap_append

theorem script_bytes {s : Session} (hs : s.output = .working) (path : Path) (bytes : Bytes) :
    let source := Utf8.decode bytes
    s.script path (.ok bytes) =
      (⟨s.format.echo (scan source).tokens,
        s.log.write (.scanning path (encode source).length) ++ s.logged (scan source) ++
          (scan source).diagnostics.flatMap (·.message ++ ['\n'])⟩,
        if (scan source).diagnostics = [] then .done
        else .failed (.scan (scan source).diagnostics.length)) := by
  rw [Session.script]
  simp only [Session.echo, hs]

theorem script_working {s : Session} (hs : s.output = .working) (path : Path)
    (source : List Char) :
    s.script path (.ok (encode source)) =
      (⟨s.format.echo (scan source).tokens,
        s.log.write (.scanning path (encode source).length) ++ s.logged (scan source) ++
          (scan source).diagnostics.flatMap (·.message ++ ['\n'])⟩,
        if (scan source).diagnostics = [] then .done
        else .failed (.scan (scan source).diagnostics.length)) := by
  have hbytes := script_bytes hs path (encode source)
  rwa [Utf8.decode_encode] at hbytes

/-- **The prompt and scripts.** A text that leaves no string open at the end of a line is scanned
the same at the prompt and as a script. What both write is told by their scans; the scans of the
lines find the tokens and the diagnostics of the whole text, all on the first line; and the echo as
text has the same lines, but for the prompts and for the ends of text. -/
theorem prompt_agrees_script {source : List Char}
    (h : ∀ line ∈ source.splitOn '\n', (scan line).Closed) {s : Session}
    (hs : s.output = .working) (path : Path) :
    let scans := typed (encode source)
    s.prompted (Session.lines (encode source)) = (s.dialogue scans, .done) ∧
      s.script path (.ok (encode source)) =
        (⟨s.format.echo (scan source).tokens,
          s.log.write (.scanning path (encode source).length) ++ s.logged (scan source) ++
            (scan source).diagnostics.flatMap (·.message ++ ['\n'])⟩,
          if (scan source).diagnostics = [] then .done
          else .failed (.scan (scan source).diagnostics.length)) ∧
      scans.flatMap Scan.words = (scan source).words.map Token.onFirstLine ∧
      scans.flatMap Scan.diagnostics = (scan source).diagnostics.map Diagnostic.onFirstLine ∧
      (∀ x ∈ scans, x.stop.line = 1) ∧
      (s.format = .text →
        (s.prompted (Session.lines (encode source))).1.output =
            scans.flatMap (fun x =>
              s.prompt ++ (x.words.flatMap echoLine ++ "EOF  null\n".toList)) ++ s.prompt ∧
          (s.script path (.ok (encode source))).1.output =
            scans.flatMap (fun x => x.words.flatMap echoLine) ++ "EOF  null\n".toList) := by
  have hprompted := prompted_working hs (lines_encode source)
  have hscript := script_working hs path source
  refine ⟨hprompted, hscript, typed_words h, typed_diagnostics h, typed_stop source, ?_⟩
  intro hformat
  constructor
  · rw [hprompted]
    simp only [Session.dialogue, hformat]
    congr 1
    refine List.flatMap_congr ?_
    intro x hx
    obtain ⟨line, -, rfl⟩ := List.mem_map.1 hx
    rw [echo_scan]
  · have hplace : (fun t : Token => echoLine t.onFirstLine) = echoLine := rfl
    rw [hscript]
    simp only [hformat]
    rw [echo_scan, ← List.flatMap_assoc, typed_words h, List.flatMap_map, hplace]

/-- A number before a point, a comment, a stray character and an empty line, with several kinds of
line ends and none at the end of the text. -/
theorem prompt_agrees_script_mixed :
    let source := "3.\r\n\n//\"\r\r\n#\"s\"".toList
    let s : Session := ⟨"> ".toList, .text, Log.Filter.upTo .info, .working⟩
    let scans := typed (encode source)
    (∀ line ∈ source.splitOn '\n', (scan line).Closed) ∧ s.output = .working ∧
      s.prompted (Session.lines (encode source)) = (s.dialogue scans, .done) ∧
      scans.flatMap Scan.words = (scan source).words.map Token.onFirstLine ∧
      scans.flatMap Scan.diagnostics = (scan source).diagnostics.map Diagnostic.onFirstLine ∧
      (s.script (encode "a.lox".toList) (.ok (encode source))).1.output =
        scans.flatMap (fun x => x.words.flatMap echoLine) ++ "EOF  null\n".toList := by
  intro source s scans
  have hclosed : ∀ line ∈ source.splitOn '\n', (scan line).Closed := by
    unfold Scan.Closed
    decide +kernel
  obtain ⟨hprompted, -, hwords, hdiagnostics, -, hecho⟩ :=
    prompt_agrees_script hclosed (s := s) rfl (encode "a.lox".toList)
  exact ⟨hclosed, rfl, hprompted, hwords, hdiagnostics, (hecho rfl).2⟩

end Command
end Lox

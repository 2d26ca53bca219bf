import Blockscript.Proofs.Reading.RelinedPrograms
import Blockscript.Proofs.Scanning.Layout
import Blockscript.Proofs.Sessions.Pieces

/-!
Sources of the same lexemes in another layout. They are read as the same program but for the
lines its tokens bear, so their runs do the same and report the same but for the lines told.
-/
namespace Blockscript

/-- The text without the digits of the first line it tells. -/
def eraseLine : List Char → List Char
  | '[' :: 'l' :: 'i' :: 'n' :: 'e' :: ' ' :: rest =>
    '[' :: 'l' :: 'i' :: 'n' :: 'e' :: ' ' :: rest.dropWhile Char.isDigit
  | c :: rest => c :: eraseLine rest
  | [] => []

def Report.unlined (r : Report) : Report :=
  { r with text := String.ofList (eraseLine r.text.toList) }

theorem eraseLine_reportText (severity : Severity) (line : Nat) (tail : String) :
    eraseLine (reportText severity ("[line " ++ toString line ++ "]" ++ tail)).toList =
      (reportText severity ("[line ]" ++ tail)).toList := by
  have digits : ∀ c ∈ Nat.toDigits 10 line, c.isDigit := fun c member =>
    Nat.isDigit_of_mem_toDigits (by decide) (by decide) member
  have ends : ∀ c ∈ (']' :: tail.toList).head?, c.isDigit = false := by simp
  have left := (takeWhile_run digits _ ends).2
  cases severity with
  | compile => simp [reportText, Severity.text, eraseLine, left]
  | runtime => simp [reportText, Severity.text, eraseLine, left]

theorem Error.message_line {e : Error} {line : Nat} (told : e.line? = some line) :
    ∃ tail, ∀ g : Nat → Nat,
      (e.relined g).message = "[line " ++ toString (g line) ++ "]" ++ tail := by
  have located : ∀ (t : Token) (what : String), ∃ tail, ∀ g : Nat → Nat,
      (t.relined g).location ++ what = "[line " ++ toString (g t.line) ++ "]" ++ tail := by
    intro t what
    refine ⟨(if t.isEnd then " at end" else " at '" ++ t.lexeme ++ "'") ++ what, fun g => ?_⟩
    rw [Token.location, String.append_assoc]
    rfl
  cases e with
  | lexical line fault =>
    cases told
    refine ⟨": " ++ fault.text, fun g => ?_⟩
    simp only [relined, message, String.append_assoc]
    rfl
  | grammar token fault =>
    cases told
    obtain ⟨tail, same⟩ := located token (": " ++ fault.text)
    refine ⟨tail, fun g => ?_⟩
    rw [← same, ← String.append_assoc]
    rfl
  | type operator fault =>
    cases told
    obtain ⟨tail, same⟩ := located operator (": TypeError: " ++ fault.text)
    refine ⟨tail, fun g => ?_⟩
    rw [← same, ← String.append_assoc]
    rfl
  | undefined name fault =>
    cases told
    obtain ⟨tail, same⟩ := located name (": UndefinedVariable: " ++ fault.text name.lexeme)
    refine ⟨tail, fun g => ?_⟩
    rw [← same, ← String.append_assoc]
    rfl
  | output fault => cases told

theorem Error.relined_id (e : Error) : e.relined id = e := by
  cases e <;> rfl

theorem Error.report_relined (g : Nat → Nat) (e : Error) :
    (e.relined g).report.unlined = e.report.unlined := by
  cases told : e.line? with
  | none =>
    have same : e.relined g = e := by
      cases e <;> first | rfl | cases told
    rw [same]
  | some line =>
    obtain ⟨tail, message⟩ := message_line told
    have own := message id
    rw [relined_id] at own
    have severity : (e.relined g).severity = e.severity := by
      cases e <;> rfl
    simp only [Report.unlined, report, severity, message, own, eraseLine_reportText]

theorem Error.isRuntime_relined (g : Nat → Nat) (e : Error) :
    (e.relined g).isRuntime = e.isRuntime := by
  cases e <;> rfl

def noLine : Nat → Nat := fun _ => 0

theorem Token.relined_of_face {ts ts' : List Token} (same : ts.map face = ts'.map face) :
    ts.map (relined noLine) = ts'.map (relined noLine) := by
  have rebuilt := congrArg (List.map fun f : Kind × String => Token.mk f.1 f.2 0) same
  rw [List.map_map, List.map_map] at rebuilt
  exact rebuilt

structure Diagnostics.SameButLines (d d' : Diagnostics) : Prop where
  hadError : d'.hadError = d.hadError
  hadRuntimeError : d'.hadRuntimeError = d.hadRuntimeError
  reports : d'.reports.map Report.unlined = d.reports.map Report.unlined

structure Session.SameButLines (s s' : Session) : Prop where
  machine : s'.machine = s.machine
  diagnostics : s.diagnostics.SameButLines s'.diagnostics

namespace Diagnostics

variable {d d' : Diagnostics}

theorem SameButLines.refl (d : Diagnostics) : d.SameButLines d := ⟨rfl, rfl, rfl⟩

theorem SameButLines.record (h : d.SameButLines d') {e e' : Error}
    (same : e.relined noLine = e'.relined noLine) : (d.record e).SameButLines (d'.record e') := by
  obtain ⟨hadError, hadRuntimeError, reports⟩ := h
  have runtime : e'.isRuntime = e.isRuntime := by
    rw [← Error.isRuntime_relined noLine e', ← same, Error.isRuntime_relined]
  have report : e'.report.unlined = e.report.unlined := by
    rw [← Error.report_relined noLine e', ← same, Error.report_relined]
  refine ⟨?_, ?_, ?_⟩
  · simp only [Diagnostics.record, hadError, runtime]
  · simp only [Diagnostics.record, hadRuntimeError, runtime]
  · simp only [Diagnostics.record, List.map_append, List.map_cons, List.map_nil, reports, report]

theorem SameButLines.recordAll (h : d.SameButLines d') {errors errors' : List Error}
    (same : errors.map (Error.relined noLine) = errors'.map (Error.relined noLine)) :
    (d.recordAll errors).SameButLines (d'.recordAll errors') := by
  induction errors generalizing d d' errors' with
  | nil =>
    rw [List.map_eq_nil_iff.mp same.symm]
    exact h
  | cons e rest ih =>
    obtain ⟨e', rest', rfl, first, others⟩ := List.map_eq_cons_iff.mp same.symm
    exact ih (h.record first.symm) others.symm

end Diagnostics

theorem Program.executeAll_sameButLines {program program' : Program}
    (same : Stmt.allRelined noLine program = Stmt.allRelined noLine program') (fuel : Nat)
    (m : Machine) :
    (Stmt.executeAll fuel program).adaptExcept (Stop.relined noLine) m =
      (Stmt.executeAll fuel program').adaptExcept (Stop.relined noLine) m := by
  rw [← Stmt.executeAll_relined, ← Stmt.executeAll_relined, same]

theorem Compiles.tokensIn {source : String} {last : Nat} {tokens : List Token} {program : Program}
    (h : Compiles source last tokens program) :
    TokenStream.tokensIn source = tokens ++ [⟨.endOfFile, "", last⟩] := by
  obtain ⟨outcomes, scans, _, rfl⟩ := h.scanned
  rw [TokenStream.tokensIn, scans.scan]

namespace Session

variable {s s' t t' u u' : Session} {source source' : String}

theorem SameButLines.execute (h : s.SameButLines s') {program program' : Program}
    (same : Stmt.allRelined noLine program = Stmt.allRelined noLine program') (fuel : Nat) :
    Option.Rel SameButLines (s.execute fuel program) (s'.execute fuel program') := by
  obtain ⟨machine, diagnostics⟩ := h
  have ends := Program.executeAll_sameButLines same fuel s.machine
  unfold Session.execute
  rw [machine]
  unfold EStateM.adaptExcept at ends
  cases left : Stmt.executeAll fuel program s.machine with
  | ok v m =>
    cases right : Stmt.executeAll fuel program' s.machine with
    | ok v' m' =>
      rw [left, right] at ends
      cases ends
      exact .some ⟨rfl, diagnostics⟩
    | error stop' m' =>
      rw [left, right] at ends
      cases ends
  | error stop m =>
    cases right : Stmt.executeAll fuel program' s.machine with
    | ok v' m' =>
      rw [left, right] at ends
      cases ends
    | error stop' m' =>
      rw [left, right] at ends
      obtain ⟨stops, rfl⟩ := EStateM.Result.error.inj ends
      cases stop <;> cases stop'
      · exact .some ⟨rfl, diagnostics.record (Stop.failed.inj stops)⟩
      · cases stops
      · cases stops
      · exact .none

open TokenStream (tokensIn errorsIn lexemesIn)

theorem parse_of_clean (s : Session) (clean : errorsIn source = []) :
    s.parse source = ((Program.read (tokensIn source)).value,
      { s with diagnostics := s.diagnostics.recordAll (Program.read (tokensIn source)).errors }) := by
  unfold parse tokensIn
  unfold errorsIn at clean
  generalize (TokenStream.ofSource source).scan = result at clean
  obtain ⟨⟨tokens, errors⟩, after⟩ := result
  obtain rfl := clean
  rfl

theorem run_sameButLines (s : Session) (clean : errorsIn source = [])
    (clean' : errorsIn source' = [])
    (same : (tokensIn source').map Token.face = (tokensIn source).map Token.face) (fuel : Nat) :
    Option.Rel SameButLines (s.run fuel source) (s.run fuel source') := by
  have read := Program.relines_read (g := noLine) rfl (tokensIn source)
  rw [← Token.relined_of_face same, Program.relines_read rfl] at read
  have program := congrArg Recovered.value read
  have errors := congrArg Recovered.errors read
  have diagnostics := (Diagnostics.SameButLines.refl s.diagnostics).recordAll errors.symm
  have behind : SameButLines
      { s with diagnostics := s.diagnostics.recordAll (Program.read (tokensIn source)).errors }
      { s with diagnostics := s.diagnostics.recordAll (Program.read (tokensIn source')).errors } :=
    ⟨rfl, diagnostics⟩
  simp only [run, parse_of_clean s clean, parse_of_clean s clean', diagnostics.hadError]
  split
  · exact .some behind
  · exact behind.execute program.symm fuel

theorem RunsTo.unique (h : s.RunsTo source t) (h' : s.RunsTo source u) : t = u := by
  obtain ⟨fuel, run⟩ := h
  obtain ⟨fuel', run'⟩ := h'
  unfold Session.run at run run'
  by_cases blocked : (s.parse source).2.diagnostics.hadError
  · simp only [blocked, ↓reduceIte, Option.some.injEq] at run run'
    rw [← run, run']
  · simp only [blocked, Bool.false_eq_true, ↓reduceIte, execute_eq_some] at run run'
    have same := Program.Ends.unique ⟨fuel, rfl, run.1⟩ ⟨fuel', rfl, run'.1⟩
    rw [run.2, run'.2, same]

theorem RunsTo.sameButLines (h : s.RunsTo source u) (clean : errorsIn source = [])
    (clean' : errorsIn source' = [])
    (same : (tokensIn source').map Token.face = (tokensIn source).map Token.face) :
    ∃ u', s.RunsTo source' u' ∧ u.SameButLines u' := by
  obtain ⟨fuel, run⟩ := h
  have both := run_sameButLines s clean clean' same fuel
  rw [run] at both
  cases run' : s.run fuel source' with
  | none =>
    rw [run'] at both
    cases both
  | some u' =>
    rw [run'] at both
    cases both with
    | some told => exact ⟨u', ⟨fuel, run'⟩, told⟩

/-- Layout never changes meaning. A source without lexical errors and one made of its lexemes in
    another layout have the same tokens but for lines, and run the same in every session. -/
theorem run_laidOut (clean : errorsIn source = []) (laid : LaidOut (lexemesIn source) source') :
    (tokensIn source').map Token.face = (tokensIn source).map Token.face ∧
      errorsIn source' = [] ∧
      ∀ s : Session, ((∃ u, s.RunsTo source u) ↔ ∃ u, s.RunsTo source' u) ∧
        ∀ u u', s.RunsTo source u → s.RunsTo source' u' → u.SameButLines u' := by
  obtain ⟨faces, clean'⟩ := TokenStream.scan_laidOut laid
  refine ⟨faces, clean', fun s => ⟨⟨?_, ?_⟩, ?_⟩⟩
  · rintro ⟨u, run⟩
    obtain ⟨u', run', _⟩ := run.sameButLines clean clean' faces
    exact ⟨u', run'⟩
  · rintro ⟨u', run'⟩
    obtain ⟨u, run, _⟩ := run'.sameButLines clean' clean faces.symm
    exact ⟨u, run⟩
  · intro u u' run run'
    obtain ⟨u'', run'', told⟩ := run.sameButLines clean clean' faces
    rw [run'.unique run'']
    exact told

/-- The assignment fails in line 1 of the first source, and in line 2 of the second. -/
theorem run_laidOut_undefined : errorsIn "a=nil;" = [] ∧
    LaidOut (lexemesIn "a=nil;") " // b\na // c\n= nil\t;" ∧
    ∀ u u', (start none).RunsTo "a=nil;" u →
      (start none).RunsTo " // b\na // c\n= nil\t;" u' → u.SameButLines u' := by
  have clean : errorsIn "a=nil;" = [] := by cbv
  have lexemes : lexemesIn "a=nil;" = ["a", "=", "nil", ";"] := by cbv
  have comment : ∀ c : Char, c ≠ '\n' → Layout (' ' :: '/' :: '/' :: ([' ', c] ++ '\n' :: [])) :=
    fun c other => .blank (by decide) (.comment (by simp [other.symm]) .nil)
  have space : Separates [' '] := ⟨.blank (by decide) .nil, by decide, by simp [Blanked]⟩
  have tab : Separates ['\t'] := ⟨.blank (by decide) .nil, by decide, by simp [Blanked]⟩
  have commented : Separates (' ' :: '/' :: '/' :: ([' ', 'c'] ++ '\n' :: [])) :=
    ⟨comment 'c' (by decide), by decide, by simp [Blanked]⟩
  have laid : LaidOut (lexemesIn "a=nil;") " // b\na // c\n= nil\t;" := by
    rw [lexemes]
    exact ⟨_, _, comment 'b' (by decide), .cons commented (.cons space (.cons tab (.last ";"))),
      by simp⟩
  exact ⟨clean, laid, ((run_laidOut clean laid).2.2 (start none)).2⟩

end Session

end Blockscript

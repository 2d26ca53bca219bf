import Blockscript.Proofs.Reading.Programs
import Blockscript.Proofs.Scanning.Scans
import Blockscript.Session

/-!
Sources without errors. Whatever is recorded while a source is read is an error of the
source, so a source that leaves no error on record was scanned and read whole.
-/
namespace Blockscript

open Grammar

namespace Diagnostics

theorem hadError_recordAll (d : Diagnostics) (errors : List Error) :
    (d.recordAll errors).hadError = (d.hadError || errors.any (!·.isRuntime)) := by
  induction errors generalizing d with
  | nil => simp [recordAll]
  | cons e rest ih =>
    have step : d.recordAll (e :: rest) = (d.record e).recordAll rest := rfl
    rw [step, ih]
    simp [record, Bool.or_assoc]

theorem nothing_recorded {d : Diagnostics} {errors : List Error}
    (known : ∀ e ∈ errors, e.isRuntime = false) (clean : (d.recordAll errors).hadError = false) :
    errors = [] ∧ d.hadError = false := by
  rw [hadError_recordAll, Bool.or_eq_false_iff] at clean
  cases errors with
  | nil => exact ⟨rfl, clean.1⟩
  | cons e rest => simp [known e (by simp)] at clean

end Diagnostics

theorem Blames.not_runtime {tokens : List Token} {e : Error} (h : Blames tokens e) :
    e.isRuntime = false := by
  rcases h with ⟨t, _, fault, _, rfl⟩ | rfl <;> rfl

/-- The source has no errors and is the program; it ends in the line. -/
structure Compiles (source : String) (last : Nat) (tokens : List Token) (program : Program) :
    Prop where
  scanned : ∃ outcomes, Scans 1 source.toList outcomes last ∧
    TokenStream.errorsOf outcomes = [] ∧ TokenStream.tokensOf outcomes = tokens
  derived : Declarations tokens program

theorem Compiles.parse {source : String} {last : Nat} {tokens : List Token} {program : Program}
    (h : Compiles source last tokens program) (s : Session) : s.parse source = (program, s) := by
  obtain ⟨outcomes, scans, none, rfl⟩ := h.scanned
  have ends : Token.isEnd ⟨.endOfFile, "", last⟩ = true := rfl
  simp only [Session.parse, scans.scan, Program.read_derived h.derived ends [], none]
  rfl

theorem compiles_of_parse {s : Session} {source : String}
    (clean : (s.parse source).2.diagnostics.hadError = false) :
    ∃ last tokens, Compiles source last tokens (s.parse source).1 := by
  obtain ⟨outcomes, last, scans⟩ := Scans.total 1 source.toList
  have ends : Token.isEnd ⟨.endOfFile, "", last⟩ = true := rfl
  simp only [Session.parse, scans.scan] at clean ⊢
  have grammatical : ∀ tokens, ∀ e ∈ (Program.read tokens).errors, e.isRuntime = false :=
    fun tokens e member => (Program.read_takes.noted tokens e member).not_runtime
  have lexical : ∀ e ∈ TokenStream.errorsOf outcomes, e.isRuntime = false := by
    intro e member
    obtain ⟨line, fault, rfl⟩ := scans.errors_lexical member
    rfl
  obtain ⟨none, clean⟩ := Diagnostics.nothing_recorded (grammatical _) clean
  obtain ⟨none', _⟩ := Diagnostics.nothing_recorded lexical clean
  refine ⟨last, _, ⟨outcomes, scans, none', rfl⟩, ?_⟩
  exact Program.derived_of_read (fun t => scans.tokens_not_end) ends none

end Blockscript

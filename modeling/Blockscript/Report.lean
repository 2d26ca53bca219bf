import Blockscript.Error

/-!
Reports of errors, gathered until they are taken, and two flags that outlive
them. Nothing here writes anything.
-/
namespace Blockscript

inductive Severity where
  | compile
  | runtime
  deriving DecidableEq, Repr

def Severity.text : Severity → String
  | compile => "error"
  | runtime => "runtime error"

def Error.severity (e : Error) : Severity := if e.isRuntime then .runtime else .compile

structure Report where
  severity : Severity
  text : String
  deriving DecidableEq, Repr

/-- The line shown for a message, such as `error: [line 3]: Unterminated string.` -/
def reportText (severity : Severity) (message : String) : String :=
  severity.text ++ ": " ++ message

def Error.report (e : Error) : Report := ⟨e.severity, reportText e.severity e.message⟩

structure Diagnostics where
  hadError : Bool
  hadRuntimeError : Bool
  reports : List Report
  deriving DecidableEq, Repr

namespace Diagnostics

def empty : Diagnostics := ⟨false, false, []⟩

def record (d : Diagnostics) (e : Error) : Diagnostics :=
  { hadError := d.hadError || !e.isRuntime
    hadRuntimeError := d.hadRuntimeError || e.isRuntime
    reports := d.reports ++ [e.report] }

def recordAll (d : Diagnostics) (errors : List Error) : Diagnostics := errors.foldl record d

def take (d : Diagnostics) : List Report × Diagnostics := (d.reports, { d with reports := [] })

theorem recordAll_append (d : Diagnostics) (first second : List Error) :
    d.recordAll (first ++ second) = (d.recordAll first).recordAll second :=
  List.foldl_append

theorem reports_recordAll (d : Diagnostics) (errors : List Error) :
    (d.recordAll errors).reports = d.reports ++ errors.map Error.report := by
  induction errors generalizing d with
  | nil => simp [recordAll]
  | cons e rest ih =>
    have step : d.recordAll (e :: rest) = (d.record e).recordAll rest := rfl
    rw [step, ih]
    simp [record]

end Diagnostics

end Blockscript

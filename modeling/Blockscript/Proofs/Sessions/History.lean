import Blockscript.Proofs.Sessions.Compiling
import Blockscript.Proofs.Running.Raising
import Mathlib

/-!
The history of a session: what was recorded, taken and cleared in it, whoever did that. The
flags and the pending reports of a session are told by its history alone, and a run executes
nothing while an error of a source is among what was recorded since the last reset.
-/
namespace Blockscript

inductive Call where
  | run (source : String)
  | parse (source : String)
  | report (e : Error)
  | take
  | reset

inductive Event where
  | recorded (e : Error)
  | taken
  | cleared
  deriving DecidableEq, Repr

def Error.stage : Error → Severity
  | .lexical _ _ | .grammar _ _ => .compile
  | .type _ _ | .undefined _ _ | .output _ => .runtime

namespace Event

def error? : Event → Option Error
  | .recorded e => some e
  | .taken | .cleared => none

def clears : Event → Bool
  | .cleared => true
  | .recorded _ | .taken => false

def empties : Event → Bool
  | .taken | .cleared => true
  | .recorded _ => false

/-- The errors recorded behind the last event with the mark. -/
def errorsSince (mark : Event → Bool) (events : List Event) : List Error :=
  events.foldl (fun errors event => if mark event then [] else errors ++ event.error?.toList) []

end Event

namespace Session

def readErrors (source : String) : List Error :=
  let ((tokens, lexical), _) := (TokenStream.ofSource source).scan
  lexical ++ (Program.read tokens).errors

def failure? (s : Session) (fuel : Nat) (program : Program) : Option Error :=
  match Stmt.executeAll fuel program s.machine with
  | .error (.failed e) _ => some e
  | _ => none

def call (s : Session) (fuel : Nat) : Call → Option Session
  | .run source => s.run fuel source
  | .parse source => some (s.parse source).2
  | .report e => some (s.record e)
  | .take => some s.take.2
  | .reset => some s.reset

/-- What happens in a call. A run has an error of its own only if it executes. -/
def events (s : Session) (fuel : Nat) : Call → List Event
  | .run source =>
    (readErrors source).map .recorded ++
      if s.diagnostics.hadError || !(readErrors source).isEmpty then []
      else (s.failure? fuel (s.parse source).1).toList.map .recorded
  | .parse source => (readErrors source).map .recorded
  | .report e => [.recorded e]
  | .take => [.taken]
  | .reset => [.cleared]

inductive History : Session → List Event → Session → Prop where
  | start (s : Session) : History s [] s
  | call {s t u : Session} {past : List Event} {fuel : Nat} {call : Call}
      (before : History s past t) (done : t.call fuel call = some u) :
      History s (past ++ t.events fuel call) u

end Session

structure Diagnostics.Told (events : List Event) (d : Diagnostics) : Prop where
  hadError : d.hadError = true ↔ ∃ e ∈ Event.errorsSince Event.clears events, e.stage = .compile
  hadRuntimeError : d.hadRuntimeError = true ↔
    ∃ e ∈ Event.errorsSince Event.clears events, e.stage = .runtime
  pending : d.reports = (Event.errorsSince Event.empties events).map fun e =>
    ⟨e.stage, reportText e.stage e.message⟩

/-- A run that is blocked changes nothing but the diagnostics, and a run that executes has at
    most one error. -/
structure Session.Consistent (events : List Event) (s : Session) : Prop where
  told : s.diagnostics.Told events
  blocked : ∀ fuel source, s.diagnostics.hadError = true ∨ readErrors source ≠ [] →
    ∃ t added, s.run fuel source = some t ∧ t.machine = s.machine ∧
      t.diagnostics.reports = s.diagnostics.reports ++ added ∧ ∀ r ∈ added, r.severity = .compile
  executed : ∀ fuel source t, s.diagnostics.hadError = false → readErrors source = [] →
    s.run fuel source = some t → ∃ added, added.length ≤ 1 ∧
      t.diagnostics.reports = s.diagnostics.reports ++ added ∧ ∀ r ∈ added, r.severity = .runtime

namespace Event

variable {mark : Event → Bool} {events : List Event}

theorem errorsSince_marked {event : Event} (marked : mark event = true) :
    errorsSince mark (events ++ [event]) = [] := by
  simp [errorsSince, marked]

theorem errorsSince_unmarked {event : Event} (unmarked : mark event = false)
    (none : event.error? = none) : errorsSince mark (events ++ [event]) = errorsSince mark events := by
  simp [errorsSince, unmarked, none]

theorem errorsSince_recorded (unmarked : ∀ e, mark (.recorded e) = false) (errors : List Error) :
    errorsSince mark (events ++ errors.map .recorded) = errorsSince mark events ++ errors := by
  induction errors generalizing events with
  | nil => simp
  | cons e rest ih =>
    have step : errorsSince mark (events ++ [.recorded e]) = errorsSince mark events ++ [e] := by
      simp [errorsSince, unmarked, error?]
    rw [List.map_cons, List.append_cons, ih, step, List.append_assoc, List.singleton_append]

end Event

namespace Error

theorem report_stage (e : Error) : e.report = ⟨e.stage, reportText e.stage e.message⟩ := by
  cases e <;> rfl

theorem stage_eq_compile (e : Error) : e.stage = .compile ↔ e.isRuntime = false := by
  cases e <;> simp [stage, isRuntime]

theorem stage_eq_runtime (e : Error) : e.stage = .runtime ↔ e.isRuntime = true := by
  cases e <;> simp [stage, isRuntime]

end Error

namespace Diagnostics

variable {events : List Event} {d : Diagnostics}

theorem hadRuntimeError_recordAll (d : Diagnostics) (errors : List Error) :
    (d.recordAll errors).hadRuntimeError = (d.hadRuntimeError || errors.any (·.isRuntime)) := by
  induction errors generalizing d with
  | nil => simp [recordAll]
  | cons e rest ih =>
    have step : d.recordAll (e :: rest) = (d.record e).recordAll rest := rfl
    rw [step, ih]
    simp [record, Bool.or_assoc]

namespace Told

theorem empty : Told [] .empty where
  hadError := by simp [Diagnostics.empty, Event.errorsSince]
  hadRuntimeError := by simp [Diagnostics.empty, Event.errorsSince]
  pending := rfl

theorem recordAll (h : Told events d) (errors : List Error) :
    Told (events ++ errors.map .recorded) (d.recordAll errors) where
  hadError := by
    rw [Event.errorsSince_recorded fun _ => rfl, hadError_recordAll, Bool.or_eq_true, h.hadError]
    simp only [List.any_eq_true, Bool.not_eq_true', List.mem_append, or_and_right, exists_or,
      Error.stage_eq_compile]
  hadRuntimeError := by
    rw [Event.errorsSince_recorded fun _ => rfl, hadRuntimeError_recordAll, Bool.or_eq_true,
      h.hadRuntimeError]
    simp only [List.any_eq_true, List.mem_append, or_and_right, exists_or, Error.stage_eq_runtime]
  pending := by
    have same : Error.report = fun e => ⟨e.stage, reportText e.stage e.message⟩ :=
      funext Error.report_stage
    rw [Event.errorsSince_recorded fun _ => rfl, reports_recordAll, h.pending, List.map_append, same]

theorem take (h : Told events d) : Told (events ++ [.taken]) d.take.2 where
  hadError := by
    rw [Event.errorsSince_unmarked rfl rfl]
    exact h.hadError
  hadRuntimeError := by
    rw [Event.errorsSince_unmarked rfl rfl]
    exact h.hadRuntimeError
  pending := by
    rw [Event.errorsSince_marked rfl]
    rfl

theorem clear : Told (events ++ [.cleared]) .empty where
  hadError := by
    rw [Event.errorsSince_marked rfl]
    simp [Diagnostics.empty]
  hadRuntimeError := by
    rw [Event.errorsSince_marked rfl]
    simp [Diagnostics.empty]
  pending := by
    rw [Event.errorsSince_marked rfl]
    rfl

end Told

end Diagnostics

namespace Session

variable {s t u : Session} {source : String} {fuel : Nat} {program : Program}

theorem parse_diagnostics (s : Session) (source : String) : (s.parse source).2 =
    { s with diagnostics := s.diagnostics.recordAll (readErrors source) } := by
  simp only [parse, readErrors, Diagnostics.recordAll_append]

theorem readErrors_compile (source : String) : ∀ e ∈ readErrors source, e.isRuntime = false := by
  obtain ⟨outcomes, last, scans⟩ := Scans.total 1 source.toList
  intro e member
  simp only [readErrors, scans.scan, List.mem_append] at member
  rcases member with lexical | grammatical
  · obtain ⟨line, fault, rfl⟩ := scans.errors_lexical lexical
    rfl
  · exact (Program.read_takes.noted _ e grammatical).not_runtime

theorem parse_hadError (s : Session) (source : String) :
    (s.parse source).2.diagnostics.hadError = true ↔
      s.diagnostics.hadError = true ∨ readErrors source ≠ [] := by
  rw [parse_diagnostics, Diagnostics.hadError_recordAll, Bool.or_eq_true]
  have known := readErrors_compile source
  cases found : readErrors source with
  | nil => simp
  | cons e rest =>
    have compile : e.isRuntime = false := known e (by rw [found]; exact List.mem_cons_self)
    simp [compile]

theorem run_blocked (blocked : s.diagnostics.hadError = true ∨ readErrors source ≠ [])
    (fuel : Nat) : s.run fuel source = some (s.parse source).2 := by
  rw [← parse_hadError] at blocked
  simp only [run, blocked, ↓reduceIte]

theorem run_executes (quiet : s.diagnostics.hadError = false) (clean : readErrors source = [])
    (fuel : Nat) : s.run fuel source = s.execute fuel (s.parse source).1 := by
  have same : (s.parse source).2 = s := by
    rw [parse_diagnostics, clean]
    rfl
  simp only [run, same, quiet, Bool.false_eq_true, ↓reduceIte]

theorem execute_diagnostics (done : s.execute fuel program = some t) :
    t.diagnostics = s.diagnostics.recordAll (s.failure? fuel program).toList := by
  unfold execute at done
  unfold failure?
  generalize Stmt.executeAll fuel program s.machine = r at done ⊢
  rcases r with ⟨u, m⟩ | ⟨e | _, m⟩
  · cases done
    rfl
  · cases done
    rfl
  · cases done

theorem failure_runtime {e : Error} (failed : s.failure? fuel program = some e) :
    e.isRuntime = true := by
  unfold failure? at failed
  split at failed
  · rename_i run
    cases failed
    exact Stmt.executeAll_raises fuel program _ _ _ run
  · cases failed

theorem call_told {past : List Event} {call : Call} (done : s.call fuel call = some t)
    (told : s.diagnostics.Told past) : t.diagnostics.Told (past ++ s.events fuel call) := by
  cases call with
  | run source =>
    by_cases blocked : s.diagnostics.hadError = true ∨ readErrors source ≠ []
    · have done : s.run fuel source = some t := done
      rw [run_blocked blocked] at done
      cases done
      have nothing : (s.diagnostics.hadError || !(readErrors source).isEmpty) = true := by
        simpa using blocked
      simp only [events, nothing, ↓reduceIte, List.append_nil, parse_diagnostics]
      exact told.recordAll (readErrors source)
    · obtain ⟨quiet, clean⟩ : s.diagnostics.hadError = false ∧ readErrors source = [] := by
        simpa using blocked
      have done : s.run fuel source = some t := done
      rw [run_executes quiet clean] at done
      rw [execute_diagnostics done]
      simp only [events, quiet, clean, List.map_nil, List.nil_append, List.isEmpty_nil, Bool.not_true,
        Bool.or_self, Bool.false_eq_true, ↓reduceIte]
      exact told.recordAll _
  | parse source =>
    cases done
    rw [parse_diagnostics]
    exact told.recordAll (readErrors source)
  | report e =>
    cases done
    exact told.recordAll [e]
  | take =>
    cases done
    exact told.take
  | reset =>
    cases done
    exact Diagnostics.Told.clear

theorem History.told {past : List Event} (h : History s past t)
    (fresh : s.diagnostics.Told []) : t.diagnostics.Told past := by
  induction h with
  | start => exact fresh
  | call before done ih => exact call_told done ih

theorem Consistent.of_told {past : List Event} (told : s.diagnostics.Told past) :
    s.Consistent past where
  told := told
  blocked := by
    intro fuel source blocked
    refine ⟨_, (readErrors source).map Error.report, run_blocked blocked fuel, ?_, ?_, ?_⟩
    · rw [parse_diagnostics]
    · rw [parse_diagnostics, Diagnostics.reports_recordAll]
    · intro r member
      obtain ⟨e, known, rfl⟩ := List.mem_map.mp member
      rw [Error.report_stage]
      exact (Error.stage_eq_compile e).mpr (readErrors_compile source e known)
  executed := by
    intro fuel source t quiet clean done
    rw [run_executes quiet clean] at done
    refine ⟨(s.failure? fuel (s.parse source).1).toList.map Error.report, ?_, ?_, ?_⟩
    · rw [List.length_map]
      exact Option.length_toList_le
    · rw [execute_diagnostics done, Diagnostics.reports_recordAll]
    · intro r member
      obtain ⟨e, known, rfl⟩ := List.mem_map.mp member
      rw [Error.report_stage]
      exact (Error.stage_eq_runtime e).mpr (failure_runtime (Option.mem_toList.mp known))

/-- Whatever was done with a session since its start, its flags and pending reports are as its
    history tells, and so is what a run will do. -/
theorem history_consistent {room : Option Nat} {past : List Event}
    (h : History (start room) past s) : s.Consistent past :=
  .of_told (h.told Diagnostics.Told.empty)

/-- The report of the first run is taken, but still blocks the second one. -/
theorem history_consistent_blocked :
    History (start none) [.recorded (.grammar ⟨.semicolon, ";", 1⟩ .expression), .taken]
        ⟨.start none, ⟨true, false, []⟩⟩ ∧
      Consistent [.recorded (.grammar ⟨.semicolon, ";", 1⟩ .expression), .taken]
        ⟨.start none, ⟨true, false, []⟩⟩ := by
  have failed : (start none).call 0 (.run ";") = some ⟨.start none, ⟨true, false,
      [⟨.compile, "error: [line 1] at ';': Expected expression."⟩]⟩⟩ := by cbv
  have blamed : (start none).events 0 (.run ";") =
      [.recorded (.grammar ⟨.semicolon, ";", 1⟩ .expression)] := by cbv
  have blocked : call ⟨.start none, ⟨true, false, []⟩⟩ 0 (.run "nil;") =
      some ⟨.start none, ⟨true, false, []⟩⟩ := by cbv
  have silent : Session.events ⟨.start none, ⟨true, false, []⟩⟩ 0 (.run "nil;") = [] := by cbv
  have first := History.call (.start (start none)) failed
  rw [blamed] at first
  have second : History (start none) [.recorded (.grammar ⟨.semicolon, ";", 1⟩ .expression), .taken]
      ⟨.start none, ⟨true, false, []⟩⟩ := @History.call _ _ _ _ 0 .take first rfl
  have third := History.call second blocked
  rw [silent] at third
  exact ⟨third, history_consistent third⟩

end Session

end Blockscript

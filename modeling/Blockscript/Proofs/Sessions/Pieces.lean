import Blockscript.Proofs.Running.Raising
import Blockscript.Proofs.Scanning.Seam
import Blockscript.Proofs.Sessions.Compiling
import Blockscript.Proofs.Sessions.Runs
import Mathlib

/-!
A source run piece by piece. Where the first piece ends a line, has no errors and runs to
its end, the second piece goes on as if both were one source, but tells its own lines.
-/
namespace Blockscript

open Execution

theorem Compiles.append {first second : String} {last last' : Nat} {ts us : List Token}
    {program program' : Program} (h : Compiles first last ts program)
    (ends : EndsLine first.toList) (h' : Compiles second last' us program') :
    let lines := first.toList.count '\n'
    Compiles (first ++ second) (last' + lines) (ts ++ us.map (Token.relined (· + lines)))
      (program ++ Stmt.allRelined (· + lines) program') := by
  intro lines
  obtain ⟨outcomes, scans, none, rfl⟩ := h.scanned
  obtain ⟨outcomes', scans', none', rfl⟩ := h'.scanned
  refine ⟨⟨outcomes ++ outcomes'.map (TokenStream.outcomeRelined (· + lines)), ?_, ?_, ?_⟩,
    h.derived.append h'.derived.relined⟩
  · have goesOn := scans'.later lines
    rw [← scans.last_eq] at goesOn
    rw [String.toList_append]
    exact scans.append ends none goesOn
  · rw [TokenStream.errorsOf_append, TokenStream.errorsOf_relined, none, none']
    rfl
  · rw [TokenStream.tokensOf_append, TokenStream.tokensOf_relined]

abbrev Final := EStateM.Result Stop Machine Unit

def Program.Ends (program : Program) (m : Machine) (r : Final) : Prop :=
  ∃ fuel, Stmt.executeAll fuel program m = r ∧ Ended r

def Final.relined (g : Nat → Nat) : Final → Final
  | .ok u m => .ok u m
  | .error stop m => .error (stop.relined g) m

namespace Program

variable {program program' : Program} {m m' : Machine} {r r' : Final}

theorem Ends.with_more {fuel fuel' : Nat} (run : Stmt.executeAll fuel program m = r)
    (ended : Ended r) (le : fuel ≤ fuel') : Stmt.executeAll fuel' program m = r := by
  subst run
  exact Stmt.executeAll_extends le program m ended

theorem Ends.unique (h : program.Ends m r) (h' : program.Ends m r') : r = r' := by
  obtain ⟨fuel, run, ended⟩ := h
  obtain ⟨fuel', run', ended'⟩ := h'
  rw [← Ends.with_more run ended (Nat.le_max_left fuel fuel'),
    Ends.with_more run' ended' (Nat.le_max_right fuel fuel')]

end Program

namespace Session

variable {s t u : Session} {source : String}

def RunsTo (s : Session) (source : String) (t : Session) : Prop :=
  ∃ fuel, s.run fuel source = some t

def behind (s : Session) : Final → Session
  | .ok _ machine => { s with machine }
  | .error (.failed e) machine => { machine, diagnostics := s.diagnostics.record e }
  | .error .outOfFuel machine => { s with machine }

theorem execute_eq_some {fuel : Nat} {program : Program} :
    s.execute fuel program = some t ↔
      Ended (Stmt.executeAll fuel program s.machine) ∧
        t = s.behind (Stmt.executeAll fuel program s.machine) := by
  unfold execute
  rcases Stmt.executeAll fuel program s.machine with ⟨u, m⟩ | ⟨e | _, m⟩
  · simp [Ended, behind, eq_comm]
  · simp [Ended, behind, eq_comm]
  · simp [Ended]

end Session

end Blockscript

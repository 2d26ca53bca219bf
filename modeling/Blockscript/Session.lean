import Blockscript.Reading.Program
import Blockscript.Report
import Blockscript.Run.Execute
import Blockscript.Token.Stream

/-!
A session: variables, output and diagnostics that last from one source to the next.
Nothing runs while an error of a source is on record, whichever source it was.
-/
namespace Blockscript

structure Session where
  machine : Machine
  diagnostics : Diagnostics

namespace Session

def start (room : Option Nat) : Session := ⟨.start room, .empty⟩

def record (s : Session) (e : Error) : Session := { s with diagnostics := s.diagnostics.record e }

def reset (s : Session) : Session := { s with diagnostics := .empty }

def take (s : Session) : List Report × Session :=
  let (reports, diagnostics) := s.diagnostics.take
  (reports, { s with diagnostics })

/-- Reads a source. Its lexical errors are recorded before the others. -/
def parse (s : Session) (source : String) : Program × Session :=
  let ((tokens, lexical), _) := (TokenStream.ofSource source).scan
  let program := Program.read tokens
  (program.value,
    { s with diagnostics := (s.diagnostics.recordAll lexical).recordAll program.errors })

/-- Runs a program; an error ends the run and is recorded. No answer if the fuel runs out. -/
def execute (s : Session) (fuel : Nat) (program : Program) : Option Session :=
  match Stmt.executeAll fuel program s.machine with
  | .ok _ machine => some { s with machine }
  | .error (.failed e) machine => some { machine, diagnostics := s.diagnostics.record e }
  | .error .outOfFuel _ => none

/-- Reads a source and runs it, unless an error is on record by then. -/
def run (s : Session) (fuel : Nat) (source : String) : Option Session :=
  let (program, s) := s.parse source
  if s.diagnostics.hadError then some s else s.execute fuel program

end Session

end Blockscript

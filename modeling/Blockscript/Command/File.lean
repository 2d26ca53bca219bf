import Blockscript.Command.Outcome

/-!
The command with a file: one source, one session, all reports at the end.
-/
namespace Blockscript

inductive Unreadable where
  | missing
  | notUtf8
  | other (text : String)

def Unreadable.text : Unreadable → String
  | missing => "No such file or directory (os error 2)"
  | notUtf8 => Blockscript.notUtf8
  | other text => text

def Outcome.noSource (path : String) (reason : Unreadable) : Outcome :=
  ⟨unreadable, .empty, "Could not read " ++ path ++ ": " ++ reason.text ++ "\n"⟩

/-- The flags outlive the reports that are taken, so they still tell the exit code. -/
def Session.outcome (s : Session) : Outcome :=
  let exit :=
    if s.diagnostics.hadError then Outcome.badSource
    else if s.diagnostics.hadRuntimeError then Outcome.failedRun
    else 0
  ⟨exit, s.machine.output.written, reportLines s.take.1⟩

/-- The outcome for a file's bytes. No answer if the fuel runs out. -/
def runFile (fuel : Nat) (outline : Bool) (path : String)
    (content : Except Unreadable ByteArray) : Option Outcome :=
  match content with
  | .error reason => some (.noSource path reason)
  | .ok bytes =>
    match String.fromUTF8? bytes with
    | none => some (.noSource path .notUtf8)
    | some source => ((Session.start none).feed fuel outline source).map Session.outcome

end Blockscript

import Blockscript.Program.Outline
import Blockscript.Session

/-!
What the command does with one source, and how it ends. All that goes to standard
output goes through the session's output, prompts and outlines too.
-/
namespace Blockscript

structure Outcome where
  exit : UInt8
  stdout : ByteArray
  stderr : String

def Outcome.unreadable : UInt8 := 74

def Outcome.badSource : UInt8 := 65

def Outcome.failedRun : UInt8 := 70

def notUtf8 : String := "stream did not contain valid UTF-8"

def reportLines (reports : List Report) : String :=
  String.join (reports.map (·.text ++ "\n"))

namespace Session

def say (s : Session) (text : String) : Session :=
  { s with machine := { s.machine with output := (s.machine.output.write text).1 } }

def feed (s : Session) (fuel : Nat) (outline : Bool) (source : String) : Option Session :=
  if outline then
    let (program, s) := s.parse source
    if s.diagnostics.hadError then some s
    else some (program.foldl (fun s stmt => s.say (stmt.outline ++ "\n")) s)
  else s.run fuel source

end Session

end Blockscript

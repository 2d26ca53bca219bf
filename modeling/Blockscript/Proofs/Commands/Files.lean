import Blockscript.Command.File
import Blockscript.Proofs.Commands.Effects
import Blockscript.Proofs.Reading.Order
import Blockscript.Proofs.Scanning.Cutting

/-!
The command with a file. Its exit code and its two streams tell the same: there was no source,
the source has errors, it failed while running, or all went well. They tell just one of these.
-/
namespace Blockscript

open Session (readErrors quiet noting)

inductive NoSource : Except Unreadable ByteArray → Unreadable → Prop where
  | unread (reason : Unreadable) : NoSource (.error reason) reason
  | notUtf8 {bytes : ByteArray} (bad : String.fromUTF8? bytes = none) :
      NoSource (.ok bytes) .notUtf8

inductive Ending where
  | unreadable
  | badSource
  | failedRun
  | complete
  deriving DecidableEq, Repr

def Ending.exit : Ending → UInt8
  | .unreadable => 74
  | .badSource => 65
  | .failedRun => 70
  | .complete => 0

/-- What the command does with a file that ends so. Only the last two endings come of running
    anything, and only if no outline is asked for. -/
inductive Told (outline : Bool) (path : String) :
    Except Unreadable ByteArray → Ending → Outcome → Prop where
  | unreadable {content : Except Unreadable ByteArray} {reason : Unreadable}
      (none : NoSource content reason) :
      Told outline path content .unreadable
        ⟨74, .empty, "Could not read " ++ path ++ ": " ++ reason.text ++ "\n"⟩
  | badSource {bytes : ByteArray} {source : String} {pieces : List (Piece × List Char)}
      {tokens : List Token} {lexical grammatical : List Error}
      (text : String.fromUTF8? bytes = some source) (cut : Pieces source.toList pieces)
      (errors : lexical = Pieces.errors 1 pieces)
      (closed : tokens =
        Pieces.tokens 1 pieces ++ [⟨.endOfFile, "", 1 + source.toList.count '\n'⟩])
      (read : grammatical = (Program.read tokens).errors) (inOrder : InOrder tokens grammatical)
      (some : lexical ++ grammatical ≠ []) :
      Told outline path (.ok bytes) .badSource
        ⟨65, .empty, reportLines ((lexical ++ grammatical).map Error.report)⟩
  | failedRun {bytes : ByteArray} {source : String} {last : Nat} {tokens : List Token}
      {program : Program} {fuel : Nat} {e : Error} {m : Machine} (runs : outline = false)
      (text : String.fromUTF8? bytes = some source) (compiles : Compiles source last tokens program)
      (run : Stmt.executeAll fuel program (.start none) = .error (.failed e) m)
      (runtime : e.isRuntime = true) :
      Told outline path (.ok bytes) .failedRun
        ⟨70, printed (program.prints fuel (.start none)), reportLines [e.report]⟩
  | executed {bytes : ByteArray} {source : String} {last : Nat} {tokens : List Token}
      {program : Program} {fuel : Nat} {m : Machine} (runs : outline = false)
      (text : String.fromUTF8? bytes = some source) (compiles : Compiles source last tokens program)
      (run : Stmt.executeAll fuel program (.start none) = .ok () m) :
      Told outline path (.ok bytes) .complete
        ⟨0, printed (program.prints fuel (.start none)), ""⟩
  | outlined {bytes : ByteArray} {source : String} {last : Nat} {tokens : List Token}
      {program : Program} (only : outline = true) (text : String.fromUTF8? bytes = some source)
      (compiles : Compiles source last tokens program) :
      Told outline path (.ok bytes) .complete ⟨0, program.outlines.toUTF8, ""⟩

namespace Told

variable {outline : Bool} {path : String} {content : Except Unreadable ByteArray}
  {ending ending' : Ending} {outcome : Outcome}

theorem exit (h : Told outline path content ending outcome) : outcome.exit = ending.exit := by
  cases h <;> rfl

theorem unique (h : Told outline path content ending outcome)
    (h' : Told outline path content ending' outcome) : ending = ending' := by
  have same : ending.exit = ending'.exit := h.exit.symm.trans h'.exit
  revert same
  cases ending <;> cases ending' <;> decide

end Told

namespace Session

end Session

section

variable {outline : Bool} {path : String} {source : String} {bytes out : ByteArray}
  {errors : List Error} {c : Chain} {ending : Ending} {outcome : Outcome}

end

example : runFile 0 false "f" (.ok "print nil;\n-nil;".toUTF8) = some
    ⟨70, "nil\n".toUTF8,
      "runtime error: [line 2] at '-': TypeError: Operand must be a number.\n"⟩ := by
  cbv

end Blockscript

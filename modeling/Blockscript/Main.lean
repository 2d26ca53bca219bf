import Blockscript.Command.File
import Blockscript.Command.Prompt

/-!
The command line: a script's path, or nothing for a prompt. This layer only reads
bytes, calls the library and writes what it answers.
-/
namespace Blockscript

/-- Rounds of one loop that no run gets through in practice. -/
def ample : Nat := Nat.pow 2 62

structure Options where
  paths : List String
  outline : Bool

def Options.read : List String → Option Options
  | [] => some ⟨[], false⟩
  | argument :: rest =>
    (Options.read rest).bind fun options =>
      if argument = "--print-ast" then some { options with outline := true }
      else if argument = "--verbose" || argument = "-v" then some options
      else if argument.startsWith "-" then none
      else if options.paths.isEmpty then some { options with paths := [argument] }
      else none

def readScript (path : String) : IO (Except Unreadable ByteArray) := do
  try
    return .ok (← IO.FS.readBinFile path)
  catch
    | .noFileOrDirectory .. => return .error .missing
    | e => return .error (.other (toString e))

def finish (outcome : Outcome) : IO UInt8 := do
  (← IO.getStdout).write outcome.stdout
  (← IO.getStdout).flush
  (← IO.getStderr).putStr outcome.stderr
  return outcome.exit

partial def readLine (input : IO.FS.Stream) (line : ByteArray) : IO ByteArray := do
  let byte ← input.read 1
  if byte.isEmpty then return line
  else if byte = ⟨#[10]⟩ then return line ++ byte
  else readLine input (line ++ byte)

instance : Console IO where
  readLine := do readLine (← IO.getStdin) .empty
  write bytes := do
    (← IO.getStdout).write bytes
    (← IO.getStdout).flush
  tell text := do (← IO.getStderr).putStr text

def prompt (outline : Bool) : IO UInt8 := do
  try
    let exit ← converse ample outline ample (.start none)
    return exit.getD Outcome.failedRun
  catch e =>
    (← IO.getStderr).putStrLn (toString e)
    return Outcome.unreadable

def usage : String := "usage: blockscript [--print-ast] [--verbose] [script]\n"

def command (arguments : List String) : IO UInt8 := do
  match Options.read arguments with
  | none =>
    (← IO.getStderr).putStr usage
    return 2
  | some ⟨[], outline⟩ => prompt outline
  | some ⟨path :: _, outline⟩ =>
    match runFile ample outline path (← readScript path) with
    | none => return Outcome.failedRun
    | some outcome => finish outcome

end Blockscript

def main (arguments : List String) : IO UInt32 := do
  return (← Blockscript.command arguments).toUInt32

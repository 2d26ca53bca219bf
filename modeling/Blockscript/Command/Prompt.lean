import Blockscript.Command.Outcome

/-!
The command without a file: one session, fed line by line. Errors of a line are
shown after it and forgotten; what the line did before it failed stays.
-/
namespace Blockscript

/-- What a line led to: the session for the next line, what to show on standard
    error, and the exit code if the line ended the command. -/
structure Answer where
  session : Session
  shown : String
  exit : Option UInt8

namespace Session

def ask (s : Session) : Session := s.say "> "

/-- Feeds one line of input. A line that is not UTF-8 ends the command. -/
def answer (s : Session) (fuel : Nat) (outline : Bool) (line : ByteArray) : Option Answer :=
  match String.fromUTF8? line with
  | none => some ⟨s, notUtf8 ++ "\n", some Outcome.unreadable⟩
  | some source =>
    (s.feed fuel outline source).map fun s =>
      let (reports, s) := s.take
      ⟨s.reset, reportLines reports, none⟩

end Session

/-- What stands around a prompt: standard input, read by lines, and two streams to write. -/
class Console (m : Type → Type) where
  /-- Bytes up to and with the next line end; none at the end of input. -/
  readLine : m ByteArray
  write : ByteArray → m Unit
  tell : String → m Unit

section

variable {m : Type → Type} [Monad m] [Console m]

@[specialize] def Session.showNew (s : Session) : m Session := do
  Console.write s.machine.output.written
  return { s with machine := { s.machine with output := .empty none } }

/-- Asks before every line and before the end of input. The exit code, unless the rounds or
    the fuel run out. -/
@[specialize] def converse (fuel : Nat) (outline : Bool) : Nat → Session → m (Option UInt8)
  | 0, _ => return none
  | rounds + 1, s => do
    let s ← s.ask.showNew
    let line ← Console.readLine
    if line.isEmpty then return some 0
    else
      match s.answer fuel outline line with
      | none => return none
      | some answer => do
        let s ← answer.session.showNew
        Console.tell answer.shown
        match answer.exit with
        | none => converse fuel outline rounds s
        | some exit => return some exit

end

/-- A console that is only data: the lines left to read, and what was written. -/
structure Terminal where
  lines : List (List UInt8)
  stdout : ByteArray
  stderr : String

instance : Console (StateM Terminal) where
  readLine := modifyGet fun t =>
    match t.lines with
    | line :: lines => (⟨line.toArray⟩, { t with lines })
    | [] => (.empty, t)
  write bytes := modify fun t => { t with stdout := t.stdout ++ bytes }
  tell text := modify fun t => { t with stderr := t.stderr ++ text }

/-- Bytes cut after every line end; the last line may have none. -/
def linesOf (bytes : List UInt8) : List (List UInt8) :=
  bytes.foldr (fun byte lines =>
    match lines with
    | line :: rest => if byte = 10 then [byte] :: line :: rest else (byte :: line) :: rest
    | [] => [[byte]]) []

/-- The outcome for all bytes of standard input, with a round for each line and for the end.
    No answer if the fuel runs out. -/
def runPrompt (fuel : Nat) (outline : Bool) (input : ByteArray) : Option Outcome :=
  let lines := linesOf input.toList
  let talk : StateM Terminal (Option UInt8) :=
    converse fuel outline (lines.length + 1) (.start none)
  let (exit, terminal) := talk.run ⟨lines, .empty, ""⟩
  exit.map fun exit => ⟨exit, terminal.stdout, terminal.stderr⟩

end Blockscript

import Blockscript.Error

/-!
Readers of tokens. A reader looks at most one token past what it takes, and a
reader that fails leaves the tokens from where it failed. The end of the source
is never taken; without it the tokens can run out, which is an error of its own.
-/
namespace Blockscript

abbrev Reader := EStateM Error (List Token)

def errorAt (fault : GrammarFault) : List Token → Error
  | [] => .lexical 0 .endOfInput
  | t :: _ => .grammar t fault

namespace Reader

def fail {α : Type} (fault : GrammarFault) : Reader α :=
  fun tokens => .error (errorAt fault tokens) tokens

def nextIs (kind : Kind) : Reader Bool := fun tokens =>
  match tokens with
  | t :: _ => .ok (decide (t.kind = kind)) tokens
  | [] => .ok false []

def expect (kind : Kind) (fault : GrammarFault) : Reader Token := fun tokens =>
  match tokens with
  | t :: rest => if t.kind = kind then .ok t rest else fail fault tokens
  | [] => fail fault []

def accept (kind : Kind) : Reader Bool := fun tokens =>
  match tokens with
  | t :: rest => if t.kind = kind then .ok true rest else .ok false tokens
  | [] => .ok false []

def atEnd (tokens : List Token) : Bool := tokens.head?.all Token.isEnd

/-- Takes the next token, but never the end of the source. -/
def advance : Reader Token := fun tokens =>
  if atEnd tokens then fail .endOfFile tokens
  else
    match tokens with
    | t :: rest => .ok t rest
    | [] => .error (.lexical 0 .endOfInput) []

theorem advance_of_end {t : Token} (ends : t.isEnd = true) (rest : List Token) :
    advance (t :: rest) = fail .endOfFile (t :: rest) := by
  simp [advance, atEnd, ends]

theorem advance_cons {t : Token} (before : t.isEnd = false) (rest : List Token) :
    advance (t :: rest) = .ok t rest := by
  simp [advance, atEnd, before]

end Reader

end Blockscript

import Blockscript.Double.Decimal

/-!
Tokens. The kind decides how a token is read; the lexeme is only shown and, for
names, looked up. Nothing here requires the two to fit together.
-/
namespace Blockscript

inductive Kind where
  | leftParen | rightParen | leftBrace | rightBrace
  | comma | dot | minus | plus | semicolon | slash | star
  | bang | bangEqual | equal | equalEqual | greater | greaterEqual | less | lessEqual
  | identifier | string (contents : String) | number (value : Double)
  | andWord | classWord | elseWord | falseWord | forWord | funWord | ifWord | nilWord
  | orWord | printWord | returnWord | superWord | thisWord | trueWord | varWord | whileWord
  | endOfFile
  deriving DecidableEq, Repr

def Kind.startsStatement : Kind → Bool
  | .classWord | .funWord | .varWord | .forWord | .ifWord | .whileWord | .printWord
  | .returnWord => true
  | _ => false

structure Token where
  kind : Kind
  lexeme : String
  line : Nat
  deriving DecidableEq, Repr

def Token.isEnd (t : Token) : Bool := decide (t.kind = .endOfFile)

def reservedWords : List (String × Kind) :=
  [("and", .andWord), ("class", .classWord), ("else", .elseWord), ("false", .falseWord),
   ("for", .forWord), ("fun", .funWord), ("if", .ifWord), ("nil", .nilWord), ("or", .orWord),
   ("print", .printWord), ("return", .returnWord), ("super", .superWord), ("this", .thisWord),
   ("true", .trueWord), ("var", .varWord), ("while", .whileWord)]

def wordKind (word : String) : Kind := (reservedWords.lookup word).getD .identifier

end Blockscript

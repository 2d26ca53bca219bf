import Blockscript.Token.Basic

/-!
What can go wrong, as causes with their wording. A host program may add errors of
its own; their wording is kept as it was given.
-/
namespace Blockscript

inductive LexicalFault where
  | unexpectedCharacter (c : Char)
  | unterminatedString
  | notNumber (text : String)
  | endOfInput
  | worded (text : String)
  deriving DecidableEq, Repr

def LexicalFault.text : LexicalFault → String
  | unexpectedCharacter c => "Unexpected character '" ++ String.singleton c ++ "'."
  | unterminatedString => "Unterminated string."
  | notNumber text => "Could not convert " ++ text ++ " into a number."
  | endOfInput => "Unexpected end of input."
  | worded text => text

inductive GrammarFault where
  | variableName
  | semicolonAfterVariable
  | parenAfterFor
  | semicolonAfterCondition
  | parenAfterClauses
  | parenAfterIf
  | parenAfterIfCondition
  | parenAfterWhile
  | parenAfterCondition
  | semicolonAfterValue
  | semicolonAfterExpression
  | braceAfterBlock
  | parenAfterExpression
  | expression
  | assignmentTarget
  | nesting
  | endOfFile
  | worded (text : String)
  deriving DecidableEq, Repr

def GrammarFault.text : GrammarFault → String
  | variableName => "Expected variable name."
  | semicolonAfterVariable => "Expected ';' after variable declaration."
  | parenAfterFor => "Expected '(' after 'for'."
  | semicolonAfterCondition => "Expected ';' after loop condition."
  | parenAfterClauses => "Expected ')' after for clauses."
  | parenAfterIf => "Expected '(' after 'if'."
  | parenAfterIfCondition => "Expected ')' after if condition."
  | parenAfterWhile => "Expected '(' after 'while'."
  | parenAfterCondition => "Expected ')' after condition."
  | semicolonAfterValue => "Expected ';' after value."
  | semicolonAfterExpression => "Expected ';' after expression."
  | braceAfterBlock => "Expected '\x7d' after block."
  | parenAfterExpression => "Expected ')' after expression."
  | expression => "Expected expression."
  | assignmentTarget => "Invalid assignment target."
  | nesting => "Expression nested too deeply."
  | endOfFile => "Unexpected end of file."
  | worded text => text

inductive TypeFault where
  | numbersNeeded
  | numbersOrStringsNeeded
  | numberNeeded
  | binaryOperator
  | logicalOperator
  | unaryOperator
  | worded (text : String)
  deriving DecidableEq, Repr

def TypeFault.text : TypeFault → String
  | numbersNeeded => "Operands must be numbers."
  | numbersOrStringsNeeded => "Operands must be two numbers or two strings."
  | numberNeeded => "Operand must be a number."
  | binaryOperator => "Unknown binary operator."
  | logicalOperator => "Unknown logical operator."
  | unaryOperator => "Unknown unary operator."
  | worded text => text

inductive NameFault where
  | unbound
  | worded (text : String)
  deriving DecidableEq, Repr

def NameFault.text (name : String) : NameFault → String
  | unbound => "Undefined variable '" ++ name ++ "'."
  | worded text => text

theorem NameFault.text_unbound (name : String) :
    unbound.text name = "Undefined variable '" ++ name ++ "'." :=
  rfl

inductive OutputFault where
  | full
  | worded (text : String)
  deriving DecidableEq, Repr

def OutputFault.text : OutputFault → String
  | full => "writer full"
  | worded text => text

/-- `type` and `undefined` name the token they happened at. -/
inductive Error where
  | lexical (line : Nat) (fault : LexicalFault)
  | grammar (token : Token) (fault : GrammarFault)
  | type (operator : Token) (fault : TypeFault)
  | undefined (name : Token) (fault : NameFault := .unbound)
  | output (fault : OutputFault)
  deriving DecidableEq, Repr

def Token.location (t : Token) : String :=
  "[line " ++ toString t.line ++ "]" ++
    (if t.isEnd then " at end" else " at '" ++ t.lexeme ++ "'")

namespace Error

def message : Error → String
  | lexical line fault => "[line " ++ toString line ++ "]: " ++ fault.text
  | grammar token fault => token.location ++ ": " ++ fault.text
  | type operator fault => operator.location ++ ": TypeError: " ++ fault.text
  | undefined name fault => name.location ++ ": UndefinedVariable: " ++ fault.text name.lexeme
  | output fault => "I/O error: " ++ fault.text

/-- Errors of the source are found before anything runs; all others are runtime errors. -/
def isRuntime : Error → Bool
  | lexical .. | grammar .. => false
  | type .. | undefined .. | output .. => true

def line? : Error → Option Nat
  | lexical line _ => some line
  | grammar token _ | type token _ | undefined token _ => some token.line
  | output _ => none

end Error

end Blockscript

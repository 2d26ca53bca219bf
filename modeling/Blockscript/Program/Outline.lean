import Blockscript.Program.Basic
import Blockscript.Text.Quoted

/-!
The outline of a program: every tree in brackets with its operator or its word in
front. Strings are quoted, so that what they contain is told from brackets and blanks.
-/
namespace Blockscript

def bracketed (head : String) (parts : List String) : String :=
  "(" ++ head ++ String.join (parts.map (" " ++ ·)) ++ ")"

def Value.outline : Value → String
  | .string s => Text.quoted s
  | value => value.text

def Expr.outline : Expr → String
  | .literal value => value.outline
  | .grouping inner => bracketed "group" [inner.outline]
  | .unary op operand => bracketed op.lexeme [operand.outline]
  | .binary left op right => bracketed op.lexeme [left.outline, right.outline]
  | .logical left op right => bracketed op.lexeme [left.outline, right.outline]
  | .var name => name.lexeme
  | .assign name value => bracketed "=" [name.lexeme, value.outline]

mutual

def Stmt.outline : Stmt → String
  | .expression e => bracketed ";" [e.outline]
  | .print e => bracketed "print" [e.outline]
  | .declare name none => bracketed "var" [name.lexeme]
  | .declare name (some e) => bracketed "var" [name.lexeme, e.outline]
  | .block body => bracketed "block" (outlines body)
  | .branch condition accepted none => bracketed "if" [condition.outline, accepted.outline]
  | .branch condition accepted (some rejected) =>
    bracketed "if" [condition.outline, accepted.outline, rejected.outline]
  | .loop condition body => bracketed "while" [condition.outline, body.outline]
termination_by structural s => s

def Stmt.outlines : List Stmt → List String
  | [] => []
  | s :: rest => s.outline :: outlines rest
termination_by structural ss => ss

end

end Blockscript

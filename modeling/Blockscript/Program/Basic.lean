import Blockscript.Token.Basic
import Blockscript.Value

/-!
Programs as trees. Operators and names keep their tokens, so that an error can
point at them. A tree need not be one that can be read from a source: tokens of
any kind may stand in any place.
-/
namespace Blockscript

inductive Expr where
  | literal (value : Value)
  | grouping (inner : Expr)
  | unary (op : Token) (operand : Expr)
  | binary (left : Expr) (op : Token) (right : Expr)
  | logical (left : Expr) (op : Token) (right : Expr)
  | var (name : Token)
  | assign (name : Token) (value : Expr)
  deriving DecidableEq, Repr

inductive Stmt where
  | expression (e : Expr)
  | print (e : Expr)
  | declare (name : Token) (initial : Option Expr)
  | block (body : List Stmt)
  | branch (condition : Expr) (accepted : Stmt) (rejected : Option Stmt)
  | loop (condition : Expr) (body : Stmt)
  deriving Repr

abbrev Program := List Stmt

end Blockscript

import Blockscript.Program.Basic
import Blockscript.Reading.Basic

/-!
Reading expressions. Operators of one level join to the left; a level binds tighter
than those after it. Assignment is looser than all of them and joins to the right,
and only a bare name can be assigned to. Brackets, unary operators and the values
of assignments nest, at most `maxNesting` deep.
-/
namespace Blockscript

/-- Binary operators of equal strength, and the tree that one of them builds. -/
structure Level where
  operators : List Kind
  join : Expr → Token → Expr → Expr

def levels : List Level :=
  [⟨[.star, .slash], .binary⟩,
   ⟨[.minus, .plus], .binary⟩,
   ⟨[.greater, .greaterEqual, .less, .lessEqual], .binary⟩,
   ⟨[.bangEqual, .equalEqual], .binary⟩,
   ⟨[.andWord], .logical⟩,
   ⟨[.orWord], .logical⟩]

def unaryOperators : List Kind := [.bang, .minus]

def maxNesting : Nat := 100

namespace Reader

/-- Joins further operands to `left` while an operator of the level is next. Every
    operator is a token, so a list as long as the tokens bounds the steps. -/
def chainFrom (level : Level) (operand : Reader Expr) : List Token → Expr → Reader Expr
  | _ :: bound, left, op :: rest =>
    if op.kind ∈ level.operators then
      match operand rest with
      | .ok right rest => chainFrom level operand bound (level.join left op right) rest
      | .error e rest => .error e rest
    else .ok left (op :: rest)
  | _, left, rest => .ok left rest

def chain (level : Level) (operand : Reader Expr) : Reader Expr := fun tokens =>
  match operand tokens with
  | .ok left rest => chainFrom level operand rest left rest
  | .error e rest => .error e rest

def joined (levels : List Level) (operand : Reader Expr) : Reader Expr :=
  levels.foldl (fun reader level => chain level reader) operand

def literal (value : Value) : Reader Expr := do
  let _ ← advance
  return .literal value

def primary (inner : Reader Expr) : Reader Expr := fun tokens =>
  match tokens with
  | [] => .error (.lexical 0 .endOfInput) []
  | t :: _ =>
    match t.kind with
    | .trueWord => literal (.bool true) tokens
    | .falseWord => literal (.bool false) tokens
    | .nilWord => literal .nil tokens
    | .number x => literal (.number x) tokens
    | .string s => literal (.string s) tokens
    | .identifier => (.var <$> advance : Reader Expr) tokens
    | .leftParen =>
      (do
        let _ ← advance
        let e ← inner
        let _ ← expect .rightParen .parenAfterExpression
        return .grouping e : Reader Expr) tokens
    | _ => fail .expression tokens

def unary (operand inner : Reader Expr) : Reader Expr := fun tokens =>
  match tokens with
  | op :: rest =>
    if op.kind ∈ unaryOperators then (.unary op <$> operand : Reader Expr) rest
    else primary inner tokens
  | [] => primary inner []

/-- A target is told only by the `=` after it, so it is read as an expression first.
    The error of a bad target points at the `=`, which is taken by then. -/
def assignment (target value : Reader Expr) : Reader Expr := fun tokens =>
  match target tokens with
  | .ok left (op :: rest) =>
    if op.kind = .equal then
      match left with
      | .var name => (.assign name <$> value : Reader Expr) rest
      | _ => .error (.grammar op .assignmentTarget) rest
    else .ok left (op :: rest)
  | other => other

mutual

def operand : Nat → Reader Expr
  | 0 => fail .nesting
  | n + 1 => unary (operand n) (nested n)

def nested : Nat → Reader Expr
  | 0 => fail .nesting
  | n + 1 => assignment (joined levels (unary (operand n) (nested n))) (nested n)

end

/-- An expression that is itself in no other counts as one nesting. -/
def expression : Reader Expr := nested (maxNesting + 1)

end Reader

end Blockscript

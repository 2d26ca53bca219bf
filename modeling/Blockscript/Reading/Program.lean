import Blockscript.Reading.Expr
import Blockscript.Reading.Recovery

/-!
Reading statements and programs. One bad declaration costs one error and itself:
the declarations around it, and a block it stands in, are kept. There is no tree
for a `for`; it becomes a loop and the blocks around it.
-/
namespace Blockscript

/-- The loop that a `for` stands for. The step runs after the body, in a block
    with it; the initial statement runs once, in a block with the loop. -/
def Stmt.forLoop (initial : Option Stmt) (condition : Expr) (step : Option Expr)
    (body : Stmt) : Stmt :=
  let body :=
    match step with
    | some e => .block [body, .expression e]
    | none => body
  match initial with
  | some s => .block [s, .loop condition body]
  | none => .loop condition body

namespace Reader

def declaration : Reader Stmt := do
  let name ← expect .identifier .variableName
  let initial ← if ← accept .equal then some <$> expression else pure none
  let _ ← expect .semicolon .semicolonAfterVariable
  return .declare name initial

def printed : Reader Stmt := do
  let e ← expression
  let _ ← expect .semicolon .semicolonAfterValue
  return .print e

def evaluated : Reader Stmt := do
  let e ← expression
  let _ ← expect .semicolon .semicolonAfterExpression
  return .expression e

def condition (before after : GrammarFault) : Reader Expr := do
  let _ ← expect .leftParen before
  let e ← expression
  let _ ← expect .rightParen after
  return e

def initialClause : Reader (Option Stmt) := do
  if ← accept .semicolon then return none
  else if ← accept .varWord then return some (← declaration)
  else return some (← evaluated)

def conditionClause : Reader Expr := do
  let e ← if ← nextIs .semicolon then pure (.literal (.bool true)) else expression
  let _ ← expect .semicolon .semicolonAfterCondition
  return e

def stepClause : Reader (Option Expr) := do
  let e ← if ← nextIs .rightParen then pure none else some <$> expression
  let _ ← expect .rightParen .parenAfterClauses
  return e

end Reader

namespace PartReader

def forStatement (statement : PartReader Stmt) : PartReader Stmt := do
  let _ ← Reader.expect .leftParen .parenAfterFor
  let initial ← Reader.initialClause
  let condition ← Reader.conditionClause
  let step ← Reader.stepClause
  return .forLoop initial condition step (← statement)

def ifStatement (statement : PartReader Stmt) : PartReader Stmt := do
  let condition ← Reader.condition .parenAfterIf .parenAfterIfCondition
  let accepted ← statement
  let rejected ← if ← Reader.accept .elseWord then some <$> statement else pure none
  return .branch condition accepted rejected

def whileStatement (statement : PartReader Stmt) : PartReader Stmt := do
  let condition ← Reader.condition .parenAfterWhile .parenAfterCondition
  return .loop condition (← statement)

def blockStatement (body : Recovering (List Stmt)) : PartReader Stmt := do
  let body ← body
  let _ ← Reader.expect .rightBrace .braceAfterBlock
  return .block body

/-- A statement by its first word; `statement` reads the statements inside it, and
    `body` the declarations of a block. -/
def statementOf (statement : PartReader Stmt) (body : Recovering (List Stmt)) :
    PartReader Stmt := fun tokens =>
  match tokens with
  | t :: rest =>
    match t.kind with
    | .forWord => forStatement statement rest
    | .ifWord => ifStatement statement rest
    | .whileWord => whileStatement statement rest
    | .printWord => (Reader.printed : PartReader Stmt) rest
    | .leftBrace => blockStatement body rest
    | _ => (Reader.evaluated : PartReader Stmt) tokens
  | [] => (Reader.evaluated : PartReader Stmt) []

def declarationOf (statement : PartReader Stmt) : PartReader Stmt := fun tokens =>
  match tokens with
  | t :: rest =>
    if t.kind = .varWord then (Reader.declaration : PartReader Stmt) rest else statement tokens
  | [] => statement []

end PartReader

namespace Recovering

/-- Declarations up to a token that closes them or the end. Every declaration takes
    a token, so a list as long as the tokens bounds their number. -/
def itemsWithin (declaration : Recovering (Option Stmt)) (closes : Kind → Bool) :
    List Token → Recovering (List Stmt)
  | _ :: bound, t :: rest =>
    if t.isEnd || closes t.kind then ⟨[], t :: rest, []⟩
    else
      (do
        let item ← declaration
        let more ← itemsWithin declaration closes bound
        return item.toList ++ more : Recovering (List Stmt)) (t :: rest)
  | _, tokens => ⟨[], tokens, []⟩

def items (declaration : Recovering (Option Stmt)) (closes : Kind → Bool) :
    Recovering (List Stmt) :=
  fun tokens => itemsWithin declaration closes tokens tokens

end Recovering

namespace PartReader

/-- A statement of at most as many tokens as the bound has. A statement inside
    another stands behind its first word, so it has fewer. -/
def statementWithin : List Token → PartReader Stmt
  | _ :: bound =>
    let inner := statementWithin bound
    statementOf inner (Recovering.items (recover (declarationOf inner)) (· = .rightBrace))
  | [] => Reader.evaluated

def statement : PartReader Stmt := fun tokens => statementWithin tokens tokens

def declaration : PartReader Stmt := declarationOf statement

end PartReader

def Program.read : Recovering Program :=
  Recovering.items (recover PartReader.declaration) fun _ => false

end Blockscript

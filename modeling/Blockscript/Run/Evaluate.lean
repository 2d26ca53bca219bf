import Blockscript.Error
import Blockscript.Program.Basic
import Blockscript.Scope.Chain

/-!
The value of an expression. Operands are evaluated from left to right, and both
operands of a binary operator before it looks at either. The only effects are
assignments; they stay when evaluation fails later.
-/
namespace Blockscript

abbrev Evaluation := EStateM Error Chain

namespace Value

def onNumbers (op : Token) (f : Double → Double → Value) : Value → Value → Except Error Value
  | number x, number y => .ok (f x y)
  | _, _ => .error (.type op .numbersNeeded)

def plus (op : Token) : Value → Value → Except Error Value
  | number x, number y => .ok (.number (x + y))
  | string s, string t => .ok (.string (s ++ t))
  | _, _ => .error (.type op .numbersOrStringsNeeded)

def binary (op : Token) (left right : Value) : Except Error Value :=
  match op.kind with
  | .plus => plus op left right
  | .minus => onNumbers op (fun x y => number (x - y)) left right
  | .star => onNumbers op (fun x y => number (x * y)) left right
  | .slash => onNumbers op (fun x y => number (x / y)) left right
  | .less => onNumbers op (fun x y => bool (x.lt y)) left right
  | .lessEqual => onNumbers op (fun x y => bool (x.le y)) left right
  | .greater => onNumbers op (fun x y => bool (y.lt x)) left right
  | .greaterEqual => onNumbers op (fun x y => bool (y.le x)) left right
  | .equalEqual => .ok (bool (left.equals right))
  | .bangEqual => .ok (bool (!left.equals right))
  | _ => .error (.type op .binaryOperator)

def unary (op : Token) (operand : Value) : Except Error Value :=
  match op.kind, operand with
  | .bang, v => .ok (bool (!v.isTruthy))
  | .minus, number x => .ok (number (-x))
  | .minus, _ => .error (.type op .numberNeeded)
  | _, _ => .error (.type op .unaryOperator)

variable {op : Token} {v w : Value} {e : Error}

theorem onNumbers_fault {f : Double → Double → Value} (failed : onNumbers op f v w = .error e) :
    ∃ fault, e = .type op fault := by
  unfold onNumbers at failed
  split at failed
  · cases failed
  · cases failed
    exact ⟨_, rfl⟩

theorem plus_fault (failed : plus op v w = .error e) : ∃ fault, e = .type op fault := by
  unfold plus at failed
  split at failed
  all_goals cases failed
  exact ⟨_, rfl⟩

theorem binary_fault (failed : v.binary op w = .error e) : ∃ fault, e = .type op fault := by
  unfold binary at failed
  split at failed
  · exact plus_fault failed
  all_goals first
    | exact onNumbers_fault failed
    | cases failed; exact ⟨_, rfl⟩
    | cases failed

theorem unary_fault (failed : v.unary op = .error e) : ∃ fault, e = .type op fault := by
  unfold unary at failed
  split at failed
  all_goals cases failed
  all_goals exact ⟨_, rfl⟩

end Value

namespace Evaluation

def ofExcept (result : Except Error Value) : Evaluation Value := fun c =>
  match result with
  | .ok v => .ok v c
  | .error e => .error e c

def lookup (name : Token) : Evaluation Value := fun c =>
  match c.get? name.lexeme with
  | some v => .ok v c
  | none => .error (.undefined name) c

def assign (name : Token) (value : Value) : Evaluation Value := fun c =>
  match c.assign? name.lexeme value with
  | some c => .ok value c
  | none => .error (.undefined name) c

end Evaluation

/-- Logical operators give one of their operands as it is, and evaluate the right
    one only if the left one does not settle the answer. -/
def Expr.evaluate : Expr → Evaluation Value
  | .literal value => pure value
  | .grouping inner => inner.evaluate
  | .unary op operand => do
    let v ← operand.evaluate
    Evaluation.ofExcept (v.unary op)
  | .binary left op right => do
    let v ← left.evaluate
    let w ← right.evaluate
    Evaluation.ofExcept (v.binary op w)
  | .logical left op right => do
    let v ← left.evaluate
    match op.kind, v.isTruthy with
    | .orWord, true => return v
    | .andWord, false => return v
    | .orWord, false => right.evaluate
    | .andWord, true => right.evaluate
    | _, _ => throw (.type op .logicalOperator)
  | .var name => Evaluation.lookup name
  | .assign name value => do
    let v ← value.evaluate
    Evaluation.assign name v

end Blockscript

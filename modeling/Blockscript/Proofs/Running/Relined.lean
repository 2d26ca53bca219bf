import Blockscript.Proofs.Reading.Relined
import Blockscript.Run.Execute

/-!
Running trees that bear other lines. Lines are told by errors and play no part in anything else,
so the run does the same and its error tells the other line.
-/
namespace Blockscript

variable {α β : Type}

theorem adaptExcept_bind {ε ε' σ : Type} (f : ε → ε') (run : EStateM ε σ α)
    (next : α → EStateM ε σ β) :
    (run >>= next).adaptExcept f = run.adaptExcept f >>= fun v => (next v).adaptExcept f := by
  funext s
  simp only [Bind.bind, EStateM.bind, EStateM.adaptExcept]
  cases run s <;> rfl

variable (g : Nat → Nat)

namespace Value

theorem unary_relined (op : Token) (v : Value) :
    v.unary (op.relined g) = (v.unary op).mapError (Error.relined g) := by
  simp only [unary, Token.kind_relined]
  split <;> rfl

theorem binary_relined (op : Token) (v w : Value) :
    v.binary (op.relined g) w = (v.binary op w).mapError (Error.relined g) := by
  have numbers : ∀ f, onNumbers (op.relined g) f v w =
      (onNumbers op f v w).mapError (Error.relined g) := by
    intro f
    cases v <;> cases w <;> rfl
  have sums : plus (op.relined g) v w = (plus op v w).mapError (Error.relined g) := by
    cases v <;> cases w <;> rfl
  simp only [binary, Token.kind_relined]
  split
  · exact sums
  all_goals first | exact numbers _ | rfl

end Value

theorem Evaluation.ofExcept_relined (result : Except Error Value) :
    Evaluation.ofExcept (result.mapError (Error.relined g)) =
      (Evaluation.ofExcept result).adaptExcept (Error.relined g) := by
  cases result <;> rfl

theorem Evaluation.lookup_relined (name : Token) : Evaluation.lookup (name.relined g) =
    (Evaluation.lookup name).adaptExcept (Error.relined g) := by
  funext c
  have same : (name.relined g).lexeme = name.lexeme := rfl
  simp only [Evaluation.lookup, EStateM.adaptExcept, same]
  cases c.get? name.lexeme <;> rfl

theorem Evaluation.assign_relined (name : Token) (v : Value) :
    Evaluation.assign (name.relined g) v =
      (Evaluation.assign name v).adaptExcept (Error.relined g) := by
  funext c
  have same : (name.relined g).lexeme = name.lexeme := rfl
  simp only [Evaluation.assign, EStateM.adaptExcept, same]
  cases c.assign? name.lexeme v <;> rfl

theorem Expr.evaluate_relined (e : Expr) :
    (e.relined g).evaluate = e.evaluate.adaptExcept (Error.relined g) := by
  induction e with
  | literal value => rfl
  | grouping inner ih => exact ih
  | unary op operand ih =>
    simp only [Expr.relined, Expr.evaluate, adaptExcept_bind, ih, Value.unary_relined,
      Evaluation.ofExcept_relined]
  | binary left op right ihl ihr =>
    simp only [Expr.relined, Expr.evaluate, adaptExcept_bind, ihl, ihr, Value.binary_relined,
      Evaluation.ofExcept_relined]
  | logical left op right ihl ihr =>
    simp only [Expr.relined, Expr.evaluate, adaptExcept_bind, ihl, ihr, Token.kind_relined]
    congr
    funext v
    split <;> rfl
  | var name => exact Evaluation.lookup_relined g name
  | assign name value ih =>
    simp only [Expr.relined, Expr.evaluate, adaptExcept_bind, ih, Evaluation.assign_relined]

def Stop.relined : Stop → Stop
  | .failed e => .failed (e.relined g)
  | .outOfFuel => .outOfFuel

namespace Execution

theorem value_relined (e : Expr) :
    value (e.relined g) = (value e).adaptExcept (Stop.relined g) := by
  funext m
  simp only [value, Expr.evaluate_relined, EStateM.adaptExcept]
  cases e.evaluate m.scopes <;> rfl

theorem write_relined (text : String) : (write text).adaptExcept (Stop.relined g) = write text := by
  funext m
  simp only [write, EStateM.adaptExcept]
  rcases m.output.write text with ⟨output, _ | _⟩ <;> rfl

theorem inScope_relined (body : Execution Unit) :
    inScope (body.adaptExcept (Stop.relined g)) =
      (inScope body).adaptExcept (Stop.relined g) := by
  funext m
  simp only [inScope, EStateM.adaptExcept]
  cases body { m with scopes := m.scopes.enter } <;> rfl

theorem whileTrue_relined (condition : Execution Value) (body : Execution Unit) (fuel : Nat) :
    whileTrue (condition.adaptExcept (Stop.relined g))
        (body.adaptExcept (Stop.relined g)) fuel =
      (whileTrue condition body fuel).adaptExcept (Stop.relined g) := by
  induction fuel with
  | zero => rfl
  | succ fuel ih =>
    simp only [whileTrue, adaptExcept_bind, ih]
    congr
    funext v
    split
    · exact (adaptExcept_bind _ _ _).symm
    · rfl

end Execution

open Execution

mutual

theorem Stmt.execute_relined (fuel : Nat) : ∀ s : Stmt,
    (s.relined g).execute fuel = (s.execute fuel).adaptExcept (Stop.relined g)
  | .expression e => by
    simp only [Stmt.relined, Stmt.execute, value_relined, adaptExcept_bind]
    rfl
  | .print e => by
    simp only [Stmt.relined, Stmt.execute, value_relined, adaptExcept_bind, write_relined]
  | .declare name none => rfl
  | .declare name (some e) => by
    simp only [Stmt.relined, Stmt.execute, value_relined, adaptExcept_bind]
    rfl
  | .block body => by
    simp only [Stmt.relined, Stmt.execute, Stmt.executeAll_relined fuel body, inScope_relined]
  | .branch condition accepted none => by
    simp only [Stmt.relined, Stmt.execute, value_relined, adaptExcept_bind,
      accepted.execute_relined fuel]
    congr
    funext v
    split <;> rfl
  | .branch condition accepted (some rejected) => by
    simp only [Stmt.relined, Stmt.execute, value_relined, adaptExcept_bind,
      accepted.execute_relined fuel, rejected.execute_relined fuel]
    congr
    funext v
    split <;> rfl
  | .loop condition body => by
    simp only [Stmt.relined, Stmt.execute, value_relined, body.execute_relined fuel, whileTrue_relined]

theorem Stmt.executeAll_relined (fuel : Nat) : ∀ body : List Stmt,
    Stmt.executeAll fuel (Stmt.allRelined g body) =
      (Stmt.executeAll fuel body).adaptExcept (Stop.relined g)
  | [] => rfl
  | s :: rest => by
    simp only [Stmt.allRelined, Stmt.executeAll, adaptExcept_bind, s.execute_relined fuel,
      Stmt.executeAll_relined fuel rest]

end

end Blockscript

import Blockscript.Proofs.Scoping.Hops
import Blockscript.Run.Execute

/-!
Programs whose names are resolved before they run. Each use of a variable bears the number
of scopes out to its binding, told from the text alone, and a run goes by that number. It
goes astray where the number is wrong, which is no error that a program has.
-/
namespace Blockscript

namespace Resolved

inductive Expr where
  | literal (value : Value)
  | grouping (inner : Expr)
  | unary (op : Token) (operand : Expr)
  | binary (left : Expr) (op : Token) (right : Expr)
  | logical (left : Expr) (op : Token) (right : Expr)
  | var (name : Token) (hops : Option Nat)
  | assign (name : Token) (hops : Option Nat) (value : Expr)
  deriving DecidableEq, Repr

inductive Stmt where
  | expression (e : Expr)
  | print (e : Expr)
  | declare (name : Token) (initial : Option Expr)
  | block (body : List Stmt)
  | branch (condition : Expr) (accepted : Stmt) (rejected : Option Stmt)
  | loop (condition : Expr) (body : Stmt)
  deriving Repr

end Resolved

def Expr.resolve (names : Names) : Expr → Resolved.Expr
  | .literal value => .literal value
  | .grouping inner => .grouping (inner.resolve names)
  | .unary op operand => .unary op (operand.resolve names)
  | .binary left op right => .binary (left.resolve names) op (right.resolve names)
  | .logical left op right => .logical (left.resolve names) op (right.resolve names)
  | .var name => .var name (names.hops? name.lexeme)
  | .assign name value => .assign name (names.hops? name.lexeme) (value.resolve names)

mutual

def Stmt.resolve (names : Names) : Stmt → Resolved.Stmt × Names
  | .expression e => (.expression (e.resolve names), names)
  | .print e => (.print (e.resolve names), names)
  | .declare name none => (.declare name none, names.declare name.lexeme)
  | .declare name (some e) => (.declare name (some (e.resolve names)), names.declare name.lexeme)
  | .block body =>
    let inner := Stmt.resolveAll ([] :: names) body
    (.block inner.1, inner.2.tail)
  | .branch condition accepted none =>
    let first := accepted.resolve names
    (.branch (condition.resolve names) first.1 none, first.2)
  | .branch condition accepted (some rejected) =>
    let first := accepted.resolve names
    let second := rejected.resolve first.2
    (.branch (condition.resolve names) first.1 (some second.1), second.2)
  | .loop condition body =>
    let inner := body.resolve names
    (.loop (condition.resolve names) inner.1, inner.2)
termination_by structural s => s

def Stmt.resolveAll (names : Names) : List Stmt → List Resolved.Stmt × Names
  | [] => ([], names)
  | s :: rest =>
    let first := s.resolve names
    let more := Stmt.resolveAll first.2 rest
    (first.1 :: more.1, more.2)
termination_by structural ss => ss

end

def Program.resolve (program : Program) : List Resolved.Stmt := (Stmt.resolveAll [[]] program).1

namespace Resolved

inductive Halt (ε : Type) where
  | usual (e : ε)
  | astray

def usually {ε σ α : Type} (step : EStateM ε σ α) : EStateM (Halt ε) σ α := step.adaptExcept .usual

abbrev Evaluation := EStateM (Halt Error) Chain

abbrev Execution := EStateM (Halt Stop) Machine

/-- How a use of a variable, with its hops, comes to the binding. -/
structure Access where
  get : Token → Option Nat → Evaluation Value
  set : Token → Option Nat → Value → Evaluation Value

namespace Access

/-- The scope is found by counting alone. Without a count the variable is undefined. -/
def byHops : Access where
  get name
    | none => throw (.usual (.undefined name))
    | some hops => fun c =>
      match c.at? hops name.lexeme with
      | some v => .ok v c
      | none => .error .astray c
  set name
    | none, _ => throw (.usual (.undefined name))
    | some hops, value => fun c =>
      match c.assignAt? hops name.lexeme value with
      | some c => .ok value c
      | none => .error .astray c

/-- The plain run, watched: the nearest binding has to be as far away as was resolved. -/
def watched : Access where
  get name hops := fun c =>
    if c.hops? name.lexeme = hops then usually (Blockscript.Evaluation.lookup name) c
    else .error .astray c
  set name hops value := fun c =>
    if c.hops? name.lexeme = hops then usually (Blockscript.Evaluation.assign name value) c
    else .error .astray c

end Access

variable (access : Access)

def Expr.evaluate : Expr → Evaluation Value
  | .literal value => pure value
  | .grouping inner => inner.evaluate
  | .unary op operand => do
    let v ← operand.evaluate
    usually (Blockscript.Evaluation.ofExcept (v.unary op))
  | .binary left op right => do
    let v ← left.evaluate
    let w ← right.evaluate
    usually (Blockscript.Evaluation.ofExcept (v.binary op w))
  | .logical left op right => do
    let v ← left.evaluate
    match op.kind, v.isTruthy with
    | .orWord, true => return v
    | .andWord, false => return v
    | .orWord, false => right.evaluate
    | .andWord, true => right.evaluate
    | _, _ => throw (.usual (.type op .logicalOperator))
  | .var name hops => access.get name hops
  | .assign name hops value => do
    let v ← value.evaluate
    access.set name hops v

namespace Execution

def value (e : Expr) : Execution Value := fun m =>
  match e.evaluate access m.scopes with
  | .ok v scopes => .ok v { m with scopes }
  | .error (.usual e) scopes => .error (.usual (.failed e)) { m with scopes }
  | .error .astray scopes => .error .astray { m with scopes }

def inScope (body : Execution Unit) : Execution Unit := fun m =>
  match body { m with scopes := m.scopes.enter } with
  | .ok u m => .ok u { m with scopes := m.scopes.leave }
  | .error e m => .error e { m with scopes := m.scopes.leave }

def whileTrue (condition : Execution Value) (body : Execution Unit) : Nat → Execution Unit
  | 0 => throw (.usual .outOfFuel)
  | fuel + 1 => do
    let v ← condition
    if v.isTruthy then
      body
      whileTrue condition body fuel

end Execution

mutual

def Stmt.execute (fuel : Nat) : Stmt → Execution Unit
  | .expression e => do let _ ← Execution.value access e
  | .print e => do
    let v ← Execution.value access e
    usually (Blockscript.Execution.write (v.text ++ "\n"))
  | .declare name none => usually (Blockscript.Execution.declare name .nil)
  | .declare name (some e) => do
    let v ← Execution.value access e
    usually (Blockscript.Execution.declare name v)
  | .block body => Execution.inScope (Stmt.executeAll fuel body)
  | .branch condition accepted none => do
    let v ← Execution.value access condition
    if v.isTruthy then accepted.execute fuel
  | .branch condition accepted (some rejected) => do
    let v ← Execution.value access condition
    if v.isTruthy then accepted.execute fuel else rejected.execute fuel
  | .loop condition body =>
    Execution.whileTrue (Execution.value access condition) (body.execute fuel) fuel
termination_by structural s => s

def Stmt.executeAll (fuel : Nat) : List Stmt → Execution Unit
  | [] => pure ()
  | s :: rest => do
    s.execute fuel
    Stmt.executeAll fuel rest
termination_by structural ss => ss

end

end Resolved

end Blockscript

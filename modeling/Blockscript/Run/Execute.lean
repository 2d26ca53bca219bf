import Blockscript.Run.Evaluate
import Blockscript.Run.Output

/-!
Running statements. Fuel bounds the rounds of every single loop, so a program that
ends does so with all fuel from some amount on. Running out of fuel is no error of
the program, and keeps what the program did until then.
-/
namespace Blockscript

structure Machine where
  scopes : Chain
  output : Output

def Machine.start (room : Option Nat) : Machine := ⟨.global, .empty room⟩

inductive Stop where
  | failed (e : Error)
  | outOfFuel
  deriving Repr

abbrev Execution := EStateM Stop Machine

namespace Execution

def value (e : Expr) : Execution Value := fun m =>
  match e.evaluate m.scopes with
  | .ok v scopes => .ok v { m with scopes }
  | .error e scopes => .error (.failed e) { m with scopes }

def write (text : String) : Execution Unit := fun m =>
  match m.output.write text with
  | (output, true) => .ok () { m with output }
  | (output, false) => .error (.failed (.output .full)) { m with output }

def declare (name : Token) (value : Value) : Execution Unit := fun m =>
  .ok () { m with scopes := m.scopes.declare name.lexeme value }

/-- Runs `body` in a scope of its own, which is left on every exit. -/
def inScope (body : Execution Unit) : Execution Unit := fun m =>
  match body { m with scopes := m.scopes.enter } with
  | .ok u m => .ok u { m with scopes := m.scopes.leave }
  | .error e m => .error e { m with scopes := m.scopes.leave }

def whileTrue (condition : Execution Value) (body : Execution Unit) : Nat → Execution Unit
  | 0 => throw .outOfFuel
  | fuel + 1 => do
    let v ← condition
    if v.isTruthy then
      body
      whileTrue condition body fuel

end Execution

mutual

def Stmt.execute (fuel : Nat) : Stmt → Execution Unit
  | .expression e => do let _ ← Execution.value e
  | .print e => do
    let v ← Execution.value e
    Execution.write (v.text ++ "\n")
  | .declare name none => Execution.declare name .nil
  | .declare name (some e) => do
    let v ← Execution.value e
    Execution.declare name v
  | .block body => Execution.inScope (Stmt.executeAll fuel body)
  | .branch condition accepted none => do
    let v ← Execution.value condition
    if v.isTruthy then accepted.execute fuel
  | .branch condition accepted (some rejected) => do
    let v ← Execution.value condition
    if v.isTruthy then accepted.execute fuel else rejected.execute fuel
  | .loop condition body => Execution.whileTrue (Execution.value condition) (body.execute fuel) fuel
termination_by structural s => s

def Stmt.executeAll (fuel : Nat) : List Stmt → Execution Unit
  | [] => pure ()
  | s :: rest => do
    s.execute fuel
    Stmt.executeAll fuel rest
termination_by structural ss => ss

end

theorem Stmt.executeAll_singleton (fuel : Nat) (s : Stmt) :
    Stmt.executeAll fuel [s] = s.execute fuel :=
  bind_pure (s.execute fuel)

end Blockscript

import Blockscript.Proofs.Reading.Parts
import Blockscript.Proofs.Running.Frames
import Mathlib.Data.List.Forall2

/-!
Runs that come upon some names only. Such a run is the same in any two states that agree on
these names, and it leaves all other names alone.
-/
namespace Blockscript

open Primitives (Alike Mirrors Simulates Frames machine stateAfter mirrors_pure mirrors_throw)

def Expr.names : Expr → List String
  | .literal _ => []
  | .grouping inner => inner.names
  | .unary _ operand => operand.names
  | .binary left _ right | .logical left _ right => left.names ++ right.names
  | .var name => [name.lexeme]
  | .assign name value => name.lexeme :: value.names

def Stmt.Within (names : List String) : List Stmt → Prop :=
  Stmt.AllEvery (fun e => e.names ⊆ names) (·.lexeme ∈ names)

namespace Primitives

variable {σ : Type} (names : List String) (p : Primitives σ)

/-- The run in which all other names are undefined, and are not declared. -/
def confined : Primitives σ where
  lookup name := if name.lexeme ∈ names then p.lookup name else throw (.failed (.undefined name))
  assign name v :=
    if name.lexeme ∈ names then p.assign name v else throw (.failed (.undefined name))
  declare name v s := if name.lexeme ∈ names then p.declare name v s else s
  write := p.write
  enter := p.enter
  leave := p.leave

variable {names}

theorem evaluate_confined (e : Expr) (within_ : e.names ⊆ names) :
    (p.confined names).evaluate e = p.evaluate e := by
  induction e with
  | literal value => rfl
  | grouping inner ih => exact ih within_
  | unary op operand ih => simp only [evaluate, ih within_]
  | binary left op right ihl ihr =>
    obtain ⟨first, second⟩ := List.append_subset.mp within_
    simp only [evaluate, ihl first, ihr second]
  | logical left op right ihl ihr =>
    obtain ⟨first, second⟩ := List.append_subset.mp within_
    simp only [evaluate, ihl first, ihr second]
  | var name =>
    have known : name.lexeme ∈ names := within_ List.mem_cons_self
    simp only [evaluate, confined, known, ↓reduceIte]
  | assign name value ih =>
    obtain ⟨known, more⟩ := List.cons_subset.mp within_
    simp only [evaluate, ih more]
    simp only [confined, known, ↓reduceIte]

theorem bind_confined (name : Token) (v : Value) (known : name.lexeme ∈ names) :
    (p.confined names).bind name v = p.bind name v := by
  funext s
  simp only [bind, confined, known, ↓reduceIte]

mutual

theorem execute_confined (fuel : Nat) : ∀ s : Stmt,
    s.Every (fun e => e.names ⊆ names) (·.lexeme ∈ names) →
    (p.confined names).execute fuel s = p.execute fuel s
  | .expression e, within_ => by simp only [execute, evaluate_confined p e within_]
  | .print e, within_ => by
    simp only [execute, evaluate_confined p e within_]
    rfl
  | .declare name none, known => by simp only [execute, bind_confined p name _ known]
  | .declare name (some e), ⟨known, within_⟩ => by
    simp only [execute, evaluate_confined p e within_, bind_confined p name _ known]
  | .block body, within_ => by
    simp only [execute, executeAll_confined fuel body within_]
    rfl
  | .branch condition accepted none, ⟨first, second⟩ => by
    simp only [execute, evaluate_confined p condition first, execute_confined fuel accepted second]
  | .branch condition accepted (some rejected), ⟨first, second, third⟩ => by
    simp only [execute, evaluate_confined p condition first, execute_confined fuel accepted second,
      execute_confined fuel rejected third]
  | .loop condition body, ⟨first, second⟩ => by
    simp only [execute, evaluate_confined p condition first, execute_confined fuel body second]

theorem executeAll_confined (fuel : Nat) : ∀ body : List Stmt, Stmt.Within names body →
    (p.confined names).executeAll fuel body = p.executeAll fuel body
  | [], _ => rfl
  | s :: rest, ⟨first, more⟩ => by
    simp only [executeAll, execute_confined fuel s first, executeAll_confined fuel rest more]

end

end Primitives

end Blockscript

import Blockscript.Proofs.Reading.Parts
import Blockscript.Run.Execute

/-!
What can stop a run. An expression fails at an operator or a name in it, a program at one of
its expressions or where it prints; and all these are runtime errors. No error of a source
comes up while a program runs.
-/
namespace Blockscript

variable {ε σ α β : Type}

def Raises (known : ε → Prop) (step : EStateM ε σ α) : Prop :=
  ∀ s e s', step s = .error e s' → known e

section

variable {known wider : ε → Prop} {step : EStateM ε σ α} {next : α → EStateM ε σ β}

theorem raises_pure (value : α) : Raises known (pure value : EStateM ε σ α) := by
  rintro s e s' ⟨⟩

theorem raises_throw {e : ε} (h : known e) : Raises known (throw e : EStateM ε σ α) := by
  rintro s _ _ ⟨⟩
  exact h

theorem Raises.mono (h : Raises known step) (more : ∀ e, known e → wider e) : Raises wider step :=
  fun s e s' failed => more e (h s e s' failed)

theorem Raises.bind (first : Raises known step) (second : ∀ v, Raises known (next v)) :
    Raises known (step >>= next) := by
  intro s e s' failed
  simp only [Bind.bind, EStateM.bind] at failed
  cases run : step s with
  | ok v between =>
    rw [run] at failed
    exact second v between e s' failed
  | error e' between =>
    rw [run] at failed
    cases failed
    exact first s _ _ run

end

abbrev Error.Runtime (e : Error) : Prop := e.isRuntime = true

def Stop.By (known : Error → Prop) : Stop → Prop
  | .failed e => known e
  | .outOfFuel => True

abbrev Stop.Runtime : Stop → Prop := Stop.By Error.Runtime

/-- The errors that evaluating the expression can end with. -/
inductive Expr.Faults : Expr → Error → Prop where
  | grouping {inner : Expr} {e : Error} (inside : Faults inner e) : Faults (.grouping inner) e
  | operand {op : Token} {operand : Expr} {e : Error} (inside : Faults operand e) :
      Faults (.unary op operand) e
  | unary {op : Token} {operand : Expr} {v : Value} {e : Error} (failed : v.unary op = .error e) :
      Faults (.unary op operand) e
  | binaryLeft {op : Token} {left right : Expr} {e : Error} (inside : Faults left e) :
      Faults (.binary left op right) e
  | binaryRight {op : Token} {left right : Expr} {e : Error} (inside : Faults right e) :
      Faults (.binary left op right) e
  | binary {op : Token} {left right : Expr} {v w : Value} {e : Error}
      (failed : v.binary op w = .error e) : Faults (.binary left op right) e
  | logicalLeft {op : Token} {left right : Expr} {e : Error} (inside : Faults left e) :
      Faults (.logical left op right) e
  | logicalRight {op : Token} {left right : Expr} {e : Error} (inside : Faults right e) :
      Faults (.logical left op right) e
  | logical {op : Token} {left right : Expr} (unknown : op.kind ∉ [Kind.orWord, Kind.andWord]) :
      Faults (.logical left op right) (.type op .logicalOperator)
  | var {name : Token} : Faults (.var name) (.undefined name)
  | assigned {name : Token} {value : Expr} {e : Error} (inside : Faults value e) :
      Faults (.assign name value) e
  | assign {name : Token} {value : Expr} : Faults (.assign name value) (.undefined name)

namespace Evaluation

variable {known : Error → Prop}

theorem ofExcept_raises {result : Except Error Value} (h : ∀ e, result = .error e → known e) :
    Raises known (ofExcept result) := by
  intro c e c' failed
  unfold ofExcept at failed
  split at failed
  · cases failed
  · cases failed; exact h e rfl

theorem lookup_raises {name : Token} (h : known (.undefined name)) : Raises known (lookup name) := by
  intro c e c' failed
  unfold lookup at failed
  split at failed
  · cases failed
  · cases failed; exact h

theorem assign_raises {name : Token} (h : known (.undefined name)) (v : Value) :
    Raises known (assign name v) := by
  intro c e c' failed
  unfold assign at failed
  split at failed
  · cases failed
  · cases failed; exact h

end Evaluation

namespace Expr

theorem evaluate_raises (e : Expr) : Raises e.Faults e.evaluate := by
  induction e with
  | literal value => exact raises_pure value
  | grouping inner ih => exact ih.mono fun _ => .grouping
  | unary op operand ih =>
    refine (ih.mono fun _ => .operand).bind fun v => ?_
    exact Evaluation.ofExcept_raises fun _ => .unary
  | binary left op right ihl ihr =>
    refine (ihl.mono fun _ => .binaryLeft).bind fun v => ?_
    refine (ihr.mono fun _ => .binaryRight).bind fun w => ?_
    exact Evaluation.ofExcept_raises fun _ => .binary
  | logical left op right ihl ihr =>
    refine (ihl.mono fun _ => .logicalLeft).bind fun v => ?_
    split
    · exact raises_pure v
    · exact raises_pure v
    · exact ihr.mono fun _ => .logicalRight
    · exact ihr.mono fun _ => .logicalRight
    · rename_i or_true and_false or_false and_true
      refine raises_throw (.logical ?_)
      intro member
      rcases (by simpa using member) with same | same
      · cases truthy : v.isTruthy with
        | true => exact or_true same truthy
        | false => exact or_false same truthy
      · cases truthy : v.isTruthy with
        | true => exact and_true same truthy
        | false => exact and_false same truthy
  | var name => exact Evaluation.lookup_raises .var
  | assign name value ih =>
    exact (ih.mono fun _ => .assigned).bind fun v => Evaluation.assign_raises .assign v

theorem Faults.sort {e : Expr} {fault : Error} (h : e.Faults fault) :
    (∃ op type, fault = .type op type) ∨ ∃ name, fault = .undefined name := by
  induction h with
  | grouping _ ih | operand _ ih | binaryLeft _ ih | binaryRight _ ih | logicalLeft _ ih
  | logicalRight _ ih | assigned _ ih => exact ih
  | unary failed => exact .inl ⟨_, Value.unary_fault failed⟩
  | binary failed => exact .inl ⟨_, Value.binary_fault failed⟩
  | logical => exact .inl ⟨_, _, rfl⟩
  | var | assign => exact .inr ⟨_, rfl⟩

theorem Faults.runtime {e : Expr} {fault : Error} (h : e.Faults fault) : fault.Runtime := by
  rcases h.sort with ⟨_, _, rfl⟩ | ⟨_, rfl⟩ <;> rfl

end Expr

namespace Execution

variable {known : Error → Prop}

theorem value_raises {e : Expr} (h : ∀ fault, e.Faults fault → known fault) :
    Raises (Stop.By known) (value e) := by
  intro m stop m' failed
  unfold value at failed
  split at failed
  · cases failed
  · rename_i run
    cases failed
    exact h _ (e.evaluate_raises _ _ _ run)

theorem write_raises (full : known (.output .full)) (text : String) :
    Raises (Stop.By known) (write text) := by
  intro m stop m' failed
  unfold write at failed
  split at failed
  · cases failed
  · cases failed; exact full

theorem declare_raises (name : Token) (v : Value) : Raises (Stop.By known) (declare name v) := by
  intro m stop m' failed
  cases failed

theorem inScope_raises {body : Execution Unit} (inner : Raises (Stop.By known) body) :
    Raises (Stop.By known) (inScope body) := by
  intro m stop m' failed
  unfold inScope at failed
  split at failed
  · cases failed
  · rename_i run
    cases failed
    exact inner _ _ _ run

theorem whileTrue_raises {condition : Execution Value} {body : Execution Unit}
    (first : Raises (Stop.By known) condition) (inner : Raises (Stop.By known) body) (fuel : Nat) :
    Raises (Stop.By known) (whileTrue condition body fuel) := by
  induction fuel with
  | zero => exact raises_throw trivial
  | succ fuel ih =>
    refine first.bind fun v => ?_
    split
    · exact inner.bind fun _ => ih
    · exact raises_pure ()

end Execution

open Execution

abbrev Stmt.AllFault (known : Error → Prop) (body : List Stmt) : Prop :=
  Stmt.AllEvery (fun e => ∀ fault, e.Faults fault → known fault) (fun _ => True) body

mutual

theorem Stmt.execute_known {known : Error → Prop} (full : known (.output .full)) (fuel : Nat) :
    ∀ s : Stmt, s.Every (fun e => ∀ fault, e.Faults fault → known fault) (fun _ => True) →
    Raises (Stop.By known) (s.execute fuel)
  | .expression e, h => (value_raises h).bind fun _ => raises_pure ()
  | .print e, h => (value_raises h).bind fun v => write_raises full _
  | .declare name none, _ => declare_raises name _
  | .declare name (some e), ⟨_, h⟩ => (value_raises h).bind fun v => declare_raises name v
  | .block body, h => inScope_raises (Stmt.executeAll_known full fuel body h)
  | .branch condition accepted none, ⟨test, first⟩ => by
    refine (value_raises test).bind fun v => ?_
    split
    · exact accepted.execute_known full fuel first
    · exact raises_pure ()
  | .branch condition accepted (some rejected), ⟨test, first, second⟩ => by
    refine (value_raises test).bind fun v => ?_
    split
    · exact accepted.execute_known full fuel first
    · exact rejected.execute_known full fuel second
  | .loop condition body, ⟨test, inner⟩ =>
    whileTrue_raises (value_raises test) (body.execute_known full fuel inner) fuel

theorem Stmt.executeAll_known {known : Error → Prop} (full : known (.output .full)) (fuel : Nat) :
    ∀ body : List Stmt, Stmt.AllFault known body →
    Raises (Stop.By known) (Stmt.executeAll fuel body)
  | [], _ => raises_pure ()
  | s :: rest, ⟨first, more⟩ =>
    (s.execute_known full fuel first).bind fun _ => Stmt.executeAll_known full fuel rest more

end

theorem Stmt.executeAll_raises (fuel : Nat) (body : List Stmt) :
    Raises Stop.Runtime (Stmt.executeAll fuel body) := by
  have full : Error.Runtime (.output .full) := rfl
  refine Stmt.executeAll_known full fuel body ?_
  exact Stmt.allEvery_of_forall (fun _ _ => Expr.Faults.runtime) (fun _ => trivial) body

end Blockscript

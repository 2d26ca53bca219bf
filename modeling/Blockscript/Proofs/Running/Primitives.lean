import Blockscript.Run.Execute

/-!
The run of a program over any state. A run looks up, assigns and declares variables, writes,
and enters and leaves scopes, and does nothing else with its state; what holds of these few
steps holds of all runs.
-/
namespace Blockscript

/-- All that a run does with its state. To leave a scope, a run has the state it was entered
    from beside the present one. -/
structure Primitives (σ : Type) where
  lookup : Token → EStateM Stop σ Value
  assign : Token → Value → EStateM Stop σ Value
  declare : Token → Value → σ → σ
  write : String → EStateM Stop σ Unit
  enter : σ → σ
  leave : σ → σ → σ

namespace Primitives

variable {σ τ ι α β : Type}

section

variable (p : Primitives σ)

def ofExcept (result : Except Error Value) : EStateM Stop σ Value := fun s =>
  match result with
  | .ok v => .ok v s
  | .error e => .error (.failed e) s

def evaluate : Expr → EStateM Stop σ Value
  | .literal value => pure value
  | .grouping inner => evaluate inner
  | .unary op operand => do
    let v ← evaluate operand
    ofExcept (v.unary op)
  | .binary left op right => do
    let v ← evaluate left
    let w ← evaluate right
    ofExcept (v.binary op w)
  | .logical left op right => do
    let v ← evaluate left
    match op.kind, v.isTruthy with
    | .orWord, true => return v
    | .andWord, false => return v
    | .orWord, false => evaluate right
    | .andWord, true => evaluate right
    | _, _ => throw (.failed (.type op .logicalOperator))
  | .var name => p.lookup name
  | .assign name value => do
    let v ← evaluate value
    p.assign name v

def bind (name : Token) (value : Value) : EStateM Stop σ Unit := fun s =>
  .ok () (p.declare name value s)

def inScope (body : EStateM Stop σ Unit) : EStateM Stop σ Unit := fun s =>
  match body (p.enter s) with
  | .ok u s' => .ok u (p.leave s s')
  | .error e s' => .error e (p.leave s s')

def whileTrue (condition : EStateM Stop σ Value) (body : EStateM Stop σ Unit) :
    Nat → EStateM Stop σ Unit
  | 0 => throw .outOfFuel
  | fuel + 1 => do
    let v ← condition
    if v.isTruthy then
      body
      whileTrue condition body fuel

mutual

def execute (fuel : Nat) : Stmt → EStateM Stop σ Unit
  | .expression e => do let _ ← p.evaluate e
  | .print e => do
    let v ← p.evaluate e
    p.write (v.text ++ "\n")
  | .declare name none => p.bind name .nil
  | .declare name (some e) => do
    let v ← p.evaluate e
    p.bind name v
  | .block body => p.inScope (executeAll fuel body)
  | .branch condition accepted none => do
    let v ← p.evaluate condition
    if v.isTruthy then execute fuel accepted
  | .branch condition accepted (some rejected) => do
    let v ← p.evaluate condition
    if v.isTruthy then execute fuel accepted else execute fuel rejected
  | .loop condition body => whileTrue (p.evaluate condition) (execute fuel body) fuel
termination_by structural s => s

def executeAll (fuel : Nat) : List Stmt → EStateM Stop σ Unit
  | [] => pure ()
  | s :: rest => do
    execute fuel s
    executeAll fuel rest
termination_by structural ss => ss

end

end

def onScopes (step : Evaluation Value) : Execution Value := fun m =>
  match step m.scopes with
  | .ok v scopes => .ok v { m with scopes }
  | .error e scopes => .error (.failed e) { m with scopes }

def machine : Primitives Machine where
  lookup name := onScopes (Evaluation.lookup name)
  assign name v := onScopes (Evaluation.assign name v)
  declare name v m := { m with scopes := m.scopes.declare name.lexeme v }
  write := Execution.write
  enter m := { m with scopes := m.scopes.enter }
  leave _ m := { m with scopes := m.scopes.leave }

theorem lookup_machine (name : Token) (m : Machine) : machine.lookup name m =
    match m.scopes.get? name.lexeme with
    | some v => .ok v m
    | none => .error (.failed (.undefined name)) m := by
  simp only [machine, onScopes, Evaluation.lookup]
  cases m.scopes.get? name.lexeme <;> rfl

theorem assign_machine (name : Token) (v : Value) (m : Machine) : machine.assign name v m =
    match m.scopes.assign? name.lexeme v with
    | some scopes => .ok v { m with scopes }
    | none => .error (.failed (.undefined name)) m := by
  simp only [machine, onScopes, Evaluation.assign]
  cases m.scopes.assign? name.lexeme v <;> rfl

theorem onScopes_bind (step : Evaluation Value) (next : Value → Evaluation Value) :
    onScopes (step >>= next) = onScopes step >>= fun v => onScopes (next v) := by
  funext m
  simp only [onScopes, Bind.bind, EStateM.bind]
  cases step m.scopes <;> rfl

theorem onScopes_ofExcept (result : Except Error Value) :
    onScopes (Evaluation.ofExcept result) = ofExcept result := by
  funext m
  cases result <;> rfl

theorem evaluate_machine (e : Expr) : machine.evaluate e = Execution.value e := by
  have same : ∀ e : Expr, Execution.value e = onScopes e.evaluate := fun _ => rfl
  rw [same]
  induction e with
  | literal value => rfl
  | grouping inner ih => exact ih
  | unary op operand ih =>
    simp only [evaluate, Expr.evaluate, onScopes_bind, onScopes_ofExcept, ih]
  | binary left op right ihl ihr =>
    simp only [evaluate, Expr.evaluate, onScopes_bind, onScopes_ofExcept, ihl, ihr]
  | logical left op right ihl ihr =>
    simp only [evaluate, Expr.evaluate, onScopes_bind, ihl, ihr]
    congr
    funext v
    cases op.kind <;> cases v.isTruthy <;> rfl
  | var name => rfl
  | assign name value ih =>
    simp only [evaluate, Expr.evaluate, onScopes_bind, ih]
    rfl

theorem whileTrue_machine (condition : Execution Value) (body : Execution Unit) (fuel : Nat) :
    whileTrue condition body fuel = Execution.whileTrue condition body fuel := by
  induction fuel with
  | zero => rfl
  | succ fuel ih => simp only [whileTrue, Execution.whileTrue, ih]

theorem inScope_machine (body : Execution Unit) :
    machine.inScope body = Execution.inScope body := by
  funext m
  simp only [inScope, Execution.inScope, machine]
  cases body { m with scopes := m.scopes.enter } <;> rfl

mutual

theorem execute_machine (fuel : Nat) : ∀ s : Stmt, machine.execute fuel s = s.execute fuel
  | .expression e => by simp only [execute, Stmt.execute, evaluate_machine]
  | .print e => by simp only [execute, Stmt.execute, evaluate_machine]; rfl
  | .declare name none => rfl
  | .declare name (some e) => by simp only [execute, Stmt.execute, evaluate_machine]; rfl
  | .block body => by
    simp only [execute, Stmt.execute, executeAll_machine fuel body, inScope_machine]
  | .branch condition accepted none => by
    simp only [execute, Stmt.execute, evaluate_machine, execute_machine fuel accepted]
  | .branch condition accepted (some rejected) => by
    simp only [execute, Stmt.execute, evaluate_machine, execute_machine fuel accepted,
      execute_machine fuel rejected]
  | .loop condition body => by
    simp only [execute, Stmt.execute, evaluate_machine, execute_machine fuel body,
      whileTrue_machine]

theorem executeAll_machine (fuel : Nat) : ∀ body : List Stmt,
    machine.executeAll fuel body = Stmt.executeAll fuel body
  | [] => rfl
  | s :: rest => by
    simp only [executeAll, Stmt.executeAll, execute_machine fuel s, executeAll_machine fuel rest]

end

inductive Alike (R : σ → τ → Prop) : EStateM.Result Stop σ α → EStateM.Result Stop τ α → Prop where
  | ok {v : α} {s : σ} {t : τ} (left : R s t) : Alike R (.ok v s) (.ok v t)
  | error {e : Stop} {s : σ} {t : τ} (left : R s t) : Alike R (.error e s) (.error e t)

theorem Alike.weaken {R S : σ → τ → Prop} (weaker : ∀ s t, R s t → S s t)
    {result : EStateM.Result Stop σ α} {result' : EStateM.Result Stop τ α}
    (alike : Alike R result result') : Alike S result result' := by
  cases alike with
  | ok left => exact .ok (weaker _ _ left)
  | error left => exact .error (weaker _ _ left)

def Mirrors (R : σ → τ → Prop) (run : EStateM Stop σ α) (run' : EStateM Stop τ α) : Prop :=
  ∀ s t, R s t → Alike R (run s) (run' t)

section

variable {R : σ → τ → Prop} {run : EStateM Stop σ α} {run' : EStateM Stop τ α}
  {next : α → EStateM Stop σ β} {next' : α → EStateM Stop τ β}

theorem mirrors_pure (v : α) : Mirrors R (pure v) (pure v) := fun _ _ related => .ok related

theorem mirrors_throw (e : Stop) :
    Mirrors R (throw e : EStateM Stop σ α) (throw e) := fun _ _ related => .error related

theorem Mirrors.bind (first : Mirrors R run run') (second : ∀ v, Mirrors R (next v) (next' v)) :
    Mirrors R (run >>= next) (run' >>= next') := by
  intro s t related
  simp only [Bind.bind, EStateM.bind]
  have step := first s t related
  generalize run s = result at step ⊢
  generalize run' t = result' at step ⊢
  cases step with
  | ok left => exact second _ _ _ left
  | error left => exact .error left

theorem mirrors_ofExcept (result : Except Error Value) :
    Mirrors R (ofExcept result) (ofExcept result) := by
  intro s t related
  cases result with
  | ok v => exact .ok related
  | error e => exact .error related

theorem mirrors_whileTrue {condition : EStateM Stop σ Value} {condition' : EStateM Stop τ Value}
    {body : EStateM Stop σ Unit} {body' : EStateM Stop τ Unit} (first : Mirrors R condition condition')
    (inner : Mirrors R body body') (fuel : Nat) :
    Mirrors R (whileTrue condition body fuel) (whileTrue condition' body' fuel) := by
  induction fuel with
  | zero => exact mirrors_throw .outOfFuel
  | succ fuel ih =>
    refine first.bind fun v => ?_
    split
    · exact inner.bind fun _ => ih
    · exact mirrors_pure ()

end

section

variable {p : Primitives σ} {q : Primitives τ} {R : σ → τ → Prop}

theorem mirrors_evaluate (lookup : ∀ name, Mirrors R (p.lookup name) (q.lookup name))
    (assign : ∀ name v, Mirrors R (p.assign name v) (q.assign name v)) (e : Expr) :
    Mirrors R (p.evaluate e) (q.evaluate e) := by
  induction e with
  | literal value => exact mirrors_pure value
  | grouping inner ih => exact ih
  | unary op operand ih => exact ih.bind fun v => mirrors_ofExcept _
  | binary left op right ihl ihr => exact ihl.bind fun v => ihr.bind fun w => mirrors_ofExcept _
  | logical left op right ihl ihr =>
    refine ihl.bind fun v => ?_
    split
    · exact mirrors_pure v
    · exact mirrors_pure v
    · exact ihr
    · exact ihr
    · exact mirrors_throw _
  | var name => exact lookup name
  | assign name value ih => exact ih.bind fun v => assign name v

theorem mirrors_inScope {body : EStateM Stop σ Unit} {body' : EStateM Stop τ Unit}
    (entered : ∀ s t, R s t → ∃ S : σ → τ → Prop, S (p.enter s) (q.enter t) ∧
      Mirrors S body body' ∧ ∀ s' t', S s' t' → R (p.leave s s') (q.leave t t')) :
    Mirrors R (p.inScope body) (q.inScope body') := by
  intro s t related
  obtain ⟨S, inside, inner, outside⟩ := entered s t related
  have step := inner _ _ inside
  unfold Primitives.inScope
  generalize body (p.enter s) = result at step ⊢
  generalize body' (q.enter t) = result' at step ⊢
  cases step with
  | ok left => exact .ok (outside _ _ left)
  | error left => exact .error (outside _ _ left)

end

/-- Every step keeps the states related. What relates them inside a scope may be another
    relation of the family, which relates them as before when both leave. -/
structure Simulates (p : Primitives σ) (q : Primitives τ) (R : ι → σ → τ → Prop) : Prop where
  lookup : ∀ i name, Mirrors (R i) (p.lookup name) (q.lookup name)
  assign : ∀ i name v, Mirrors (R i) (p.assign name v) (q.assign name v)
  declare : ∀ i name v s t, R i s t → R i (p.declare name v s) (q.declare name v t)
  write : ∀ i text, Mirrors (R i) (p.write text) (q.write text)
  scope : ∀ i s t, R i s t → ∃ j, R j (p.enter s) (q.enter t) ∧
    ∀ s' t', R j s' t' → R i (p.leave s s') (q.leave t t')

namespace Simulates

variable {p : Primitives σ} {q : Primitives τ} {R : ι → σ → τ → Prop}

theorem evaluate (h : Simulates p q R) (i : ι) (e : Expr) :
    Mirrors (R i) (p.evaluate e) (q.evaluate e) :=
  mirrors_evaluate (h.lookup i) (h.assign i) e

theorem bind (h : Simulates p q R) (i : ι) (name : Token) (v : Value) :
    Mirrors (R i) (p.bind name v) (q.bind name v) :=
  fun s t related => .ok (h.declare i name v s t related)

theorem inScope (h : Simulates p q R) {body : EStateM Stop σ Unit} {body' : EStateM Stop τ Unit}
    (inner : ∀ j, Mirrors (R j) body body') (i : ι) :
    Mirrors (R i) (p.inScope body) (q.inScope body') := by
  refine mirrors_inScope fun s t related => ?_
  obtain ⟨j, inside, outside⟩ := h.scope i s t related
  exact ⟨R j, inside, inner j, outside⟩

mutual

theorem execute (h : Simulates p q R) (fuel : Nat) : ∀ (s : Stmt) (i : ι),
    Mirrors (R i) (p.execute fuel s) (q.execute fuel s)
  | .expression e, i => (h.evaluate i e).bind fun _ => mirrors_pure ()
  | .print e, i => (h.evaluate i e).bind fun v => h.write i _
  | .declare name none, i => h.bind i name .nil
  | .declare name (some e), i => (h.evaluate i e).bind fun v => h.bind i name v
  | .block body, i => h.inScope (h.executeAll fuel body) i
  | .branch condition accepted none, i => by
    refine (h.evaluate i condition).bind fun v => ?_
    split
    · exact h.execute fuel accepted i
    · exact mirrors_pure ()
  | .branch condition accepted (some rejected), i => by
    refine (h.evaluate i condition).bind fun v => ?_
    split
    · exact h.execute fuel accepted i
    · exact h.execute fuel rejected i
  | .loop condition body, i => mirrors_whileTrue (h.evaluate i condition) (h.execute fuel body i) fuel

theorem executeAll (h : Simulates p q R) (fuel : Nat) : ∀ (body : List Stmt) (i : ι),
    Mirrors (R i) (p.executeAll fuel body) (q.executeAll fuel body)
  | [], _ => mirrors_pure ()
  | s :: rest, i => (h.execute fuel s i).bind fun _ => h.executeAll fuel rest i

end

end Simulates

end Primitives

end Blockscript

import Blockscript.Proofs.Running.Frames

/-!
Two runs of which the second may be cut short by its writer. Up to there both go step by step
alike; from there on the first goes on alone, and what is known of the state that the second
was left in must stay true whatever the first does.
-/
namespace Blockscript

namespace Primitives

variable {σ τ α β : Type}

/-- Both end alike, by no fault of the writer, or the second is cut short. -/
inductive Shortened (R A : σ → τ → Prop) :
    EStateM.Result Stop σ α → EStateM.Result Stop τ α → Prop where
  | ok {v : α} {s : σ} {t : τ} (left : R s t) : Shortened R A (.ok v s) (.ok v t)
  | error {e : Stop} {s : σ} {t : τ} (other : ∀ fault, e ≠ .failed (.output fault))
      (left : R s t) : Shortened R A (.error e s) (.error e t)
  | short {result : EStateM.Result Stop σ α} {t : τ} (left : A (stateAfter result) t) :
      Shortened R A result (.error (.failed (.output .full)) t)

theorem Shortened.split {R A : σ → τ → Prop} {result : EStateM.Result Stop σ α}
    {result' : EStateM.Result Stop τ α} (h : Shortened R A result result') :
    (Alike R result result' ∧ ∀ fault s, result ≠ .error (.failed (.output fault)) s) ∨
      ∃ t, result' = .error (.failed (.output .full)) t ∧ A (stateAfter result) t := by
  cases h with
  | ok left => exact .inl ⟨.ok left, fun fault s => by nofun⟩
  | error other left =>
    refine .inl ⟨.error left, ?_⟩
    rintro fault s ⟨⟩
    exact other fault rfl
  | short left => exact .inr ⟨_, rfl, left⟩

/-- `R` relates the two as long as both run, and `A` the first one to the state that the second
    was left in. -/
structure Outruns (R A : σ → τ → Prop) (run : EStateM Stop σ α) (run' : EStateM Stop τ α) :
    Prop where
  shortened : ∀ s t, R s t → Shortened R A (run s) (run' t)
  keeps : ∀ s t, A s t → A (stateAfter (run s)) t

section

variable {R A : σ → τ → Prop} {run : EStateM Stop σ α} {run' : EStateM Stop τ α}
  {next : α → EStateM Stop σ β} {next' : α → EStateM Stop τ β}

theorem outruns_pure (v : α) :
    Outruns R A (pure v : EStateM Stop σ α) (pure v : EStateM Stop τ α) where
  shortened _ _ related := .ok related
  keeps _ _ held := held

theorem outruns_throw {e : Stop} (other : ∀ fault, e ≠ .failed (.output fault)) :
    Outruns R A (throw e : EStateM Stop σ α) (throw e : EStateM Stop τ α) where
  shortened _ _ related := .error other related
  keeps _ _ held := held

theorem Outruns.bind (first : Outruns R A run run')
    (second : ∀ v, Outruns R A (next v) (next' v)) :
    Outruns R A (run >>= next) (run' >>= next') where
  shortened := by
    intro s t related
    have step := first.shortened s t related
    simp only [Bind.bind, EStateM.bind]
    generalize run s = result at step ⊢
    generalize run' t = result' at step ⊢
    cases step with
    | ok left => exact (second _).shortened _ _ left
    | error other left => exact .error other left
    | short left =>
      -- the first run goes on alone
      refine .short ?_
      cases result with
      | ok v s' => exact (second v).keeps _ _ left
      | error e s' => exact left
  keeps := by
    intro s t held
    have step := first.keeps s t held
    simp only [Bind.bind, EStateM.bind]
    generalize run s = result at step ⊢
    cases result with
    | ok v s' => exact (second v).keeps _ _ step
    | error e s' => exact step

theorem outruns_ofExcept {result : Except Error Value}
    (other : ∀ e, result = .error e → ∀ fault, e ≠ .output fault) :
    Outruns R A (ofExcept result : EStateM Stop σ Value) (ofExcept result : EStateM Stop τ Value) where
  shortened := by
    intro s t related
    cases result with
    | ok v => exact .ok related
    | error e =>
      refine .error ?_ related
      intro fault same
      exact other e rfl fault (Stop.failed.inj same)
  keeps := by
    intro s t held
    cases result <;> exact held

theorem outruns_whileTrue {condition : EStateM Stop σ Value} {condition' : EStateM Stop τ Value}
    {body : EStateM Stop σ Unit} {body' : EStateM Stop τ Unit}
    (first : Outruns R A condition condition') (inner : Outruns R A body body') (fuel : Nat) :
    Outruns R A (whileTrue condition body fuel) (whileTrue condition' body' fuel) := by
  induction fuel with
  | zero => exact outruns_throw fun fault => by nofun
  | succ fuel ih =>
    apply first.bind
    intro v
    split
    · exact inner.bind fun _ => ih
    · exact outruns_pure ()

end

/-- Every step of the first keeps up with the second, and goes on alone behind it. -/
structure Overtakes (p : Primitives σ) (q : Primitives τ) (R A : σ → τ → Prop) : Prop where
  lookup : ∀ name, Outruns R A (p.lookup name) (q.lookup name)
  assign : ∀ name v, Outruns R A (p.assign name v) (q.assign name v)
  write : ∀ text, Outruns R A (p.write text) (q.write text)
  declare : ∀ name v s t, R s t → R (p.declare name v s) (q.declare name v t)
  declare_alone : ∀ name v s t, A s t → A (p.declare name v s) t
  enter : ∀ s t, R s t → R (p.enter s) (q.enter t)
  enter_alone : ∀ s t, A s t → A (p.enter s) t
  leave : ∀ s t s' t', R s' t' → R (p.leave s s') (q.leave t t')
  leave_short : ∀ s t s' t', A s' t' → A (p.leave s s') (q.leave t t')
  leave_alone : ∀ s s' t', A s' t' → A (p.leave s s') t'

namespace Overtakes

variable {p : Primitives σ} {q : Primitives τ} {R A : σ → τ → Prop}

theorem evaluate (h : Overtakes p q R A) (e : Expr) : Outruns R A (p.evaluate e) (q.evaluate e) := by
  induction e with
  | literal value => exact outruns_pure value
  | grouping inner ih => exact ih
  | unary op operand ih =>
    apply ih.bind
    intro v
    apply outruns_ofExcept
    intro e failed
    obtain ⟨_, rfl⟩ := Value.unary_fault failed
    nofun
  | binary left op right ihl ihr =>
    apply ihl.bind
    intro v
    apply ihr.bind
    intro w
    apply outruns_ofExcept
    intro e failed
    obtain ⟨_, rfl⟩ := Value.binary_fault failed
    nofun
  | logical left op right ihl ihr =>
    apply ihl.bind
    intro v
    split
    · exact outruns_pure v
    · exact outruns_pure v
    · exact ihr
    · exact ihr
    · exact outruns_throw fun fault => by nofun
  | var name => exact h.lookup name
  | assign name value ih => exact ih.bind fun v => h.assign name v

theorem bind (h : Overtakes p q R A) (name : Token) (v : Value) :
    Outruns R A (p.bind name v) (q.bind name v) where
  shortened s t related := .ok (h.declare name v s t related)
  keeps s t held := h.declare_alone name v s t held

theorem inScope (h : Overtakes p q R A) {body : EStateM Stop σ Unit} {body' : EStateM Stop τ Unit}
    (inner : Outruns R A body body') : Outruns R A (p.inScope body) (q.inScope body') where
  shortened := by
    intro s t related
    have step := inner.shortened _ _ (h.enter s t related)
    unfold Primitives.inScope
    generalize body (p.enter s) = result at step ⊢
    generalize body' (q.enter t) = result' at step ⊢
    cases step with
    | ok left => exact .ok (h.leave s t _ _ left)
    | error other left => exact .error other (h.leave s t _ _ left)
    | short left =>
      refine .short ?_
      cases result <;> exact h.leave_short s t _ _ left
  keeps := by
    intro s t held
    have step := inner.keeps _ _ (h.enter_alone s t held)
    unfold Primitives.inScope
    generalize body (p.enter s) = result at step ⊢
    cases result <;> exact h.leave_alone s _ _ step

mutual

theorem execute (h : Overtakes p q R A) (fuel : Nat) : ∀ s : Stmt,
    Outruns R A (p.execute fuel s) (q.execute fuel s)
  | .expression e => (h.evaluate e).bind fun _ => outruns_pure ()
  | .print e => (h.evaluate e).bind fun v => h.write _
  | .declare name none => h.bind name .nil
  | .declare name (some e) => (h.evaluate e).bind fun v => h.bind name v
  | .block body => h.inScope (h.executeAll fuel body)
  | .branch condition accepted none => by
    apply (h.evaluate condition).bind
    intro v
    split
    · exact h.execute fuel accepted
    · exact outruns_pure ()
  | .branch condition accepted (some rejected) => by
    apply (h.evaluate condition).bind
    intro v
    split
    · exact h.execute fuel accepted
    · exact h.execute fuel rejected
  | .loop condition body => outruns_whileTrue (h.evaluate condition) (h.execute fuel body) fuel

theorem executeAll (h : Overtakes p q R A) (fuel : Nat) : ∀ body : List Stmt,
    Outruns R A (p.executeAll fuel body) (q.executeAll fuel body)
  | [] => outruns_pure ()
  | s :: rest => (h.execute fuel s).bind fun _ => h.executeAll fuel rest

end

end Overtakes

end Primitives

end Blockscript

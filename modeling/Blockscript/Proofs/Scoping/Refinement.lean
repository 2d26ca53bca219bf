import Blockscript.Proofs.Scoping.Placed
import Blockscript.Proofs.Scoping.Resolved
import Blockscript.Proofs.Sessions.Compiling
import Mathlib

/-!
A run with resolved names follows the plain run step by step. The scopes of a machine hold
the names that the resolver has at that point of the text, in every round of every loop.
-/
namespace Blockscript

namespace Resolved

variable {ε σ α β : Type}

/-- From a state with `before`, both do the same, and what succeeds leads to `after`. -/
def Follows (before after : σ → Prop) (run' : EStateM (Halt ε) σ α) (run : EStateM ε σ α) : Prop :=
  ∀ s, before s → run' s = usually run s ∧ ∀ value s', run s = .ok value s' → after s'

section

variable {P Q R : σ → Prop}

theorem usually_of_ok {run : EStateM ε σ α} {s s' : σ} {value : α} (h : run s = .ok value s') :
    usually run s = .ok value s' := by
  simp only [usually, EStateM.adaptExcept, h]

theorem usually_of_error {run : EStateM ε σ α} {s s' : σ} {e : ε} (h : run s = .error e s') :
    usually run s = .error (.usual e) s' := by
  simp only [usually, EStateM.adaptExcept, h]

theorem Follows.bind {run : EStateM ε σ α} {run' : EStateM (Halt ε) σ α} {next : α → EStateM ε σ β}
    {next' : α → EStateM (Halt ε) σ β} (first : Follows P Q run' run)
    (second : ∀ value, Follows Q R (next' value) (next value)) :
    Follows P R (run' >>= next') (run >>= next) := by
  intro s holds
  obtain ⟨same, leads⟩ := first s holds
  simp only [Bind.bind, EStateM.bind, usually, EStateM.adaptExcept, same]
  cases done : run s with
  | ok value s' => exact second value s' (leads value s' done)
  | error e s' => exact ⟨rfl, fun _ _ failed => by cases failed⟩

theorem follows_usually {run : EStateM ε σ α}
    (leads : ∀ s value s', P s → run s = .ok value s' → Q s') : Follows P Q (usually run) run :=
  fun s holds => ⟨rfl, fun value s' => leads s value s' holds⟩

theorem follows_pure (value : α) :
    Follows P P (pure value : EStateM (Halt ε) σ α) (pure value) := by
  intro s holds
  refine ⟨rfl, ?_⟩
  rintro _ _ ⟨rfl⟩
  exact holds

theorem follows_throw (e : ε) :
    Follows P Q (throw (.usual e) : EStateM (Halt ε) σ α) (throw e) :=
  fun _ _ => ⟨rfl, fun _ _ failed => by cases failed⟩

end

/-- Whoever counts the scopes as they are comes to the nearest binding. -/
structure Access.Faithful (access : Access) : Prop where
  get : ∀ name c, access.get name (c.hops? name.lexeme) c =
    usually (Blockscript.Evaluation.lookup name) c
  set : ∀ name value c, access.set name (c.hops? name.lexeme) value c =
    usually (Blockscript.Evaluation.assign name value) c

theorem Access.watched_faithful : watched.Faithful where
  get name c := by simp only [watched, ↓reduceIte]
  set name value c := by simp only [watched, ↓reduceIte]

theorem Access.byHops_faithful : byHops.Faithful where
  get name c := by
    have found := c.get?_eq_at? name.lexeme
    cases counted : c.hops? name.lexeme with
    | none =>
      rw [counted, Option.bind_none] at found
      simp only [byHops, usually, EStateM.adaptExcept, Blockscript.Evaluation.lookup, found]
      rfl
    | some hops =>
      rw [counted, Option.bind_some] at found
      obtain ⟨value, held⟩ := c.at?_of_hops? counted
      rw [held] at found
      simp only [byHops, usually, EStateM.adaptExcept, Blockscript.Evaluation.lookup, found, held]
  set name value c := by
    have found := c.assign?_eq_assignAt? name.lexeme value
    cases counted : c.hops? name.lexeme with
    | none =>
      rw [counted, Option.bind_none] at found
      simp only [byHops, usually, EStateM.adaptExcept, Blockscript.Evaluation.assign, found]
      rfl
    | some hops =>
      rw [counted, Option.bind_some] at found
      obtain ⟨c', bound⟩ := c.assignAt?_of_hops? value counted
      rw [bound] at found
      simp only [byHops, usually, EStateM.adaptExcept, Blockscript.Evaluation.assign, found, bound]

variable {access : Access} {names : Names}

theorem lookup_keeps {name : Token} {c c' : Chain} {value : Value}
    (run : Blockscript.Evaluation.lookup name c = .ok value c') : c' = c := by
  unfold Blockscript.Evaluation.lookup at run
  split at run
  · cases run; rfl
  · cases run

theorem ofExcept_keeps {result : Except Error Value} {c c' : Chain} {value : Value}
    (run : Blockscript.Evaluation.ofExcept result c = .ok value c') : c' = c := by
  unfold Blockscript.Evaluation.ofExcept at run
  split at run
  · cases run; rfl
  · cases run

theorem assign_matches {name : Token} {c c' : Chain} {value value' : Value}
    (run : Blockscript.Evaluation.assign name value c = .ok value' c') (h : c.Matches names) :
    c'.Matches names := by
  unfold Blockscript.Evaluation.assign at run
  split at run
  · rename_i bound
    cases run
    exact h.assign bound
  · cases run

theorem ofExcept_follows (result : Except Error Value) :
    Follows (Chain.Matches names) (Chain.Matches names)
      (usually (Blockscript.Evaluation.ofExcept result)) (Blockscript.Evaluation.ofExcept result) :=
  follows_usually fun _ _ _ holds run => ofExcept_keeps run ▸ holds

theorem evaluate_follows (faithful : access.Faithful) (e : Blockscript.Expr) :
    Follows (Chain.Matches names) (Chain.Matches names) ((e.resolve names).evaluate access)
      e.evaluate := by
  induction e with
  | literal value => exact follows_pure value
  | grouping inner ih => exact ih
  | unary op operand ih => exact ih.bind fun v => ofExcept_follows _
  | binary left op right ihl ihr =>
    exact ihl.bind fun v => ihr.bind fun w => ofExcept_follows _
  | logical left op right ihl ihr =>
    refine ihl.bind fun v => ?_
    cases op.kind with
    | orWord =>
      cases v.isTruthy with
      | true => exact follows_pure v
      | false => exact ihr
    | andWord =>
      cases v.isTruthy with
      | true => exact ihr
      | false => exact follows_pure v
    | _ => exact follows_throw _
  | var name =>
    intro c holds
    have same := faithful.get name c
    rw [← holds.hops_eq] at same
    exact ⟨same, fun _ _ run => lookup_keeps run ▸ holds⟩
  | assign name value ih =>
    refine ih.bind fun v c holds => ?_
    have same := faithful.set name v c
    rw [← holds.hops_eq] at same
    exact ⟨same, fun _ _ run => assign_matches run holds⟩

def On (names : Names) (m : Machine) : Prop := m.scopes.Matches names

theorem value_follows (faithful : access.Faithful) (e : Blockscript.Expr) :
    Follows (On names) (On names) (Execution.value access (e.resolve names))
      (Blockscript.Execution.value e) := by
  intro m holds
  obtain ⟨same, leads⟩ := evaluate_follows faithful e m.scopes holds
  unfold Execution.value
  rw [same]
  cases done : e.evaluate m.scopes with
  | ok v scopes =>
    rw [usually_of_ok done]
    have run : Blockscript.Execution.value e m = .ok v { m with scopes } := by
      simp only [Blockscript.Execution.value, done]
    rw [usually_of_ok run, run]
    refine ⟨rfl, ?_⟩
    rintro _ _ ⟨rfl⟩
    exact leads v scopes done
  | error e' scopes =>
    rw [usually_of_error done]
    have run : Blockscript.Execution.value e m = .error (.failed e') { m with scopes } := by
      simp only [Blockscript.Execution.value, done]
    rw [usually_of_error run, run]
    exact ⟨rfl, fun _ _ failed => by cases failed⟩

theorem write_follows (text : String) :
    Follows (On names) (On names) (usually (Blockscript.Execution.write text))
      (Blockscript.Execution.write text) := by
  refine follows_usually ?_
  intro m _ m' holds run
  unfold Blockscript.Execution.write at run
  split at run
  · cases run; exact holds
  · cases run

theorem declare_follows (name : Token) (value : Value) :
    Follows (On names) (On (names.declare name.lexeme))
      (usually (Blockscript.Execution.declare name value))
      (Blockscript.Execution.declare name value) := by
  refine follows_usually ?_
  rintro m _ _ holds ⟨rfl⟩
  exact holds.declare name.lexeme value

theorem inScope_follows {body : Blockscript.Execution Unit} {body' : Execution Unit}
    {top top' : List String} {outer : Names}
    (inner : Follows (On ([] :: top :: outer)) (On (top' :: top :: outer)) body' body) :
    Follows (On (top :: outer)) (On (top :: outer)) (Execution.inScope body')
      (Blockscript.Execution.inScope body) := by
  intro m holds
  obtain ⟨same, leads⟩ := inner { m with scopes := m.scopes.enter } holds.enter
  unfold Execution.inScope
  rw [same]
  cases done : body { m with scopes := m.scopes.enter } with
  | ok u m' =>
    rw [usually_of_ok done]
    have run : Blockscript.Execution.inScope body m =
        .ok u { m' with scopes := m'.scopes.leave } := by
      simp only [Blockscript.Execution.inScope, done]
    rw [usually_of_ok run, run]
    refine ⟨rfl, ?_⟩
    rintro _ _ ⟨rfl⟩
    exact (leads u m' done).leave (List.cons_ne_nil top outer)
  | error e m' =>
    rw [usually_of_error done]
    have run : Blockscript.Execution.inScope body m =
        .error e { m' with scopes := m'.scopes.leave } := by
      simp only [Blockscript.Execution.inScope, done]
    rw [usually_of_error run, run]
    exact ⟨rfl, fun _ _ failed => by cases failed⟩

theorem whileTrue_follows {condition : Blockscript.Execution Value}
    {condition' : Execution Value} {body : Blockscript.Execution Unit} {body' : Execution Unit}
    (first : Follows (On names) (On names) condition' condition)
    (inner : Follows (On names) (On names) body' body) (fuel : Nat) :
    Follows (On names) (On names) (Execution.whileTrue condition' body' fuel)
      (Blockscript.Execution.whileTrue condition body fuel) := by
  induction fuel with
  | zero => exact follows_throw Stop.outOfFuel
  | succ fuel ih =>
    refine first.bind fun v => ?_
    split
    · exact inner.bind fun _ => ih
    · exact follows_pure ()

end Resolved

mutual

theorem Stmt.Settled.resolve_names {s : Stmt} :
    s.Settled → ∀ (top : List String) (outer : Names),
      (s.resolve (top :: outer)).2 = top :: outer
  | .expression _, _, _ => rfl
  | .print _, _, _ => rfl
  | .block inner, top, outer => by
    obtain ⟨top', same⟩ := inner.resolve_names [] (top :: outer)
    simp only [Stmt.resolve, same, List.tail_cons]
  | .ifOnly first, top, outer => first.resolve_names top outer
  | .ifElse first second, top, outer => by
    simp only [Stmt.resolve, first.resolve_names top outer, second.resolve_names top outer]
  | .loop inner, top, outer => inner.resolve_names top outer

theorem Stmt.Placed.resolve_names {body : List Stmt} :
    Stmt.Placed body → ∀ (top : List String) (outer : Names),
      ∃ top', (Stmt.resolveAll (top :: outer) body).2 = top' :: outer
  | .nil, top, _ => ⟨top, rfl⟩
  | @Stmt.Placed.declare name initial _ more, top, outer => by
    obtain ⟨top', same⟩ := more.resolve_names (name.lexeme :: top) outer
    refine ⟨top', ?_⟩
    cases initial <;> exact same
  | .settled first more, top, outer => by
    obtain ⟨top', same⟩ := more.resolve_names top outer
    exact ⟨top', by simp only [Stmt.resolveAll, first.resolve_names top outer, same]⟩

end

namespace Resolved

variable {access : Access}

mutual

theorem settled_follows (faithful : access.Faithful) (fuel : Nat) {s : Blockscript.Stmt} :
    s.Settled → ∀ (top : List String) (outer : Names),
      Follows (On (top :: outer)) (On (top :: outer))
        (Stmt.execute access fuel (s.resolve (top :: outer)).1) (s.execute fuel)
  | .expression e, _, _ => (value_follows faithful e).bind fun _ => follows_pure ()
  | .print e, _, _ => (value_follows faithful e).bind fun v => write_follows _
  | .block inner, top, outer => by
    obtain ⟨top', same⟩ := inner.resolve_names [] (top :: outer)
    have follows := placed_follows faithful fuel inner [] (top :: outer)
    rw [same] at follows
    exact inScope_follows follows
  | .ifOnly first, top, outer => by
    refine (value_follows faithful _).bind fun v => ?_
    split
    · exact settled_follows faithful fuel first top outer
    · exact follows_pure ()
  | .ifElse first second, top, outer => by
    simp only [Stmt.resolve, first.resolve_names top outer]
    refine (value_follows faithful _).bind fun v => ?_
    split
    · exact settled_follows faithful fuel first top outer
    · exact settled_follows faithful fuel second top outer
  | .loop inner, top, outer =>
    whileTrue_follows (value_follows faithful _)
      (settled_follows faithful fuel inner top outer) fuel

theorem placed_follows (faithful : access.Faithful) (fuel : Nat) {body : List Blockscript.Stmt} :
    Stmt.Placed body → ∀ (top : List String) (outer : Names),
      Follows (On (top :: outer)) (On (Stmt.resolveAll (top :: outer) body).2)
        (Stmt.executeAll access fuel (Stmt.resolveAll (top :: outer) body).1)
        (Blockscript.Stmt.executeAll fuel body)
  | .nil, _, _ => follows_pure ()
  | @Stmt.Placed.declare name initial _ more, top, outer => by
    have later := placed_follows faithful fuel more (name.lexeme :: top) outer
    cases initial with
    | none => exact (declare_follows name .nil).bind fun _ => later
    | some e =>
      exact ((value_follows faithful e).bind fun v => declare_follows name v).bind fun _ => later
  | .settled first more, top, outer => by
    simp only [Stmt.resolveAll, first.resolve_names top outer]
    exact (settled_follows faithful fuel first top outer).bind fun _ =>
      placed_follows faithful fuel more top outer

end

theorem program_follows (faithful : access.Faithful) {program : Program}
    (placed : Stmt.Placed program) (fuel : Nat) (room : Option Nat) :
    Stmt.executeAll access fuel program.resolve (.start room) =
      usually (Blockscript.Stmt.executeAll fuel program) (.start room) :=
  (placed_follows faithful fuel placed [] [] (.start room) Chain.matches_global).1

end Resolved

/-- A program without errors, run in a fresh session, never looks for a binding elsewhere than
    was resolved, and to count the scopes out to it is enough. -/
theorem Session.resolved_run (room : Option Nat) (source : String)
    (clean : ((Session.start room).parse source).2.diagnostics.hadError = false) (fuel : Nat) :
    let program := ((Session.start room).parse source).1
    Resolved.Stmt.executeAll .watched fuel program.resolve (.start room) =
        Resolved.usually (Stmt.executeAll fuel program) (.start room) ∧
      Resolved.Stmt.executeAll .byHops fuel program.resolve (.start room) =
        Resolved.usually (Stmt.executeAll fuel program) (.start room) := by
  obtain ⟨last, tokens, compiles⟩ := compiles_of_parse clean
  have placed := compiles.derived.placed
  exact ⟨Resolved.program_follows Resolved.Access.watched_faithful placed fuel room,
    Resolved.program_follows Resolved.Access.byHops_faithful placed fuel room⟩

/-- In the body `b` is one scope away and `a` two; `c` is undefined. -/
theorem Session.resolved_run_loop :
    let program :=
      ((Session.start none).parse "var a = true; for (var b = a; b; b = nil) a = b; c;").1
    Resolved.Stmt.executeAll .watched 2 program.resolve (.start none) =
        Resolved.usually (Stmt.executeAll 2 program) (.start none) ∧
      Resolved.Stmt.executeAll .byHops 2 program.resolve (.start none) =
        Resolved.usually (Stmt.executeAll 2 program) (.start none) :=
  Session.resolved_run none "var a = true; for (var b = a; b; b = nil) a = b; c;" (by cbv) 2

end Blockscript

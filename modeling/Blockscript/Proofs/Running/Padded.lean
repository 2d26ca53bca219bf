import Blockscript.Proofs.Running.Primitives
import Blockscript.Proofs.Scoping.Hops
import Blockscript.Proofs.Scoping.Placed

/-!
An empty scope between the others changes nothing, as long as nothing is declared in it. A
statement that is no declaration runs the same in a scope of its own as outside of it.
-/
namespace Blockscript

open Primitives (Alike Mirrors machine lookup_machine assign_machine mirrors_pure mirrors_throw
  mirrors_ofExcept mirrors_whileTrue)

namespace Primitives

variable {σ τ ι : Type}

/-- As `Simulates`, for relations of which some hold only until something is declared. Inside
    a scope the relation is always one that declarations keep. -/
structure Shelters (p : Primitives σ) (q : Primitives τ) (R : ι → σ → τ → Prop)
    (sheltered : ι → Prop) : Prop where
  lookup : ∀ i name, Mirrors (R i) (p.lookup name) (q.lookup name)
  assign : ∀ i name v, Mirrors (R i) (p.assign name v) (q.assign name v)
  declare : ∀ i name v s t, sheltered i → R i s t → R i (p.declare name v s) (q.declare name v t)
  write : ∀ i text, Mirrors (R i) (p.write text) (q.write text)
  scope : ∀ i s t, R i s t → ∃ j, sheltered j ∧ R j (p.enter s) (q.enter t) ∧
    ∀ s' t', R j s' t' → R i (p.leave s s') (q.leave t t')

namespace Shelters

variable {p : Primitives σ} {q : Primitives τ} {R : ι → σ → τ → Prop} {sheltered : ι → Prop}

theorem bind (h : Shelters p q R sheltered) {i : ι} (inside : sheltered i) (name : Token)
    (v : Value) : Mirrors (R i) (p.bind name v) (q.bind name v) :=
  fun s t related => .ok (h.declare i name v s t inside related)

theorem evaluate (h : Shelters p q R sheltered) (i : ι) (e : Expr) :
    Mirrors (R i) (p.evaluate e) (q.evaluate e) :=
  mirrors_evaluate (h.lookup i) (h.assign i) e

mutual

theorem execute (h : Shelters p q R sheltered) (fuel : Nat) {s : Stmt} :
    s.Settled → ∀ i, Mirrors (R i) (p.execute fuel s) (q.execute fuel s)
  | .expression e, i => (h.evaluate i e).bind fun _ => mirrors_pure ()
  | .print e, i => (h.evaluate i e).bind fun _ => h.write i _
  | .block inner, i => by
    refine mirrors_inScope fun s t related => ?_
    obtain ⟨j, inside, entered, left⟩ := h.scope i s t related
    exact ⟨R j, entered, h.executeAll fuel inner inside, left⟩
  | .ifOnly first, i => by
    refine (h.evaluate i _).bind fun v => ?_
    split
    · exact h.execute fuel first i
    · exact mirrors_pure ()
  | .ifElse first second, i => by
    refine (h.evaluate i _).bind fun v => ?_
    split
    · exact h.execute fuel first i
    · exact h.execute fuel second i
  | .loop inner, i => mirrors_whileTrue (h.evaluate i _) (h.execute fuel inner i) fuel

theorem executeAll (h : Shelters p q R sheltered) (fuel : Nat) {body : List Stmt} :
    Stmt.Placed body → ∀ {i}, sheltered i →
      Mirrors (R i) (p.executeAll fuel body) (q.executeAll fuel body)
  | .nil, _, _ => mirrors_pure ()
  | @Stmt.Placed.declare _ none _ more, _, inside =>
    (h.bind inside _ _).bind fun _ => h.executeAll fuel more inside
  | @Stmt.Placed.declare _ (some e) _ more, i, inside =>
    ((h.evaluate i e).bind fun _ => h.bind inside _ _).bind fun _ => h.executeAll fuel more inside
  | .settled first more, i, inside =>
    (h.execute fuel first i).bind fun _ => h.executeAll fuel more inside

end

end Shelters

end Primitives

namespace Chain

variable {c c' : Chain} {depth : Nat}

/-- The second chain is the first one with an empty scope put in at that depth. -/
inductive Padded : Nat → Chain → Chain → Prop where
  | here (c : Chain) : Padded 0 c c.enter
  | under {depth : Nat} {c c' : Chain} (inner : Scope) (below : Padded depth c c') :
      Padded (depth + 1) ⟨inner, c.scopes⟩ ⟨inner, c'.scopes⟩

namespace Padded

theorem get? (h : Padded depth c c') (name : String) : c'.get? name = c.get? name := by
  induction h with
  | here c => rfl
  | under inner below ih =>
    simp only [Chain.get?, scopes, List.findSome?_cons] at ih ⊢
    rw [ih]

theorem assign? (h : Padded depth c c') (name : String) (value : Value) :
    Option.Rel (Padded depth) (c.assign? name value) (c'.assign? name value) := by
  induction h with
  | here c =>
    have entered : c.enter.assign? name value = (c.assign? name value).map enter := by
      change (assignIn name value c.scopes).map _ = _
      rw [← assign?_scopes, Option.map_map]
      rfl
    rw [entered]
    cases c.assign? name value with
    | none => exact .none
    | some after => exact .some (.here after)
  | @under depth c c' inner below ih =>
    unfold Chain.assign?
    by_cases held : inner.holds name
    · simp only [held, ↓reduceIte]
      exact .some (.under _ below)
    · simp only [held, Bool.false_eq_true, ↓reduceIte, ← assign?_scopes]
      generalize c.assign? name value = after at ih ⊢
      generalize c'.assign? name value = after' at ih ⊢
      cases ih with
      | none => exact .none
      | some below => exact .some (.under inner below)

theorem declare (h : Padded (depth + 1) c c') (name : String) (value : Value) :
    Padded (depth + 1) (c.declare name value) (c'.declare name value) := by
  cases h with
  | under inner below => exact .under _ below

theorem enter (h : Padded depth c c') : Padded (depth + 1) c.enter c'.enter := .under .empty h

theorem leave (h : Padded (depth + 1) c c') : Padded depth c.leave c'.leave := by
  cases h with
  | under inner below => exact below

theorem left (h : Padded 0 c c') : c'.leave = c := by
  cases h with
  | here c => rfl

end Padded

end Chain

structure Machine.Padded (depth : Nat) (m m' : Machine) : Prop where
  scopes : m.scopes.Padded depth m'.scopes
  output : m.output = m'.output

theorem Primitives.padded_shelters :
    Shelters machine machine Machine.Padded fun depth => 0 < depth where
  lookup := by
    rintro depth name ⟨c, o⟩ ⟨c', _⟩ ⟨padded, rfl⟩
    rw [lookup_machine, lookup_machine, padded.get?]
    cases c.get? name.lexeme with
    | none => exact .error ⟨padded, rfl⟩
    | some v => exact .ok ⟨padded, rfl⟩
  assign := by
    rintro depth name v ⟨c, o⟩ ⟨c', _⟩ ⟨padded, rfl⟩
    have assigned := padded.assign? name.lexeme v
    rw [assign_machine, assign_machine]
    generalize c.assign? name.lexeme v = after at assigned ⊢
    generalize c'.assign? name.lexeme v = after' at assigned ⊢
    cases assigned with
    | none => exact .error ⟨padded, rfl⟩
    | some below => exact .ok ⟨below, rfl⟩
  declare := by
    intro depth name v m m' inside padded
    cases depth with
    | zero => exact absurd inside (Nat.lt_irrefl 0)
    | succ outer => exact ⟨padded.scopes.declare _ v, padded.output⟩
  write := by
    rintro depth text ⟨c, o⟩ ⟨c', _⟩ ⟨padded, rfl⟩
    simp only [machine, Execution.write]
    split
    · exact .ok ⟨padded, rfl⟩
    · exact .error ⟨padded, rfl⟩
  scope := by
    intro depth m m' padded
    refine ⟨depth + 1, Nat.succ_pos depth, ⟨padded.scopes.enter, padded.output⟩, ?_⟩
    intro after after' inside
    exact ⟨inside.scopes.leave, inside.output⟩

theorem Execution.inScope_of_padded {run : Execution Unit}
    (same : Mirrors (Machine.Padded 0) run run) : Execution.inScope run = run := by
  funext m
  have alike := same m { m with scopes := m.scopes.enter } ⟨.here m.scopes, rfl⟩
  unfold Execution.inScope
  generalize run m = result at alike ⊢
  generalize run { m with scopes := m.scopes.enter } = result' at alike ⊢
  cases alike with
  | @ok _ t t' left =>
    obtain ⟨c, o⟩ := t
    obtain ⟨c', _⟩ := t'
    obtain ⟨padded, rfl⟩ := left
    exact congrArg _ (congrArg (Machine.mk · _) padded.left)
  | @error _ t t' left =>
    obtain ⟨c, o⟩ := t
    obtain ⟨c', _⟩ := t'
    obtain ⟨padded, rfl⟩ := left
    exact congrArg _ (congrArg (Machine.mk · _) padded.left)

namespace Stmt

/-- Statements that declare nothing where they stand run the same in a scope of their own. -/
theorem inScope_settled (fuel : Nat) {body : List Stmt} (settled : ∀ s ∈ body, s.Settled) :
    Execution.inScope (Stmt.executeAll fuel body) = Stmt.executeAll fuel body := by
  refine Execution.inScope_of_padded ?_
  induction body with
  | nil => exact mirrors_pure ()
  | cons s rest ih =>
    have first := Primitives.padded_shelters.execute fuel (settled s List.mem_cons_self) 0
    rw [Primitives.execute_machine] at first
    exact first.bind fun _ => ih fun t later => settled t (List.mem_cons_of_mem s later)

end Stmt

end Blockscript

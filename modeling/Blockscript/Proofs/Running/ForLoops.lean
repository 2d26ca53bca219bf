import Blockscript.Proofs.Reading.Completeness
import Blockscript.Proofs.Reading.Soundness
import Blockscript.Proofs.Running.Padded
import Blockscript.Proofs.Running.ScopeNames

/-!
A `for` means what it says. It is read as a `while` with blocks around it; these blocks do
nothing that the loop, run clause by clause, would not do by itself.
-/
namespace Blockscript

open Primitives (stateAfter)

structure ForLoop where
  initial : Option Stmt
  condition : Option Expr
  step : Option Expr
  body : Stmt

namespace Execution

def holds : Option Expr → Execution Bool
  | none => return true
  | some e => do
    let v ← value e
    return v.isTruthy

def step : Option Expr → Execution Unit
  | none => return ()
  | some e => do let _ ← value e

/-- The condition, the body and the step in turns, all in one scope, as long as the condition
    holds. -/
def rounds (loop : ForLoop) (body : Execution Unit) : Nat → Execution Unit
  | 0 => throw .outOfFuel
  | fuel + 1 => do
    if ← holds loop.condition then
      body
      step loop.step
      rounds loop body fuel

end Execution

namespace ForLoop

/-- Only with an initial statement is there a scope for the loop. It is left on every exit. -/
def execute (fuel : Nat) (loop : ForLoop) : Execution Unit :=
  let rounds := Execution.rounds loop (loop.body.execute fuel) fuel
  match loop.initial with
  | none => rounds
  | some initial => Execution.inScope do
    initial.execute fuel
    rounds

end ForLoop

/-- Nothing that the run declares is there after it. The run could as well be in a scope of its
    own, which is left on every exit, and each scope holds the names it held before. -/
structure Execution.Enclosed (run : Execution Unit) : Prop where
  apart : Execution.inScope run = run
  names : ∀ m, (stateAfter (run m)).scopes.names = m.scopes.names

theorem Stmt.Settled.enclosed {s : Stmt} (h : s.Settled) (fuel : Nat) :
    (s.execute fuel).Enclosed where
  apart := by
    have alone := Stmt.inScope_settled fuel (List.forall_mem_singleton.mpr h)
    rwa [Stmt.executeAll_singleton] at alone
  names := h.names_kept fuel

namespace Grammar

inductive Guard : List Token → Option Expr → Prop where
  | none {stop : Token} (stops : stop.kind = .semicolon) : Guard [stop] none
  | expression {stop : Token} {ts : List Token} {e : Expr} (value : Whole ts e)
      (stops : stop.kind = .semicolon) : Guard (ts ++ [stop]) (some e)

inductive Clauses (closed : Bool) : List Token → ForLoop → Prop where
  | clauses {word l : Token} {is cs ss ts : List Token} {loop : ForLoop}
      (starts : word.kind = .forWord) (opens : l.kind = .leftParen)
      (first : Initial is loop.initial) (second : Guard cs loop.condition)
      (third : Step ss loop.step) (inner : Statement closed ts loop.body) :
      Clauses closed (word :: l :: (is ++ (cs ++ (ss ++ ts)))) loop

def rewritten (loop : ForLoop) : Stmt :=
  preceded (.loop (loop.condition.getD (.literal (.bool true))) (followed loop.body loop.step))
    loop.initial

theorem Test.guard {cs : List Token} {c : Expr} (h : Test cs c) :
    ∃ condition, Guard cs condition ∧ c = condition.getD (.literal (.bool true)) := by
  cases h with
  | none stops => exact ⟨Option.none, .none stops, rfl⟩
  | expression value stops => exact ⟨some c, .expression value stops, rfl⟩

theorem Simple.not_for {word : Token} {more : List Token} {s : Stmt}
    (h : Simple (word :: more) s) : word.kind ≠ .forWord := by
  intro starts
  generalize same : word :: more = ts at h
  cases h with
  | print other =>
    obtain ⟨rfl, -⟩ := List.cons.inj same
    rw [starts] at other
    cases other
  | expression value =>
    obtain ⟨t, us, rfl, known, -⟩ := Reader.whole_first value
    obtain ⟨rfl, -⟩ := List.cons.inj same
    rw [starts] at known
    cases known

theorem Statement.clauses {closed : Bool} {word : Token} {more : List Token} {s : Stmt}
    (starts : word.kind = .forWord) (h : Statement closed (word :: more) s) :
    ∃ loop, Clauses closed (word :: more) loop ∧ s = rewritten loop := by
  cases h with
  | simple only => exact absurd starts only.not_for
  | block other => rw [starts] at other; cases other
  | whileLoop other => rw [starts] at other; cases other
  | ifElse other => rw [starts] at other; cases other
  | ifOnly other => rw [starts] at other; cases other
  | @forLoop _ _ _ is cs ss ts initial c step body _ opens first condition last inner =>
    obtain ⟨tested, guard, rfl⟩ := condition.guard
    exact ⟨⟨initial, tested, step, body⟩, .clauses starts opens first guard last inner, rfl⟩

theorem Clauses.settled {closed : Bool} {ts : List Token} {loop : ForLoop}
    (h : Clauses closed ts loop) : loop.body.Settled := by
  cases h with
  | clauses _ _ _ _ _ inner => exact inner.settled

end Grammar

namespace Execution

open Grammar

theorem followed_execute (fuel : Nat) {body : Stmt} (settled : body.Settled) (last : Option Expr) :
    (followed body last).execute fuel = (do body.execute fuel; step last) := by
  cases last with
  | none => exact (bind_pure (body.execute fuel)).symm
  | some e =>
    have both : ∀ s ∈ [body, .expression e], s.Settled := by
      intro s among
      rcases List.mem_pair.mp among with rfl | rfl
      · exact settled
      · exact .expression e
    have block := Stmt.inScope_settled fuel both
    simp only [followed, Stmt.execute, block]
    rw [Stmt.executeAll, Stmt.executeAll_singleton]
    rfl

theorem rounds_eq (loop : ForLoop) (body : Execution Unit) (fuel : Nat) :
    whileTrue (value (loop.condition.getD (.literal (.bool true))))
      (do body; step loop.step) fuel = rounds loop body fuel := by
  induction fuel with
  | zero => rfl
  | succ fuel ih =>
    obtain ⟨initial, condition, last, inner⟩ := loop
    simp only [whileTrue, rounds, ih, bind_assoc]
    cases condition with
    | none => rfl
    | some e => simp only [holds, bind_assoc, pure_bind, Option.getD_some]

end Execution

namespace ForLoop

open Grammar

theorem execute_rewritten (fuel : Nat) {loop : ForLoop} (settled : loop.body.Settled) :
    (rewritten loop).execute fuel = loop.execute fuel := by
  let whole := Stmt.loop (loop.condition.getD (.literal (.bool true)))
    (followed loop.body loop.step)
  have rounds : whole.execute fuel = Execution.rounds loop (loop.body.execute fuel) fuel := by
    rw [Stmt.execute, Execution.followed_execute fuel settled, Execution.rounds_eq]
  unfold rewritten execute
  cases loop.initial with
  | none => exact rounds
  | some initial =>
    rw [← rounds, ← Stmt.executeAll_singleton fuel whole]
    simp only [preceded, Stmt.execute, Stmt.executeAll, whole]

/-- What a `for` is read as does, in any state, what its clauses say: it ends in the same
    state with the same result. What the body declares is gone after each round, and what the
    loop declares is gone after it. -/
theorem read_execute {word : Token} {tokens rest : List Token} {s : Stmt}
    (starts : word.kind = .forWord)
    (read : PartReader.statement (word :: tokens) = ⟨.ok s, rest, []⟩) :
    ∃ ts loop, word :: tokens = ts ++ rest ∧ Clauses (elseNext rest) ts loop ∧
      ∀ fuel, s.execute fuel = loop.execute fuel ∧ (loop.body.execute fuel).Enclosed ∧
        (loop.execute fuel).Enclosed := by
  obtain ⟨ts, gathered, derived⟩ := PartReader.statement_soundUpTo _ (Nat.le_refl _) read
  have split := gathered.whole rfl
  obtain ⟨t, more, rfl⟩ : ∃ t more, ts = t :: more := by
    obtain ⟨t, more, same, -⟩ := derived.spoilt.first
    exact ⟨t, more, same⟩
  obtain ⟨rfl, -⟩ := List.cons.inj split
  obtain ⟨loop, clauses, rfl⟩ := derived.clauses starts
  refine ⟨_, loop, split, clauses, fun fuel => ?_⟩
  have same := execute_rewritten fuel clauses.settled
  exact ⟨same, clauses.settled.enclosed fuel, same ▸ derived.settled.enclosed fuel⟩

/-- In `for (; c; a) { var c; }` the condition is about the outer `c` in every round. -/
theorem read_execute_shadowed :
    ∃ ts loop, [⟨.forWord, "for", 1⟩, ⟨.leftParen, "(", 1⟩, ⟨.semicolon, ";", 1⟩,
        ⟨.identifier, "c", 1⟩, ⟨.semicolon, ";", 1⟩, ⟨.identifier, "a", 1⟩,
        ⟨.rightParen, ")", 1⟩, ⟨.leftBrace, "\x7b", 1⟩, ⟨.varWord, "var", 1⟩,
        ⟨.identifier, "c", 1⟩, ⟨.semicolon, ";", 1⟩, ⟨.rightBrace, "\x7d", 1⟩] = ts ++ [] ∧
      Clauses false ts loop ∧
      ∀ fuel, (Stmt.loop (.var ⟨.identifier, "c", 1⟩) (.block [
          .block [.declare ⟨.identifier, "c", 1⟩ none],
          .expression (.var ⟨.identifier, "a", 1⟩)])).execute fuel = loop.execute fuel ∧
        (loop.body.execute fuel).Enclosed ∧ (loop.execute fuel).Enclosed :=
  read_execute rfl rfl

end ForLoop

end Blockscript

import Blockscript.Proofs.Reading.OtherLines
import Blockscript.Proofs.Reading.Unfolding

/-!
Reading tokens that bear other lines. The readers look at kinds and keep lexemes, so they read
the same trees and note the same errors, but with the other lines in them.
-/
namespace Blockscript

variable {α β : Type}

namespace Reader

variable {g : Nat → Nat}

def relinedResult (g : Nat → Nat) (f : α → α) :
    EStateM.Result Error (List Token) α → EStateM.Result Error (List Token) α
  | .ok value rest => .ok (f value) (rest.map (Token.relined g))
  | .error e rest => .error (e.relined g) (rest.map (Token.relined g))

/-- On tokens with other lines the second reader does what the first does without them, but
    for the lines; `f` puts these into what is read. -/
def Relines (g : Nat → Nat) (f : α → α) (reader reader' : Reader α) : Prop :=
  ∀ tokens, reader' (tokens.map (Token.relined g)) = relinedResult g f (reader tokens)

variable {f : α → α} {f' : β → β} {reader reader' : Reader α} {next next' : α → Reader β}

theorem relines_pure (f : α → α) (value : α) : Relines g f (pure value) (pure (f value)) :=
  fun _ => rfl

theorem Relines.bind (first : Relines g f reader reader')
    (second : ∀ value, Relines g f' (next value) (next' (f value))) :
    Relines g f' (reader >>= next) (reader' >>= next') := by
  intro tokens
  have head := first tokens
  cases run : reader tokens with
  | ok value rest =>
    rw [run] at head
    rw [bind_of_ok run, bind_of_ok head]
    exact second value rest
  | error e rest =>
    rw [run] at head
    rw [bind_of_error run, bind_of_error head]
    rfl

theorem Relines.map {build build' : α → β} (first : Relines g f reader reader')
    (same : ∀ value, build' (f value) = f' (build value)) :
    Relines g f' (build <$> reader) (build' <$> reader') := by
  intro tokens
  have head := first tokens
  simp only [Functor.map, EStateM.map, head]
  cases reader tokens with
  | ok value rest => simp only [relinedResult, same]
  | error e rest => rfl

theorem errorAt_relined (zero : g 0 = 0) (fault : GrammarFault) (tokens : List Token) :
    errorAt fault (tokens.map (Token.relined g)) = (errorAt fault tokens).relined g := by
  cases tokens with
  -- only the error where the tokens run out bears a line of its own, which is 0
  | nil => simp only [List.map_nil, errorAt, Error.relined, zero]
  | cons t rest => rfl

theorem relines_fail (zero : g 0 = 0) (f : α → α) (fault : GrammarFault) :
    Relines g f (fail fault) (fail fault) := by
  intro tokens
  simp only [fail, errorAt_relined zero, relinedResult]

theorem relines_nextIs (kind : Kind) : Relines g id (nextIs kind) (nextIs kind) := by
  intro tokens
  cases tokens <;> rfl

theorem relines_expect (zero : g 0 = 0) (kind : Kind) (fault : GrammarFault) :
    Relines g (Token.relined g) (expect kind fault) (expect kind fault) := by
  intro tokens
  cases tokens with
  | nil => exact relines_fail zero _ fault []
  | cons t rest =>
    simp only [List.map_cons, expect, Token.kind_relined]
    split
    · rfl
    · exact relines_fail zero _ fault (t :: rest)

theorem relines_accept (kind : Kind) : Relines g id (accept kind) (accept kind) := by
  intro tokens
  cases tokens with
  | nil => rfl
  | cons t rest =>
    simp only [List.map_cons, accept, Token.kind_relined]
    split <;> rfl

abbrev Lineless (g : Nat → Nat) (reader : Reader Expr) : Prop :=
  Relines g (Expr.relined g) reader reader

theorem lineless_chainFrom {level : Level} {operand : Reader Expr}
    (joins : ∀ l op r, level.join (l.relined g) (op.relined g) (r.relined g) =
      (level.join l op r).relined g) (h : Lineless g operand) (bound : List Token) (left : Expr) :
    Relines g (Expr.relined g) (chainFrom level operand bound left)
      (chainFrom level operand (bound.map (Token.relined g)) (left.relined g)) := by
  induction bound generalizing left with
  | nil => exact fun _ => rfl
  | cons b bound ih =>
    intro tokens
    cases tokens with
    | nil => rfl
    | cons op rest =>
      simp only [List.map_cons, chainFrom, Token.kind_relined]
      split
      · rw [h rest]
        cases operand rest with
        | ok right between =>
          simp only [relinedResult, joins]
          exact ih _ between
        | error e between => rfl
      · rfl

theorem lineless_chain {level : Level} {operand : Reader Expr}
    (joins : ∀ l op r, level.join (l.relined g) (op.relined g) (r.relined g) =
      (level.join l op r).relined g) (h : Lineless g operand) :
    Lineless g (chain level operand) := by
  intro tokens
  simp only [chain, h tokens]
  cases operand tokens with
  | ok left rest => exact lineless_chainFrom joins h rest left rest
  | error e rest => rfl

theorem lineless_joined {operand : Reader Expr} (h : Lineless g operand) :
    Lineless g (joined levels operand) := by
  have binary : ∀ (operators : List Kind) {reader : Reader Expr}, Lineless g reader →
      Lineless g (chain ⟨operators, .binary⟩ reader) :=
    fun _ => lineless_chain fun _ _ _ => rfl
  have logical : ∀ (operators : List Kind) {reader : Reader Expr}, Lineless g reader →
      Lineless g (chain ⟨operators, .logical⟩ reader) :=
    fun _ => lineless_chain fun _ _ _ => rfl
  exact logical _ (logical _ (binary _ (binary _ (binary _ (binary _ h)))))

theorem lineless_primary (zero : g 0 = 0) {inner : Reader Expr} (h : Lineless g inner) :
    Lineless g (primary inner) := by
  intro tokens
  cases tokens with
  | nil => exact relines_fail zero _ .expression []
  | cons t rest =>
    rw [List.map_cons, primary_cons, primary_cons, Token.kind_relined]
    split
    · rfl
    split
    · rfl
    split
    · refine h.bind (fun e => ?_) rest
      exact (relines_expect zero _ _).bind fun _ => relines_pure _ (Expr.grouping e)
    · exact relines_fail zero _ .expression (t :: rest)

theorem lineless_unary (zero : g 0 = 0) {operand inner : Reader Expr} (h : Lineless g operand)
    (h' : Lineless g inner) : Lineless g (unary operand inner) := by
  intro tokens
  cases tokens with
  | nil => exact lineless_primary zero h' []
  | cons op rest =>
    simp only [List.map_cons, unary, Token.kind_relined]
    split
    · have tree : Relines g (Expr.relined g) (.unary op <$> operand)
          (.unary (op.relined g) <$> operand) := h.map fun _ => rfl
      exact tree rest
    · exact lineless_primary zero h' (op :: rest)

theorem lineless_assignment {target value : Reader Expr} (h : Lineless g target)
    (h' : Lineless g value) : Lineless g (assignment target value) := by
  intro tokens
  simp only [assignment, h tokens]
  cases target tokens with
  | error e rest => rfl
  | ok left rest =>
    cases rest with
    | nil => rfl
    | cons op rest =>
      simp only [relinedResult, List.map_cons, Token.kind_relined]
      split
      · cases left with
        | var name =>
          have tree : Relines g (Expr.relined g) (.assign name <$> value)
              (.assign (name.relined g) <$> value) := h'.map fun _ => rfl
          exact tree rest
        | _ => rfl
      · rfl

theorem lineless_nested (zero : g 0 = 0) (n : Nat) :
    Lineless g (operand n) ∧ Lineless g (nested n) := by
  induction n with
  | zero => exact ⟨relines_fail zero _ .nesting, relines_fail zero _ .nesting⟩
  | succ n ih =>
    have tightest := lineless_unary zero ih.1 ih.2
    exact ⟨tightest, lineless_assignment (lineless_joined tightest) ih.2⟩

theorem lineless_expression (zero : g 0 = 0) : Lineless g expression :=
  (lineless_nested zero _).2

theorem relines_last (zero : g 0 = 0) (kind : Kind) (fault : GrammarFault) (f : α → α)
    (value : α) : Relines g f (do let _ ← expect kind fault; return value)
      (do let _ ← expect kind fault; return f value) :=
  (relines_expect zero kind fault).bind fun _ => relines_pure f value

theorem relines_ended (zero : g 0 = 0) (kind : Kind) (fault : GrammarFault) {f : α → α}
    {build : Expr → α} (same : ∀ e, build (e.relined g) = f (build e)) :
    Relines g f (ended kind fault build) (ended kind fault build) := by
  refine (lineless_expression zero).bind fun e => ?_
  rw [same]
  exact relines_last zero kind fault f (build e)

theorem relines_evaluated (zero : g 0 = 0) : Relines g (Stmt.relined g) evaluated evaluated :=
  relines_ended zero _ _ fun _ => rfl

theorem relines_printed (zero : g 0 = 0) : Relines g (Stmt.relined g) printed printed :=
  relines_ended zero _ _ fun _ => rfl

theorem relines_declaration (zero : g 0 = 0) :
    Relines g (Stmt.relined g) declaration declaration := by
  have closing : ∀ (name : Token) (initial : Option Expr), Relines g (Stmt.relined g)
      (do let _ ← expect .semicolon .semicolonAfterVariable; return .declare name initial)
      (do let _ ← expect .semicolon .semicolonAfterVariable
          return .declare (name.relined g) (initial.map (Expr.relined g))) := by
    intro name initial
    rw [← Stmt.relined_declare]
    exact relines_last zero _ _ _ _
  unfold declaration
  refine (relines_expect zero _ _).bind fun name => ?_
  refine (relines_accept _).bind fun assigned => ?_
  cases assigned with
  | true =>
    have initial : Relines g (Option.map (Expr.relined g)) (some <$> expression)
        (some <$> expression) := (lineless_expression zero).map fun _ => rfl
    exact initial.bind (closing name)
  | false => exact (relines_pure (Option.map (Expr.relined g)) none).bind (closing name)

theorem relines_condition (zero : g 0 = 0) (before after : GrammarFault) :
    Lineless g (condition before after) :=
  (relines_expect zero _ _).bind fun _ => relines_ended zero _ _ fun _ => rfl

theorem relines_initialClause (zero : g 0 = 0) :
    Relines g (Option.map (Stmt.relined g)) initialClause initialClause := by
  unfold initialClause
  refine (relines_accept _).bind fun empty => ?_
  cases empty with
  | true => exact relines_pure _ none
  | false =>
    refine (relines_accept _).bind fun declared => ?_
    cases declared with
    | true => exact (relines_declaration zero).bind fun s => relines_pure _ (some s)
    | false => exact (relines_evaluated zero).bind fun s => relines_pure _ (some s)

theorem relines_conditionClause (zero : g 0 = 0) : Lineless g conditionClause := by
  have closing : ∀ e : Expr, Relines g (Expr.relined g)
      (do let _ ← expect .semicolon .semicolonAfterCondition; return e)
      (do let _ ← expect .semicolon .semicolonAfterCondition; return e.relined g) :=
    relines_last zero _ _ _
  unfold conditionClause
  refine (relines_nextIs _).bind fun empty => ?_
  cases empty with
  | true => exact (relines_pure (Expr.relined g) (.literal (.bool true))).bind closing
  | false => exact (lineless_expression zero).bind closing

theorem relines_stepClause (zero : g 0 = 0) :
    Relines g (Option.map (Expr.relined g)) stepClause stepClause := by
  have closing : ∀ e : Option Expr, Relines g (Option.map (Expr.relined g))
      (do let _ ← expect .rightParen .parenAfterClauses; return e)
      (do let _ ← expect .rightParen .parenAfterClauses; return e.map (Expr.relined g)) :=
    relines_last zero _ _ _
  unfold stepClause
  refine (relines_nextIs _).bind fun empty => ?_
  cases empty with
  | true => exact (relines_pure (Option.map (Expr.relined g)) none).bind closing
  | false =>
    have step : Relines g (Option.map (Expr.relined g)) (some <$> expression)
        (some <$> expression) := (lineless_expression zero).map fun _ => rfl
    exact step.bind closing

end Reader

end Blockscript

import Blockscript.Proofs.Reading.Grammar
import Blockscript.Reading.Program

/-!
The same tokens and trees with other lines. The grammar does not look at lines, so what derives
from tokens derives from them with other lines too.
-/
namespace Blockscript

section

variable (g : Nat → Nat)

def Token.relined (t : Token) : Token := { t with line := g t.line }

@[simp] theorem Token.kind_relined (t : Token) : (t.relined g).kind = t.kind := by
  cases t
  rfl

@[simp] theorem Token.isEnd_relined (t : Token) : (t.relined g).isEnd = t.isEnd := by
  cases t
  rfl

def Error.relined : Error → Error
  | .lexical line fault => .lexical (g line) fault
  | .grammar token fault => .grammar (token.relined g) fault
  | .type operator fault => .type (operator.relined g) fault
  | .undefined name fault => .undefined (name.relined g) fault
  | .output fault => .output fault

def Expr.relined : Expr → Expr
  | .literal value => .literal value
  | .grouping inner => .grouping inner.relined
  | .unary op operand => .unary (op.relined g) operand.relined
  | .binary left op right => .binary left.relined (op.relined g) right.relined
  | .logical left op right => .logical left.relined (op.relined g) right.relined
  | .var name => .var (name.relined g)
  | .assign name value => .assign (name.relined g) value.relined

mutual

def Stmt.relined : Stmt → Stmt
  | .expression e => .expression (e.relined g)
  | .print e => .print (e.relined g)
  | .declare name none => .declare (name.relined g) none
  | .declare name (some e) => .declare (name.relined g) (some (e.relined g))
  | .block body => .block (Stmt.allRelined body)
  | .branch condition accepted none => .branch (condition.relined g) accepted.relined none
  | .branch condition accepted (some rejected) =>
    .branch (condition.relined g) accepted.relined (some rejected.relined)
  | .loop condition body => .loop (condition.relined g) body.relined
termination_by structural s => s

def Stmt.allRelined : List Stmt → List Stmt
  | [] => []
  | s :: rest => s.relined :: Stmt.allRelined rest
termination_by structural ss => ss

end

theorem Stmt.allRelined_eq (body : List Stmt) :
    Stmt.allRelined g body = body.map (Stmt.relined g) := by
  induction body with
  | nil => rfl
  | cons s rest ih => rw [Stmt.allRelined, ih, List.map_cons]

theorem Stmt.relined_declare (name : Token) (initial : Option Expr) :
    (Stmt.declare name initial).relined g =
      .declare (name.relined g) (initial.map (Expr.relined g)) := by
  cases initial <;> rfl

theorem Stmt.relined_branch (condition : Expr) (accepted : Stmt) (rejected : Option Stmt) :
    (Stmt.branch condition accepted rejected).relined g =
      .branch (condition.relined g) (accepted.relined g) (rejected.map (Stmt.relined g)) := by
  cases rejected <;> rfl

theorem Stmt.relined_forLoop (initial : Option Stmt) (condition : Expr) (step : Option Expr)
    (body : Stmt) : (Stmt.forLoop initial condition step body).relined g =
      .forLoop (initial.map (Stmt.relined g)) (condition.relined g) (step.map (Expr.relined g))
        (body.relined g) := by
  cases initial <;> cases step <;> rfl

end

namespace Grammar

variable {g : Nat → Nat}

theorem join_relined (rank : Rank) (l : Expr) (op : Token) (r : Expr) :
    (rank.level.join l op r).relined g =
      rank.level.join (l.relined g) (op.relined g) (r.relined g) := by
  cases rank <;> rfl

theorem Derives.relined {rank : Rank} {ts : List Token} {e : Expr} (h : Derives rank ts e) :
    Derives rank (ts.map (Token.relined g)) (e.relined g) := by
  induction h with
  | literal value => exact .literal value
  | var name => exact .var name
  | grouping opens _ closes ih =>
    rw [List.map_cons, List.map_append]
    exact .grouping opens ih closes
  | unary known _ ih => exact .unary known ih
  | joined _ known _ ihl ihr =>
    rw [List.map_append, List.map_cons, join_relined]
    exact .joined ihl known ihr
  | assign target known _ ih => exact .assign target known ih
  | looser more _ ih => exact .looser more ih

theorem nesting_relined (e : Expr) : (e.relined g).nesting = e.nesting := by
  induction e with
  | literal | var => rfl
  | grouping _ ih | unary _ _ ih | assign _ _ ih => simp only [Expr.relined, Expr.nesting, ih]
  | binary _ _ _ ihl ihr | logical _ _ _ ihl ihr => simp only [Expr.relined, Expr.nesting, ihl, ihr]

theorem Whole.relined {ts : List Token} {e : Expr} (h : Whole ts e) :
    Whole (ts.map (Token.relined g)) (e.relined g) :=
  ⟨h.1.relined, by rw [nesting_relined]; exact h.2⟩

theorem Variable.relined {ts : List Token} {s : Stmt} (h : Variable ts s) :
    Variable (ts.map (Token.relined g)) (s.relined g) := by
  cases h with
  | bare starts target stops => exact .bare starts target stops
  | initial starts target known value stops =>
    simp only [List.map_cons, List.map_append, List.map_nil]
    exact .initial starts target known value.relined stops

theorem Simple.relined {ts : List Token} {s : Stmt} (h : Simple ts s) :
    Simple (ts.map (Token.relined g)) (s.relined g) := by
  cases h with
  | print starts value stops =>
    simp only [List.map_cons, List.map_append, List.map_nil]
    exact .print starts value.relined stops
  | expression value stops =>
    simp only [List.map_cons, List.map_append, List.map_nil]
    exact .expression value.relined stops

theorem Condition.relined {ts : List Token} {c : Expr} (h : Condition ts c) :
    Condition (ts.map (Token.relined g)) (c.relined g) := by
  cases h with
  | bracketed opens value closes =>
    simp only [List.map_cons, List.map_append, List.map_nil]
    exact .bracketed opens value.relined closes

theorem Initial.relined {ts : List Token} {initial : Option Stmt} (h : Initial ts initial) :
    Initial (ts.map (Token.relined g)) (initial.map (Stmt.relined g)) := by
  cases h with
  | none stops => exact .none stops
  | «variable» declared => exact .variable declared.relined
  | expression value stops =>
    simp only [List.map_cons, List.map_append, List.map_nil]
    exact .expression value.relined stops

theorem Test.relined {ts : List Token} {c : Expr} (h : Test ts c) :
    Test (ts.map (Token.relined g)) (c.relined g) := by
  cases h with
  | none stops => exact .none stops
  | expression value stops =>
    simp only [List.map_cons, List.map_append, List.map_nil]
    exact .expression value.relined stops

theorem Step.relined {ts : List Token} {step : Option Expr} (h : Step ts step) :
    Step (ts.map (Token.relined g)) (step.map (Expr.relined g)) := by
  cases h with
  | none closes => exact .none closes
  | expression value closes =>
    simp only [List.map_cons, List.map_append, List.map_nil]
    exact .expression value.relined closes

theorem preceded_relined (loop : Stmt) (initial : Option Stmt) :
    (preceded loop initial).relined g =
      preceded (loop.relined g) (initial.map (Stmt.relined g)) := by
  cases initial <;> rfl

theorem followed_relined (body : Stmt) (step : Option Expr) :
    (followed body step).relined g =
      followed (body.relined g) (step.map (Expr.relined g)) := by
  cases step <;> rfl

mutual

theorem Statement.relined {closed : Bool} {ts : List Token} {s : Stmt} :
    Statement closed ts s → Statement closed (ts.map (Token.relined g)) (s.relined g)
  | .simple only => .simple only.relined
  | .block opens inner closes => by
    simp only [List.map_cons, List.map_append, List.map_nil]
    exact .block opens inner.relined closes
  | .whileLoop starts condition inner => by
    simp only [List.map_cons, List.map_append]
    exact .whileLoop starts condition.relined inner.relined
  | .forLoop starts opens first condition last inner => by
    simp only [List.map_cons, List.map_append, preceded_relined, Stmt.relined, followed_relined]
    exact .forLoop starts opens first.relined condition.relined last.relined inner.relined
  | .ifElse starts condition first turns second => by
    simp only [List.map_cons, List.map_append]
    exact .ifElse starts condition.relined first.relined turns second.relined
  | .ifOnly starts condition first => by
    simp only [List.map_cons, List.map_append]
    exact .ifOnly starts condition.relined first.relined

theorem Declaration.relined {ts : List Token} {s : Stmt} :
    Declaration ts s → Declaration (ts.map (Token.relined g)) (s.relined g)
  | .variable declared => .variable declared.relined
  | .statement stated => .statement stated.relined

theorem Declarations.relined {ts : List Token} {body : List Stmt} :
    Declarations ts body → Declarations (ts.map (Token.relined g)) (Stmt.allRelined g body)
  | .nil => .nil
  | .cons first more => by
    rw [List.map_append]
    exact .cons first.relined more.relined

end

end Grammar

end Blockscript

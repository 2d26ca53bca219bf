import Blockscript.Proofs.Reading.Grammar

/-!
Where variables are declared in programs that can be read: at the top, directly in a block,
or in front of a loop that a `for` stands for. No branch and no body is a declaration.
-/
namespace Blockscript

open Grammar

mutual

/-- The statement declares nothing in the scope that it stands in. -/
inductive Stmt.Settled : Stmt → Prop where
  | expression (e : Expr) : Settled (.expression e)
  | print (e : Expr) : Settled (.print e)
  | block {body : List Stmt} (inner : Placed body) : Settled (.block body)
  | ifOnly {c : Expr} {accepted : Stmt} (first : Settled accepted) :
      Settled (.branch c accepted none)
  | ifElse {c : Expr} {accepted rejected : Stmt} (first : Settled accepted)
      (second : Settled rejected) : Settled (.branch c accepted (some rejected))
  | loop {c : Expr} {body : Stmt} (inner : Settled body) : Settled (.loop c body)

inductive Stmt.Placed : List Stmt → Prop where
  | nil : Placed []
  | declare {name : Token} {initial : Option Expr} {rest : List Stmt} (more : Placed rest) :
      Placed (.declare name initial :: rest)
  | settled {s : Stmt} {rest : List Stmt} (first : Settled s) (more : Placed rest) :
      Placed (s :: rest)

end

namespace Grammar

theorem Variable.placed {ts : List Token} {s : Stmt} (h : Variable ts s) {rest : List Stmt}
    (more : Stmt.Placed rest) : Stmt.Placed (s :: rest) := by
  cases h with
  | bare => exact .declare more
  | initial => exact .declare more

theorem Simple.settled {ts : List Token} {s : Stmt} (h : Simple ts s) : s.Settled := by
  cases h with
  | print => exact .print _
  | expression => exact .expression _

theorem Initial.settled {is : List Token} {initial : Option Stmt} (h : Initial is initial)
    {loop : Stmt} (inner : loop.Settled) : (preceded loop initial).Settled := by
  cases h with
  | none => exact inner
  | «variable» declared => exact .block (declared.placed (.settled inner .nil))
  | expression => exact .block (.settled (.expression _) (.settled inner .nil))

theorem followed_settled {body : Stmt} (inner : body.Settled) (step : Option Expr) :
    (followed body step).Settled := by
  cases step with
  | none => exact inner
  | some e => exact .block (.settled inner (.settled (.expression e) .nil))

mutual

theorem Statement.settled {closed : Bool} {ts : List Token} {s : Stmt} :
    Statement closed ts s → s.Settled
  | .simple only => only.settled
  | .block _ inner _ => .block inner.placed
  | .whileLoop _ _ inner => .loop inner.settled
  | .forLoop _ _ first _ _ inner => first.settled (.loop (followed_settled inner.settled _))
  | .ifElse _ _ first _ second => .ifElse first.settled second.settled
  | .ifOnly _ _ first => .ifOnly first.settled

theorem Declaration.placed {ts : List Token} {s : Stmt} :
    Declaration ts s → ∀ {rest : List Stmt}, Stmt.Placed rest → Stmt.Placed (s :: rest)
  | .variable declared, _, more => declared.placed more
  | .statement stated, _, more => .settled stated.settled more

theorem Declarations.placed {ts : List Token} {body : List Stmt} :
    Declarations ts body → Stmt.Placed body
  | .nil => .nil
  | .cons first more => first.placed more.placed

end

end Grammar

end Blockscript

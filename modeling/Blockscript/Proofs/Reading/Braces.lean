import Blockscript.Proofs.Reading.Expressions

/-!
Where the declarations of a block end, told by counting braces. What derives from the grammar
opens as many blocks as it closes, so that it can stand inside a block without closing it.
-/
namespace Blockscript

/-- The tokens from where a list of declarations ends, inside of which `depth` blocks are open. -/
def closing : Nat → List Token → List Token
  | _, [] => []
  | depth, t :: rest =>
    match t.kind with
    | .endOfFile => t :: rest
    | .leftBrace => closing (depth + 1) rest
    | .rightBrace => if depth = 0 then t :: rest else closing (depth - 1) rest
    | _ => closing depth rest

def Kind.unbraced : Kind → Bool
  | .leftBrace | .rightBrace | .endOfFile => false
  | _ => true

theorem unbraced_of_inExpression {k : Kind} (h : k.inExpression = true) : k.unbraced = true := by
  cases k <;> first | rfl | cases h

section

variable {t : Token} {depth : Nat}

theorem closing_cons (plain : t.kind.unbraced = true) (depth : Nat) (rest : List Token) :
    closing depth (t :: rest) = closing depth rest := by
  rw [closing]
  split
  · rename_i same; rw [same] at plain; cases plain
  · rename_i same; rw [same] at plain; cases plain
  · rename_i same; rw [same] at plain; cases plain
  · rfl

theorem closing_open (opens : t.kind = .leftBrace) (depth : Nat) (rest : List Token) :
    closing depth (t :: rest) = closing (depth + 1) rest := by
  rw [closing, opens]

theorem closing_close (closes : t.kind = .rightBrace) (depth : Nat) (rest : List Token) :
    closing (depth + 1) (t :: rest) = closing depth rest := by
  rw [closing, closes]
  exact if_neg (Nat.succ_ne_zero depth)

theorem closing_end (ends : t.isEnd = true ∨ t.kind = .rightBrace) (rest : List Token) :
    closing 0 (t :: rest) = t :: rest := by
  rcases ends with ended | closed
  · rw [closing, of_decide_eq_true ended]
  · rw [closing, closed]
    exact if_pos rfl

end

/-- The tokens leave open what was open before them, and nothing else. -/
def Balanced (ts : List Token) : Prop :=
  ∀ depth rest, closing depth (ts ++ rest) = closing depth rest

namespace Balanced

variable {t l r : Token} {ts us : List Token}

theorem nil : Balanced [] := fun _ _ => rfl

theorem append (h : Balanced ts) (h' : Balanced us) : Balanced (ts ++ us) := by
  intro depth rest
  rw [List.append_assoc, h, h']

theorem cons (plain : t.kind.unbraced = true) (h : Balanced ts) : Balanced (t :: ts) := by
  intro depth rest
  rw [List.cons_append, closing_cons plain, h]

theorem block (opens : l.kind = .leftBrace) (h : Balanced ts) (closes : r.kind = .rightBrace) :
    Balanced (l :: (ts ++ [r])) := by
  intro depth rest
  rw [List.cons_append, List.append_assoc, closing_open opens, h, List.singleton_append,
    closing_close closes]

theorem of_unbraced (plain : ∀ t ∈ ts, t.kind.unbraced = true) : Balanced ts := by
  induction ts with
  | nil => exact nil
  | cons t more ih =>
    obtain ⟨first, later⟩ := List.forall_mem_cons.mp plain
    exact (ih later).cons first

end Balanced

namespace Grammar

variable {ts : List Token}

theorem Whole.balanced {e : Expr} (h : Whole ts e) : Balanced ts :=
  .of_unbraced fun t member => unbraced_of_inExpression (derives_kinds h.1 t member)

theorem Whole.balanced_stop {e : Expr} (h : Whole ts e) {stop : Token}
    (plain : stop.kind.unbraced = true) : Balanced (ts ++ [stop]) :=
  h.balanced.append (Balanced.nil.cons plain)

theorem Variable.balanced {s : Stmt} (h : Variable ts s) : Balanced ts := by
  cases h with
  | bare starts target stops =>
    exact .of_unbraced (by simp [starts, target, stops, Kind.unbraced])
  | initial starts target known value stops =>
    refine .cons (by rw [starts]; rfl) (.cons (by rw [target]; rfl) (.cons (by rw [known]; rfl) ?_))
    exact value.balanced_stop (by rw [stops]; rfl)

theorem Simple.balanced {s : Stmt} (h : Simple ts s) : Balanced ts := by
  cases h with
  | print starts value stops =>
    exact .cons (by rw [starts]; rfl) (value.balanced_stop (by rw [stops]; rfl))
  | expression value stops => exact value.balanced_stop (by rw [stops]; rfl)

theorem Condition.balanced {c : Expr} (h : Condition ts c) : Balanced ts := by
  cases h with
  | bracketed opens value closes =>
    exact .cons (by rw [opens]; rfl) (value.balanced_stop (by rw [closes]; rfl))

theorem Initial.balanced {initial : Option Stmt} (h : Initial ts initial) : Balanced ts := by
  cases h with
  | none stops => exact .of_unbraced (by simp [stops, Kind.unbraced])
  | «variable» declared => exact declared.balanced
  | expression value stops => exact value.balanced_stop (by rw [stops]; rfl)

theorem Test.balanced {c : Expr} (h : Test ts c) : Balanced ts := by
  cases h with
  | none stops => exact .of_unbraced (by simp [stops, Kind.unbraced])
  | expression value stops => exact value.balanced_stop (by rw [stops]; rfl)

theorem Step.balanced {step : Option Expr} (h : Step ts step) : Balanced ts := by
  cases h with
  | none closes => exact .of_unbraced (by simp [closes, Kind.unbraced])
  | expression value closes => exact value.balanced_stop (by rw [closes]; rfl)

mutual

theorem Statement.balanced {closed : Bool} {ts : List Token} {s : Stmt} :
    Statement closed ts s → Balanced ts
  | .simple only => only.balanced
  | .block opens inner closes => .block opens inner.balanced closes
  | .whileLoop starts condition inner =>
    .cons (by rw [starts]; rfl) (condition.balanced.append inner.balanced)
  | .forLoop starts opens first condition last inner =>
    .cons (by rw [starts]; rfl) (.cons (by rw [opens]; rfl)
      (first.balanced.append (condition.balanced.append (last.balanced.append inner.balanced))))
  | .ifElse starts condition first turns second =>
    .cons (by rw [starts]; rfl) (condition.balanced.append
      (first.balanced.append (.cons (by rw [turns]; rfl) second.balanced)))
  | .ifOnly starts condition first =>
    .cons (by rw [starts]; rfl) (condition.balanced.append first.balanced)

theorem Declaration.balanced {ts : List Token} {s : Stmt} : Declaration ts s → Balanced ts
  | .variable declared => declared.balanced
  | .statement stated => stated.balanced

theorem Declarations.balanced {ts : List Token} {body : List Stmt} :
    Declarations ts body → Balanced ts
  | .nil => .nil
  | .cons first more => first.balanced.append more.balanced

end

end Grammar

end Blockscript

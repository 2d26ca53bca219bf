import Blockscript.Proofs.Outlines.Legible
import Blockscript.Proofs.Sessions.Layout

/-!
From shapes back to trees. A word is cut again, which tells what it is: literals, names and
operators are told by their kinds, and operators with one operand from those with two by the
number of parts. Lines are lost, and a literal that is infinite comes back as the name it
prints as.
-/
namespace Blockscript

open Double (ofIndex infinityIndex magnitudeText)

def Value.named : Value → Expr
  | .number x =>
    if x.index = infinityIndex then .var ⟨.identifier, "inf", 0⟩ else .literal (.number x)
  | value => .literal value

def Expr.named : Expr → Expr
  | .literal value => value.named
  | .grouping inner => .grouping inner.named
  | .unary op operand => .unary op operand.named
  | .binary left op right => .binary left.named op right.named
  | .logical left op right => .logical left.named op right.named
  | .var name => .var name
  | .assign name value => .assign name value.named

mutual

def Stmt.named : Stmt → Stmt
  | .expression e => .expression e.named
  | .print e => .print e.named
  | .declare name none => .declare name none
  | .declare name (some e) => .declare name (some e.named)
  | .block body => .block (Stmt.allNamed body)
  | .branch condition accepted none => .branch condition.named accepted.named none
  | .branch condition accepted (some rejected) =>
    .branch condition.named accepted.named (some rejected.named)
  | .loop condition body => .loop condition.named body.named
termination_by structural s => s

def Stmt.allNamed : List Stmt → List Stmt
  | [] => []
  | s :: rest => s.named :: Stmt.allNamed rest
termination_by structural ss => ss

end

def Token.ofText : List Char → Token
  | [] => ⟨.endOfFile, "", 0⟩
  | c :: cs =>
    match (Cut.first c cs).piece with
    | .token kind => ⟨kind, String.ofList (c :: cs), 0⟩
    | _ => ⟨.endOfFile, "", 0⟩

def Token.operand (t : Token) : Expr :=
  match t.kind.literal? with
  | some value => .literal value
  | none => .var t

def Token.joined (op : Token) (left right : Expr) : Expr :=
  if op.kind = .equal then
    match left with
    | .var name => .assign name right
    | _ => right
  else if op.kind ∈ [Kind.andWord, .orWord] then .logical left op right
  else .binary left op right

/-- With one operand, an operator is unary. The word of a grouping is no operator but a name. -/
def Token.applied (op : Token) : List Expr → Expr
  | [inner] => if op.kind = .identifier then .grouping inner else .unary op inner
  | [left, right] => op.joined left right
  | _ => .literal .nil

namespace Shape

mutual

def expr : Shape → Expr
  | .word text => (Token.ofText text).operand
  | .quoted text => .literal (.string (String.ofList text))
  | .node head parts => (Token.ofText head).applied (exprs parts)
termination_by structural shape => shape

def exprs : List Shape → List Expr
  | [] => []
  | part :: rest => part.expr :: exprs rest
termination_by structural parts => parts

end

def statement (head : String) (parts : List Shape) (inner : List Stmt) : Stmt :=
  match head, parts, inner with
  | ";", [value], _ => .expression value.expr
  | "print", [value], _ => .print value.expr
  | "var", [.word name], _ => .declare (Token.ofText name) none
  | "var", [.word name, initial], _ => .declare (Token.ofText name) (some initial.expr)
  | "if", [condition, _], [_, accepted] => .branch condition.expr accepted none
  | "if", [condition, _, _], [_, accepted, rejected] =>
    .branch condition.expr accepted (some rejected)
  | "while", [condition, _], [_, body] => .loop condition.expr body
  | _, _, body => .block body

mutual

def stmt : Shape → Stmt
  | .node head parts => statement (String.ofList head) parts (stmts parts)
  | _ => .block []
termination_by structural shape => shape

def stmts : List Shape → List Stmt
  | [] => []
  | part :: rest => part.stmt :: stmts rest
termination_by structural parts => parts

end

end Shape

theorem Lexeme.ofText {text : List Char} {kind : Kind} (h : Lexeme text kind) :
    Token.ofText text = ⟨kind, String.ofList text, 0⟩ := by
  have ends : Blanked [] := by
    rintro c ⟨⟩
  obtain ⟨c, cs, _, whole, cut⟩ := Cut.lexeme_alone h ends
  rw [List.append_nil] at whole
  subst whole
  simp only [Token.ofText, cut]

theorem Token.Spelt.ofText {t : Token} (spelt : t.Spelt) :
    Token.ofText t.lexeme.toList = t.relined noLine := by
  rw [Lexeme.ofText spelt, String.ofList_toList]
  rfl

theorem Token.IsName.operand {name : Token} (h : name.IsName) :
    (name.relined noLine).operand = .var (name.relined noLine) := by
  unfold Token.operand
  rw [Token.kind_relined, h.2]
  rfl

theorem Shape.expr_one (head : List Char) (part : Shape) :
    (node head [part]).expr = (Token.ofText head).applied [part.expr] := rfl

theorem Shape.expr_two (head : List Char) (first second : Shape) :
    (node head [first, second]).expr = (Token.ofText head).applied [first.expr, second.expr] := rfl

theorem Token.applied_unary {op : Token} (known : op.kind ∈ [Kind.bang, .minus]) (operand : Expr) :
    op.applied [operand] = .unary op operand := by
  have other : ∀ kind ∈ [Kind.bang, .minus], kind ≠ .identifier := by decide
  exact if_neg (other op.kind known)

theorem Token.applied_binary {op : Token} (known : op.kind ∈ binaryKinds) (left right : Expr) :
    op.applied [left, right] = .binary left op right := by
  have other : ∀ kind ∈ binaryKinds, kind ≠ .equal ∧ kind ∉ [Kind.andWord, .orWord] := by decide
  obtain ⟨assigns, joins⟩ := other op.kind known
  exact (if_neg assigns).trans (if_neg joins)

theorem Token.applied_logical {op : Token} (known : op.kind ∈ [Kind.andWord, .orWord])
    (left right : Expr) : op.applied [left, right] = .logical left op right := by
  have other : ∀ kind ∈ [Kind.andWord, .orWord], kind ≠ .equal := by decide
  exact (if_neg (other op.kind known)).trans (if_pos known)

theorem Value.expr_finite {index : Nat} (finite : index < infinityIndex) :
    (Shape.word (magnitudeText index)).expr = .literal (.number (ofIndex false index)) := by
  obtain ⟨whole, fraction, numeral, reads⟩ := Double.magnitudeText_reads finite
  rw [Shape.expr, numeral.lexeme.ofText, ← reads]
  rfl

theorem Value.expr_shape {v : Value} (legible : v.Legible) :
    v.shape.expr = v.named.relined noLine := by
  cases v with
  | string s => exact congrArg (Expr.literal ∘ Value.string) String.ofList_toList
  | nil => rfl
  | bool b => cases b <;> rfl
  | number x =>
    obtain ⟨index, known, rfl⟩ := legible
    have same : (ofIndex false index).index = index :=
      Double.index_ofIndex (Nat.lt_of_le_of_lt known Double.infinityIndex_lt)
    rw [shape_number known, named, same]
    rcases Nat.lt_or_eq_of_le known with finite | rfl
    · rw [if_neg (Nat.ne_of_lt finite)]
      exact expr_finite finite
    · rw [if_pos rfl, Double.magnitudeText_infinity]
      rfl

/-- From its shape an expression is read back, but for lines and infinite literals. -/
theorem Expr.expr_shape {e : Expr} (legible : e.Legible) :
    e.shape.expr = e.named.relined noLine := by
  induction e with
  | literal value => exact value.expr_shape legible
  | grouping inner ih =>
    have kind : Token.ofText "group".toList = ⟨.identifier, "group", 0⟩ := rfl
    rw [shape, Shape.expr_one, kind, ih legible]
    rfl
  | unary op operand ih =>
    obtain ⟨spelt, known, inner⟩ := legible
    rw [← op.kind_relined noLine] at known
    rw [shape, Shape.expr_one, spelt.ofText, ih inner]
    exact Token.applied_unary known _
  | binary left op right ihl ihr =>
    obtain ⟨spelt, known, first, second⟩ := legible
    rw [← op.kind_relined noLine] at known
    rw [shape, Shape.expr_two, spelt.ofText, ihl first, ihr second]
    exact Token.applied_binary known _ _
  | logical left op right ihl ihr =>
    obtain ⟨spelt, known, first, second⟩ := legible
    rw [← op.kind_relined noLine] at known
    rw [shape, Shape.expr_two, spelt.ofText, ihl first, ihr second]
    exact Token.applied_logical known _ _
  | var name =>
    rw [shape, Shape.expr, legible.1.ofText, legible.operand]
    rfl
  | assign name value ih =>
    obtain ⟨target, inner⟩ := legible
    have kind : Token.ofText "=".toList = ⟨.equal, "=", 0⟩ := rfl
    rw [shape, Shape.expr_two, kind, Shape.expr, target.1.ofText, target.operand, ih inner]
    rfl

mutual

theorem Stmt.stmt_shape : ∀ s : Stmt, s.Legible → s.shape.stmt = s.named.relined noLine
  | .expression e, legible => by
    rw [shape, Shape.stmt, String.ofList_toList]
    exact congrArg Stmt.expression (Expr.expr_shape legible)
  | .print e, legible => by
    rw [shape, Shape.stmt, String.ofList_toList]
    exact congrArg Stmt.print (Expr.expr_shape legible)
  | .declare name none, legible => by
    rw [shape, Shape.stmt, String.ofList_toList]
    exact congrArg (Stmt.declare · none) (Token.Spelt.ofText legible.1)
  | .declare name (some e), ⟨target, initial⟩ => by
    rw [shape, Shape.stmt, String.ofList_toList]
    exact congrArg₂ (Stmt.declare · <| some ·) target.1.ofText (Expr.expr_shape initial)
  | .block body, legible => by
    rw [shape, Shape.stmt, String.ofList_toList]
    exact congrArg Stmt.block (Stmt.stmts_shapes body legible)
  | .branch condition accepted none, ⟨test, first⟩ => by
    rw [shape, Shape.stmt, String.ofList_toList, Shape.stmts, Shape.stmts, Shape.stmts]
    exact congrArg₂ (Stmt.branch · · none) (Expr.expr_shape test) (Stmt.stmt_shape accepted first)
  | .branch condition accepted (some rejected), ⟨test, first, second⟩ => by
    rw [shape, Shape.stmt, String.ofList_toList, Shape.stmts, Shape.stmts, Shape.stmts, Shape.stmts,
      Stmt.stmt_shape accepted first, Stmt.stmt_shape rejected second]
    exact congrArg (Stmt.branch · _ _) (Expr.expr_shape test)
  | .loop condition body, ⟨test, inner⟩ => by
    rw [shape, Shape.stmt, String.ofList_toList, Shape.stmts, Shape.stmts, Shape.stmts]
    exact congrArg₂ Stmt.loop (Expr.expr_shape test) (Stmt.stmt_shape body inner)

theorem Stmt.stmts_shapes : ∀ body : List Stmt, Stmt.AllLegible body →
    Shape.stmts (Stmt.shapes body) = Stmt.allRelined noLine (Stmt.allNamed body)
  | [], _ => rfl
  | s :: rest, ⟨first, more⟩ => by
    rw [shapes, Shape.stmts, Stmt.stmt_shape s first, Stmt.stmts_shapes rest more]
    rfl

end

theorem Value.shape_named {v : Value} (legible : v.Legible) : v.named.shape = v.shape := by
  cases v with
  | nil | bool | string => rfl
  | number x =>
    obtain ⟨index, known, rfl⟩ := legible
    rw [named, Double.index_ofIndex (Nat.lt_of_le_of_lt known Double.infinityIndex_lt)]
    split
    · subst index
      rw [shape_number known, Double.magnitudeText_infinity]
      rfl
    · rfl

theorem Expr.shape_relined (g : Nat → Nat) (e : Expr) : (e.relined g).shape = e.shape := by
  induction e with
  | literal value => rfl
  | grouping inner ih => simp only [relined, shape, ih]
  | unary op operand ih => simp only [relined, shape, ih, Token.relined]
  | binary left op right ihl ihr => simp only [relined, shape, ihl, ihr, Token.relined]
  | logical left op right ihl ihr => simp only [relined, shape, ihl, ihr, Token.relined]
  | var name => rfl
  | assign name value ih => simp only [relined, shape, ih, Token.relined]

theorem Expr.shape_named {e : Expr} (legible : e.Legible) : e.named.shape = e.shape := by
  induction e with
  | literal value => exact value.shape_named legible
  | grouping inner ih => rw [named, shape, shape, ih legible]
  | unary op operand ih => rw [named, shape, shape, ih legible.2.2]
  | binary left op right ihl ihr =>
    obtain ⟨_, _, first, second⟩ := legible
    rw [named, shape, shape, ihl first, ihr second]
  | logical left op right ihl ihr =>
    obtain ⟨_, _, first, second⟩ := legible
    rw [named, shape, shape, ihl first, ihr second]
  | var name => rfl
  | assign name value ih => rw [named, shape, shape, ih legible.2]

theorem Expr.shape_face (g : Nat → Nat) {e : Expr} (legible : e.Legible) :
    (e.named.relined g).shape = e.shape := by
  rw [shape_relined, shape_named legible]

mutual

theorem Stmt.shape_face (g : Nat → Nat) : ∀ s : Stmt, s.Legible → (s.named.relined g).shape = s.shape
  | .expression e, legible => by
    simp only [named, relined, shape, Expr.shape_face g legible]
  | .print e, legible => by
    simp only [named, relined, shape, Expr.shape_face g legible]
  | .declare name none, _ => rfl
  | .declare name (some e), ⟨_, initial⟩ => by
    simp only [named, relined, shape, Expr.shape_face g initial, Token.relined]
  | .block body, legible => by
    simp only [named, relined, shape, Stmt.shapes_face g body legible]
  | .branch condition accepted none, ⟨test, first⟩ => by
    simp only [named, relined, shape, Expr.shape_face g test, Stmt.shape_face g accepted first]
  | .branch condition accepted (some rejected), ⟨test, first, second⟩ => by
    simp only [named, relined, shape, Expr.shape_face g test, Stmt.shape_face g accepted first,
      Stmt.shape_face g rejected second]
  | .loop condition body, ⟨test, inner⟩ => by
    simp only [named, relined, shape, Expr.shape_face g test, Stmt.shape_face g body inner]

theorem Stmt.shapes_face (g : Nat → Nat) : ∀ body : List Stmt, Stmt.AllLegible body →
    Stmt.shapes (Stmt.allRelined g (Stmt.allNamed body)) = Stmt.shapes body
  | [], _ => rfl
  | s :: rest, ⟨first, more⟩ => by
    simp only [allNamed, allRelined, shapes, Stmt.shape_face g s first, Stmt.shapes_face g rest more]

end

end Blockscript

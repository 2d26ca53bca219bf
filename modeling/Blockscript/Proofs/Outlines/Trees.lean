import Blockscript.Program.Outline
import Blockscript.Proofs.Outlines.Shapes

/-!
Outlines as shapes. The outline of every tree is the text of a shape, in which strings are told
from words.
-/
namespace Blockscript

def Value.shape : Value → Shape
  | .string s => .quoted s.toList
  | value => .word value.text.toList

def Expr.shape : Expr → Shape
  | .literal value => value.shape
  | .grouping inner => .node "group".toList [inner.shape]
  | .unary op operand => .node op.lexeme.toList [operand.shape]
  | .binary left op right | .logical left op right => .node op.lexeme.toList [left.shape, right.shape]
  | .var name => .word name.lexeme.toList
  | .assign name value => .node "=".toList [.word name.lexeme.toList, value.shape]

mutual

def Stmt.shape : Stmt → Shape
  | .expression e => .node ";".toList [e.shape]
  | .print e => .node "print".toList [e.shape]
  | .declare name none => .node "var".toList [.word name.lexeme.toList]
  | .declare name (some e) => .node "var".toList [.word name.lexeme.toList, e.shape]
  | .block body => .node "block".toList (Stmt.shapes body)
  | .branch condition accepted none => .node "if".toList [condition.shape, accepted.shape]
  | .branch condition accepted (some rejected) =>
    .node "if".toList [condition.shape, accepted.shape, rejected.shape]
  | .loop condition body => .node "while".toList [condition.shape, body.shape]
termination_by structural s => s

def Stmt.shapes : List Stmt → List Shape
  | [] => []
  | s :: rest => s.shape :: Stmt.shapes rest
termination_by structural ss => ss

end

def Shape.text (shape : Shape) : String := String.ofList shape.render

theorem Shape.texts_injective : ∀ {xs ys : List Shape}, AllSound xs → AllSound ys →
    xs.map text = ys.map text → xs = ys
  | [], [], _, _, _ => rfl
  | [], y :: ys, _, _, same => absurd same.symm (List.cons_ne_nil _ _)
  | x :: xs, [], _, _, same => absurd same (List.cons_ne_nil _ _)
  | x :: xs, y :: ys, ⟨first, more⟩, ⟨first', more'⟩, same => by
    obtain ⟨one, others⟩ := List.cons.inj same
    rw [render_injective first first' (String.ofList_injective one), texts_injective more more' others]

theorem Shape.renderAll_texts (parts : List Shape) :
    (String.join ((parts.map Shape.text).map (" " ++ ·))).toList = Shape.renderAll parts := by
  induction parts with
  | nil => rfl
  | cons part rest ih =>
    rw [List.map_cons, List.map_cons, String.join_cons, String.toList_append, ih, renderAll]
    simp [Shape.text]

theorem bracketed_eq (head : String) (parts : List Shape) :
    bracketed head (parts.map Shape.text) = (Shape.node head.toList parts).text := by
  apply String.toList_injective
  unfold bracketed
  rw [String.toList_append, String.toList_append, String.toList_append, Shape.renderAll_texts]
  simp [Shape.text, Shape.render]

theorem Value.outline_eq (v : Value) : v.outline = v.shape.text := by
  cases v with
  | string s => rfl
  | nil => rfl
  | bool b => cases b <;> rfl
  | number x => exact String.ofList_toList.symm

theorem Expr.outline_eq (e : Expr) : e.outline = e.shape.text := by
  have word : ∀ name : String, name = (Shape.word name.toList).text :=
    fun name => String.ofList_toList.symm
  induction e with
  | literal value => exact value.outline_eq
  | grouping inner ih => rw [outline, ih]; exact bracketed_eq _ [_]
  | unary op operand ih => rw [outline, ih]; exact bracketed_eq _ [_]
  | binary left op right ihl ihr => rw [outline, ihl, ihr]; exact bracketed_eq _ [_, _]
  | logical left op right ihl ihr => rw [outline, ihl, ihr]; exact bracketed_eq _ [_, _]
  | var name => exact word name.lexeme
  | assign name value ih =>
    rw [outline, ih, word name.lexeme]
    exact bracketed_eq _ [_, _]

mutual

theorem Stmt.outline_eq : ∀ s : Stmt, s.outline = s.shape.text
  | .expression e => by rw [outline, e.outline_eq]; exact bracketed_eq _ [_]
  | .print e => by rw [outline, e.outline_eq]; exact bracketed_eq _ [_]
  | .declare name none => by
    rw [outline, ← @String.ofList_toList name.lexeme]
    exact bracketed_eq _ [.word _]
  | .declare name (some e) => by
    rw [outline, e.outline_eq, ← @String.ofList_toList name.lexeme]
    exact bracketed_eq _ [.word _, _]
  | .block body => by rw [outline, Stmt.outlines_eq body]; exact bracketed_eq _ _
  | .branch condition accepted none => by
    rw [outline, condition.outline_eq, accepted.outline_eq]
    exact bracketed_eq _ [_, _]
  | .branch condition accepted (some rejected) => by
    rw [outline, condition.outline_eq, accepted.outline_eq, rejected.outline_eq]
    exact bracketed_eq _ [_, _, _]
  | .loop condition body => by
    rw [outline, condition.outline_eq, body.outline_eq]
    exact bracketed_eq _ [_, _]

theorem Stmt.outlines_eq : ∀ body : List Stmt,
    Stmt.outlines body = (Stmt.shapes body).map Shape.text
  | [] => rfl
  | s :: rest => by rw [outlines, s.outline_eq, Stmt.outlines_eq rest, shapes, List.map_cons]

end

end Blockscript

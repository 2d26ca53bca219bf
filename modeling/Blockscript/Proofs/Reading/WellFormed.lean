import Blockscript.Proofs.Reading.Parts
import Blockscript.Proofs.Reading.Programs
import Blockscript.Proofs.Scoping.Placed

/-!
The shape of expressions that can be read. Every operator stands over operands that bind
at least as tight as the grammar wants, and every name is one. Programs that were read next
to errors are made of such expressions as well.
-/
namespace Blockscript

open Grammar

/-- The rank that the top of the tree belongs to. Operators of no rank count as the loosest. -/
def Expr.rank : Expr → Rank
  | .literal _ | .grouping _ | .var _ => .primary
  | .unary _ _ => .unary
  | .binary _ op _ | .logical _ op _ => op.kind.joins?.getD .assignment
  | .assign _ _ => .assignment

/-- Everywhere in the tree operators are of their kinds, with their operands in order: the left
    one no looser than the operator, the right one tighter. -/
inductive Expr.WellFormed : Expr → Prop where
  | literal (v : Value) : WellFormed (.literal v)
  | grouping {inner : Expr} (inside : WellFormed inner) : WellFormed (.grouping inner)
  | unary {op : Token} {operand : Expr} (known : op.kind ∈ [Kind.bang, Kind.minus])
      (tight : operand.rank ∈ [Rank.unary, .primary]) (inside : WellFormed operand) :
      WellFormed (.unary op operand)
  | binary {op : Token} {left right : Expr} {rank : Rank}
      (among : rank ∈ [Rank.equality, .comparison, .term, .factor])
      (known : op.kind.joins? = some rank) (noLooser : left.rank.ctorIdx ≤ rank.ctorIdx)
      (tighter : right.rank.ctorIdx < rank.ctorIdx) (first : WellFormed left)
      (second : WellFormed right) : WellFormed (.binary left op right)
  | logical {op : Token} {left right : Expr} {rank : Rank}
      (among : rank ∈ [Rank.conjunction, .disjunction])
      (known : op.kind.joins? = some rank) (noLooser : left.rank.ctorIdx ≤ rank.ctorIdx)
      (tighter : right.rank.ctorIdx < rank.ctorIdx) (first : WellFormed left)
      (second : WellFormed right) : WellFormed (.logical left op right)
  | var {name : Token} (known : name.kind = .identifier) : WellFormed (.var name)
  | assign {name : Token} {value : Expr} (known : name.kind = .identifier)
      (inside : WellFormed value) : WellFormed (.assign name value)

namespace Grammar

theorem operator_of_joins {rank : Rank} {k : Kind} (joins : k.joins? = some rank)
    (other : rank ≠ .assignment) : k ∈ rank.level.operators := by
  cases k <;> cases joins <;> first | decide | contradiction

theorem joins_ne_primary {rank : Rank} {k : Kind} (known : k ∈ rank.level.operators) :
    rank ≠ .primary := by
  rintro rfl
  simp [Rank.level] at known

theorem join_rank {rank : Rank} {op : Token} (known : op.kind ∈ rank.level.operators)
    (l r : Expr) : (rank.level.join l op r).rank = rank := by
  have joins := joins_of_operator known
  cases rank with
  | primary | unary | assignment => simp [Rank.level] at known
  | _ => simp only [Rank.level, Expr.rank, joins, Option.getD_some]

theorem join_wellFormed {rank : Rank} {op : Token} (known : op.kind ∈ rank.level.operators)
    {l r : Expr} (noLooser : l.rank.ctorIdx ≤ rank.ctorIdx)
    (tighter : r.rank.ctorIdx < rank.ctorIdx) (first : l.WellFormed) (second : r.WellFormed) :
    (rank.level.join l op r).WellFormed := by
  have joins := joins_of_operator known
  cases rank with
  | primary | unary | assignment => simp [Rank.level] at known
  | factor | term | comparison | equality =>
    exact .binary (by decide) joins noLooser tighter first second
  | conjunction | disjunction => exact .logical (by decide) joins noLooser tighter first second

theorem tight_of_le {rank : Rank} (le : rank.ctorIdx ≤ Rank.unary.ctorIdx) :
    rank ∈ [Rank.unary, .primary] := by
  cases rank <;> first | decide | exact absurd le (by decide)

theorem Derives.wellFormed {rank : Rank} {ts : List Token} {e : Expr} (h : Derives rank ts e) :
    e.rank.ctorIdx ≤ rank.ctorIdx ∧ e.WellFormed := by
  induction h with
  | literal value => exact ⟨Nat.zero_le _, .literal _⟩
  | var name => exact ⟨Nat.zero_le _, .var name⟩
  | grouping opens inner closes ih => exact ⟨Nat.zero_le _, .grouping ih.2⟩
  | unary known operand ih => exact ⟨Nat.le_refl _, .unary known (tight_of_le ih.1) ih.2⟩
  | @joined rank _ _ l r op left known right ihl ihr =>
    have tighter := Nat.lt_of_le_of_lt ihr.1 (tighter_lt (joins_ne_primary known))
    have same := congrArg Rank.ctorIdx (join_rank known l r)
    exact ⟨Nat.le_of_eq same, join_wellFormed known ihl.1 tighter ihl.2 ihr.2⟩
  | assign target known value ih => exact ⟨Nat.le_refl _, .assign target ih.2⟩
  | looser more inner ih => exact ⟨Nat.le_trans ih.1 (Nat.le_of_lt (tighter_lt more)), ih.2⟩

theorem ensures_wellFormed :
    Ensures (fun _ => True) (fun e => e.WellFormed ∧ e.nesting ≤ 100)
      (fun name => name.kind = .identifier) where
  whole value _ := ⟨value.1.wellFormed.2, value.2⟩
  name known _ := known
  always := ⟨.literal _, Nat.zero_le 100⟩

end Grammar

end Blockscript

import Blockscript.Proofs.Reading.WellFormed
import Blockscript.Proofs.Running.Raising

/-!
Running what was read. There are branches for operators of no known kind, but no program that
was read comes to them: in well-formed expressions operators fail only for their operands.
-/
namespace Blockscript

open Grammar

/-- Operators of their kinds fail so. -/
def operandFaults : List TypeFault := [.numbersNeeded, .numbersOrStringsNeeded, .numberNeeded]

def Error.OfOperands (e : Error) : Prop :=
  ∀ op fault, e = .type op fault → fault ∈ operandFaults

namespace Value

variable {op : Token} {v w : Value} {e : Error}

theorem unary_ofOperands (known : op.kind ∈ [Kind.bang, Kind.minus])
    (failed : v.unary op = .error e) : e.OfOperands := by
  rintro _ _ rfl
  rcases (by simpa using known) with same | same
  · simp [unary, same] at failed
  · cases v <;> simp only [unary, same, reduceCtorEq, Except.error.injEq] at failed
    all_goals
      cases failed
      decide

theorem onNumbers_ofOperands {f : Double → Double → Value}
    (failed : onNumbers op f v w = .error e) : e.OfOperands := by
  rintro _ _ rfl
  unfold onNumbers at failed
  split at failed
  · cases failed
  · cases failed; decide

theorem plus_ofOperands (failed : plus op v w = .error e) : e.OfOperands := by
  rintro _ _ rfl
  unfold plus at failed
  split at failed
  · cases failed
  · cases failed
  · cases failed; decide

theorem binary_ofOperands {rank : Rank}
    (among : rank ∈ [Rank.equality, .comparison, .term, .factor])
    (known : op.kind.joins? = some rank) (failed : v.binary op w = .error e) : e.OfOperands := by
  have other : rank ≠ .assignment := by rintro rfl; simp at among
  have operator := operator_of_joins known other
  unfold binary at failed
  split at failed
  · exact plus_ofOperands failed
  all_goals try exact onNumbers_ofOperands failed
  · cases failed
  · cases failed
  · rcases (by simpa using among) with rfl | rfl | rfl | rfl <;> simp_all [Rank.level]

end Value

theorem Expr.WellFormed.ofOperands {e : Expr} (h : e.WellFormed) {fault : Error}
    (failed : e.Faults fault) : fault.OfOperands := by
  induction failed with
  | grouping _ ih => cases h with | grouping inside => exact ih inside
  | operand _ ih => cases h with | unary _ _ inside => exact ih inside
  | unary failed => cases h with | unary known _ _ => exact Value.unary_ofOperands known failed
  | binaryLeft _ ih => cases h with | binary _ _ _ _ first _ => exact ih first
  | binaryRight _ ih => cases h with | binary _ _ _ _ _ second => exact ih second
  | binary failed =>
    cases h with | binary among known => exact Value.binary_ofOperands among known failed
  | logicalLeft _ ih => cases h with | logical _ _ _ _ first _ => exact ih first
  | logicalRight _ ih => cases h with | logical _ _ _ _ _ second => exact ih second
  | @logical op left right unknown =>
    cases h with
    | @logical _ _ _ rank among known =>
      refine absurd ?_ unknown
      rcases (by simpa using among) with rfl | rfl
      · simpa [Rank.level] using Or.inr (operator_of_joins known (by decide))
      · simpa [Rank.level] using Or.inl (operator_of_joins known (by decide))
  | var => rintro _ _ ⟨⟩
  | assigned _ ih => cases h with | assign _ inside => exact ih inside
  | assign => rintro _ _ ⟨⟩

namespace Program

theorem ensures_ofOperands :
    Ensures (fun _ => True) (fun e => ∀ fault, e.Faults fault → fault.OfOperands)
      (fun _ => True) where
  whole value _ _ failed := value.1.wellFormed.2.ofOperands failed
  name _ _ := trivial
  always _ failed := by cases failed

/-- Whatever the tokens are, what is read from them is well-formed, next to errors too. Run in
    any state, it never comes to an operator that is not known. -/
theorem read_wellFormed (tokens : List Token) :
    Stmt.AllEvery (fun e => e.WellFormed ∧ e.nesting ≤ 100) (fun name => name.kind = .identifier)
      (read tokens).value ∧
    Stmt.Placed (read tokens).value ∧
    ∀ fuel m op fault m',
      Stmt.executeAll fuel (read tokens).value m = .error (.failed (.type op fault)) m' →
      fault.text ∉
        ["Unknown binary operator.", "Unknown logical operator.", "Unknown unary operator."] := by
  obtain ⟨ts, -, derived⟩ := read_gathered tokens
  refine ⟨ensures_wellFormed.declarations derived fun _ _ => trivial, derived.placed, ?_⟩
  intro fuel m op fault m' failed
  have full : Error.OfOperands (.output .full) := by rintro _ _ ⟨⟩
  have known := ensures_ofOperands.declarations derived fun _ _ => trivial
  have ofOperands : Error.OfOperands (.type op fault) :=
    Stmt.executeAll_known full fuel _ known m _ m' failed
  have worded : ∀ fault ∈ operandFaults, fault.text ∉
      ["Unknown binary operator.", "Unknown logical operator.", "Unknown unary operator."] := by
    decide
  exact worded fault (ofOperands op fault rfl)

/-- In `x y; print -"a";` the first statement is given up, and the second fails. -/
theorem read_wellFormed_next_to_error :
    ∃ m', Stmt.executeAll 0 (read [⟨.identifier, "x", 1⟩, ⟨.identifier, "y", 1⟩,
        ⟨.semicolon, ";", 1⟩, ⟨.printWord, "print", 1⟩, ⟨.minus, "-", 1⟩,
        ⟨.string "a", "\"a\"", 1⟩, ⟨.semicolon, ";", 1⟩, ⟨.endOfFile, "", 1⟩]).value (.start none) =
      .error (.failed (.type ⟨.minus, "-", 1⟩ .numberNeeded)) m' ∧
    TypeFault.text .numberNeeded ∉
      ["Unknown binary operator.", "Unknown logical operator.", "Unknown unary operator."] := by
  refine ⟨?_, ?failed, (read_wellFormed _).2.2 0 _ _ _ _ ?failed⟩
  rotate_left
  · rfl

end Program

end Blockscript

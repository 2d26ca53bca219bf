import Blockscript.Proofs.Numbers.Written
import Blockscript.Run.Evaluate

/-!
Equality of the language. Values of one type are equal if they are printed alike, and the two zeros
are equal although they are not. So it is an equivalence, and equality of stored data differs from it
for NaNs only.
-/
namespace Blockscript

namespace Double

variable {x y : Double}

theorem not_nan_of_zero (zero : x.isZero = true) : x.isNaN = false := by
  rw [isNaN_eq_false, isZero_iff.mp zero]
  exact Nat.zero_le _

end Double

namespace Value

inductive SameType : Value → Value → Prop where
  | nil : SameType nil nil
  | bool (a b : Bool) : SameType (bool a) (bool b)
  | number (x y : Double) : SameType (number x) (number y)
  | string (s t : String) : SameType (string s) (string t)

def isZero : Value → Bool
  | number x => x.isZero
  | _ => false

def isNaN : Value → Bool
  | number x => x.isNaN
  | _ => false

variable {u v w : Value}

theorem not_nan_of_zero (zero : v.isZero = true) : v.isNaN = false := by
  cases v with
  | number x => exact Double.not_nan_of_zero zero
  | _ => rfl

theorem ieeeEq_iff : v.ieeeEq w = true ↔
    (v.isNaN = false ∧ w.isNaN = false) ∧ (v = w ∨ v.isZero = true ∧ w.isZero = true) := by
  cases v <;> cases w
  case number.number x y => simpa [ieeeEq, isNaN, isZero] using Double.ieeeEq_iff
  all_goals simp [ieeeEq, isNaN, isZero]

theorem equals_eq (v w : Value) : v.equals w = (v.isNaN && w.isNaN || v.ieeeEq w) := by
  cases v <;> cases w <;> simp [equals, ieeeEq, isNaN]

theorem equals_iff : v.equals w = true ↔
    v = w ∨ (v.isNaN = true ∧ w.isNaN = true) ∨ v.isZero = true ∧ w.isZero = true := by
  rw [equals_eq, Bool.or_eq_true, Bool.and_eq_true, ieeeEq_iff]
  constructor
  · rintro (none | ⟨-, same | zeros⟩)
    · exact .inr (.inl none)
    · exact .inl same
    · exact .inr (.inr zeros)
  · rintro (rfl | none | ⟨zero, zero'⟩)
    · cases number : v.isNaN with
      | true => exact .inl ⟨rfl, rfl⟩
      | false => exact .inr ⟨⟨rfl, rfl⟩, .inl rfl⟩
    · exact .inl none
    · exact .inr ⟨⟨not_nan_of_zero zero, not_nan_of_zero zero'⟩, .inr ⟨zero, zero'⟩⟩

theorem equals_equivalence : Equivalence fun v w : Value => v.equals w = true := by
  have apart : ∀ {v : Value}, v.isNaN = true → v.isZero = true → False := by
    intro v none zero
    rw [not_nan_of_zero zero] at none
    cases none
  simp only [equals_iff]
  constructor
  · exact fun v => .inl rfl
  · rintro v w (rfl | none | zeros)
    · exact .inl rfl
    · exact .inr (.inl none.symm)
    · exact .inr (.inr zeros.symm)
  · rintro u v w (rfl | first) (rfl | second)
    · exact .inl rfl
    · exact .inr second
    · exact .inr first
    · right
      rcases first with none | zeros
      · rcases second with more | zeros
        · exact .inl ⟨none.1, more.2⟩
        · exact (apart none.2 zeros.1).elim
      · rcases second with none | more
        · exact (apart none.1 zeros.2).elim
        · exact .inr ⟨zeros.1, more.2⟩

theorem differ_iff : v.equals w ≠ v.ieeeEq w ↔ v.isNaN = true ∧ w.isNaN = true := by
  rw [equals_eq, ← Bool.and_eq_true]
  cases none : v.isNaN && w.isNaN with
  | true =>
    have other : v.ieeeEq w ≠ true := by
      rw [ne_eq, ieeeEq_iff]
      rintro ⟨⟨number, -⟩, -⟩
      rw [number] at none
      cases none
    simp [Bool.eq_false_iff.mpr other]
  | false => simp

theorem SameType.refl (v : Value) : v.SameType v := by
  cases v with
  | nil => exact .nil
  | bool b => exact .bool b b
  | number x => exact .number x x
  | string s => exact .string s s

theorem text_bool_injective {a b : Bool} (same : (bool a).text = (bool b).text) : a = b := by
  revert a b
  decide

theorem number_of_nan (none : v.isNaN = true) : ∃ x, v = number x ∧ x.isNaN = true := by
  cases v with
  | number x => exact ⟨x, rfl, none⟩
  | _ => cases none

theorem number_of_zero (zero : v.isZero = true) : ∃ x, v = number x := by
  cases v with
  | number x => exact ⟨x, rfl⟩
  | _ => cases zero

theorem alike_iff : v.SameType w ∧ v.text = w.text ↔
    v = w ∨ v.isNaN = true ∧ w.isNaN = true := by
  constructor
  · rintro ⟨same, texts⟩
    cases same with
    | nil => exact .inl rfl
    | bool a b => exact .inl (congrArg bool (text_bool_injective texts))
    | number x y => exact (Double.text_eq_iff.mp texts).imp_left (congrArg number)
    | string s t => exact .inl (congrArg string texts)
  · rintro (rfl | ⟨none, none'⟩)
    · exact ⟨.refl v, rfl⟩
    · obtain ⟨x, rfl, none⟩ := number_of_nan none
      obtain ⟨y, rfl, none'⟩ := number_of_nan none'
      exact ⟨.number x y, Double.text_eq_iff.mpr (.inr ⟨none, none'⟩)⟩

/-- Values are equal in the language just if they are of one type and printed alike, or both are
    zeros. So every value is equal to itself, NaNs included, and equality is symmetric and transitive;
    equality of stored data differs from it just for two NaNs. The operators give this equality, and
    numbers are printed with the text they are to be written with. -/
theorem equals_iff_printed :
    (∀ v w : Value, v.equals w = true ↔
      v.SameType w ∧ (v.text = w.text ∨ v.isZero = true ∧ w.isZero = true)) ∧
    (Equivalence fun v w : Value => v.equals w = true) ∧
    (∀ v w : Value, v.equals w ≠ v.ieeeEq w ↔ v.isNaN = true ∧ w.isNaN = true) ∧
    (∀ x : Double, x.Written (number x).text) ∧
    ∀ (v w : Value) (lexeme : String) (line : Nat),
      v.binary ⟨.equalEqual, lexeme, line⟩ w = .ok (bool (v.equals w)) ∧
        v.binary ⟨.bangEqual, lexeme, line⟩ w = .ok (bool (!v.equals w)) := by
  refine ⟨?_, equals_equivalence, fun _ _ => differ_iff, Double.written, fun _ _ _ _ => ⟨rfl, rfl⟩⟩
  intro v w
  have numbers : v.isZero = true ∧ w.isZero = true → v.SameType w := by
    rintro ⟨zero, zero'⟩
    obtain ⟨x, rfl⟩ := number_of_zero zero
    obtain ⟨y, rfl⟩ := number_of_zero zero'
    exact .number x y
  rw [equals_iff, ← or_assoc, ← alike_iff, and_or_left]
  exact or_congr_right ⟨fun zeros => ⟨numbers zeros, zeros⟩, And.right⟩

example : (number ⟨0⟩).equals (number (-⟨0⟩)) = true ∧ (number (-⟨0⟩)).text = "-0" := by
  decide +kernel

end Value

end Blockscript

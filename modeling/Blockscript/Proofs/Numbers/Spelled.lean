import Blockscript.Double.Spelled
import Mathlib.Data.List.TakeWhile

/-!
Digits spell their number. Whatever run of digits is taken for a number, with or without a point
and more digits behind it, it is read as one.
-/
namespace Blockscript

theorem prefix_takeWhile {p : Char → Bool} {xs ys : List Char} (front : xs <+: ys)
    (known : ∀ c ∈ xs, p c) : xs <+: ys.takeWhile p := by
  obtain ⟨rest, rfl⟩ := front
  rw [List.takeWhile_append_of_pos known]
  exact List.prefix_append xs _

theorem takeWhile_run {p : Char → Bool} {xs : List Char} (known : ∀ c ∈ xs, p c)
    (ys : List Char) (ends : ∀ c ∈ ys.head?, p c = false) :
    (xs ++ ys).takeWhile p = xs ∧ (xs ++ ys).dropWhile p = ys := by
  rw [List.takeWhile_append_of_pos known, List.dropWhile_append_of_pos known]
  cases ys with
  | nil => simp
  | cons y ys =>
    have stop : p y = false := ends y rfl
    simp [stop]

theorem ne_of_not_mem {mark : Char} {xs : List Char} (missing : mark ∉ xs) :
    ∀ c ∈ xs, (c != mark) = true := by
  intro c member
  rw [bne_iff_ne]
  exact ne_of_mem_of_not_mem member missing

theorem all_takeWhile (p : Char → Bool) (xs : List Char) : ∀ c ∈ xs.takeWhile p, p c :=
  fun _ member => List.mem_takeWhile_imp member

theorem not_mem_takeWhile_ne (mark : Char) (xs : List Char) : mark ∉ xs.takeWhile (· != mark) := by
  intro member
  have differs := all_takeWhile (· != mark) xs mark member
  simp at differs

namespace Double

variable {digits text : List Char}

theorem no_point (known : ∀ c ∈ digits, c.isDigit) : '.' ∉ digits := by
  intro member
  exact absurd (known '.' member) (by decide)

theorem ofNumeral_whole (known : ∀ c ∈ digits, c.isDigit) :
    ofNumeral digits = ofDigits digits [] := by
  have parts := takeWhile_run (ne_of_not_mem (no_point known)) [] (by simp)
  rw [List.append_nil] at parts
  rw [ofNumeral, parts.1, parts.2, List.drop_nil]

theorem ofNumeral_decimal (known : ∀ c ∈ digits, c.isDigit) (fraction : List Char) :
    ofNumeral (digits ++ '.' :: fraction) = ofDigits digits fraction := by
  have parts := takeWhile_run (ne_of_not_mem (no_point known)) ('.' :: fraction) (by simp)
  rw [ofNumeral, parts.1, parts.2, List.drop_one, List.tail_cons]

theorem scaled_zero (whole fraction : List Char) :
    scaled whole fraction 0 = ofDigits whole fraction := by
  have none : (0 - (fraction.length : Int)).toNat = 0 := by omega
  have places : (-(0 - (fraction.length : Int))).toNat = fraction.length := by omega
  rw [scaled, ofDigits, none, places]
  exact congrArg (ofRatio · _) (Nat.mul_one _)

theorem toLower_digit {c : Char} (digit : c.isDigit) : c.toLower = c := by
  have bounds := (Bool.and_eq_true _ _).mp digit
  have below : c.val < 'A'.val := Std.lt_of_le_of_lt (of_decide_eq_true bounds.2) (by decide)
  unfold Char.toLower
  exact dif_neg fun upper => Std.not_lt.mpr upper.1 below

/-- No sign and no word begins with a digit. -/
theorem ofText?_digit {c : Char} (digit : c.isDigit) (rest : List Char) :
    ofText? (c :: rest) =
      (exponent? (splitFraction (rest.dropWhile Char.isDigit)).2).map
        (scaled (c :: rest.takeWhile Char.isDigit)
          (splitFraction (rest.dropWhile Char.isDigit)).1) := by
  have other : ∀ d, d.isDigit = false → c ≠ d := by
    rintro d plain rfl
    rw [digit] at plain
    cases plain
  have unsigned : splitSign (c :: rest) = (false, c :: rest) := by
    unfold splitSign
    split
    · rename_i same
      exact absurd (List.cons.inj same).1 (other '-' rfl)
    · rename_i same
      exact absurd (List.cons.inj same).1 (other '+' rfl)
    · rfl
  have noWord : ∀ d word, d.isDigit = false → (c :: rest).map Char.toLower ≠ d :: word := by
    intro d word plain same
    rw [List.map_cons, toLower_digit digit] at same
    exact other d plain (List.cons.inj same).1
  rw [ofText?, unsigned]
  simp only [ofUnsigned?, noWord 'i' _ rfl, noWord 'n' _ rfl, String.reduceToList,
    decide_false, Bool.or_self, Bool.false_eq_true, ↓reduceIte, List.takeWhile_cons, digit,
    List.dropWhile_cons, List.isEmpty_cons, Bool.false_and]
  exact congrFun Option.map_id _

theorem ofText?_whole (some : digits ≠ []) (known : ∀ c ∈ digits, c.isDigit) :
    ofText? digits = .some (ofNumeral digits) := by
  obtain ⟨c, rest, rfl⟩ := List.exists_cons_of_ne_nil some
  obtain ⟨digit, later⟩ := List.forall_mem_cons.mp known
  have parts := takeWhile_run later [] (by simp)
  rw [List.append_nil] at parts
  rw [ofText?_digit digit, parts.1, parts.2, ofNumeral_whole known, ← scaled_zero]
  rfl

theorem ofText?_decimal {fraction : List Char} (some : digits ≠ [])
    (known : ∀ c ∈ digits, c.isDigit) (known' : ∀ c ∈ fraction, c.isDigit) :
    ofText? (digits ++ '.' :: fraction) = .some (ofNumeral (digits ++ '.' :: fraction)) := by
  obtain ⟨c, rest, rfl⟩ := List.exists_cons_of_ne_nil some
  obtain ⟨digit, later⟩ := List.forall_mem_cons.mp known
  have parts := takeWhile_run later ('.' :: fraction) (by simp)
  have parts' := takeWhile_run known' [] (by simp)
  rw [List.append_nil] at parts'
  rw [ofNumeral_decimal known, ← scaled_zero, List.cons_append, ofText?_digit digit, parts.1,
    parts.2, splitFraction, parts'.1, parts'.2]
  rfl

end Double

end Blockscript

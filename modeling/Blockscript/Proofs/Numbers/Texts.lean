import Blockscript.Proofs.Numbers.Numerals

/-!
The text of a number tells which number it is: a numeral reads back as one magnitude, and the sign
stands in front of it. Only the NaNs share a text. Equality of IEEE 754 is coarser for the zeros,
which have two texts, and holds of no NaN.
-/
namespace Blockscript.Double

variable {index other : Nat} {x y : Double} {digits digits' : List Char} {negative negative' : Bool}

theorem magnitudeText_nan (none : infinityIndex < index) : magnitudeText index = ['N', 'a', 'N'] :=
  if_pos none

theorem magnitudeText_chars (known : index ≤ infinityIndex) :
    ∀ c ∈ magnitudeText index, c.isDigit = true ∨ c ∈ ['.', 'i', 'n', 'f'] := by
  intro c member
  rcases Nat.lt_or_eq_of_le known with finite | rfl
  · obtain ⟨whole, fraction, numeral, -⟩ := magnitudeText_reads finite
    exact (numeral.chars c member).imp_right fun point => by simp [point]
  · rw [magnitudeText_infinity] at member
    exact .inr (List.mem_cons_of_mem '.' member)

theorem magnitudeText_ne_infinity (finite : index < infinityIndex) :
    magnitudeText index ≠ magnitudeText infinityIndex := by
  intro same
  obtain ⟨whole, fraction, numeral, -⟩ := magnitudeText_reads finite
  rw [same, magnitudeText_infinity] at numeral
  exact absurd (numeral.chars 'i' List.mem_cons_self) (by decide)

theorem magnitudeText_injective (known : index ≤ infinityIndex) (known' : other ≤ infinityIndex)
    (same : magnitudeText index = magnitudeText other) : index = other := by
  rcases Nat.lt_or_eq_of_le known with finite | rfl
  · rcases Nat.lt_or_eq_of_le known' with finite' | rfl
    · obtain ⟨whole, fraction, numeral, reads⟩ := magnitudeText_reads finite
      obtain ⟨whole', fraction', numeral', reads'⟩ := magnitudeText_reads finite'
      have back : ofIndex false index = ofIndex false other := by
        rw [← reads, ← reads', ← numeral.ofNumeral, ← numeral'.ofNumeral, same]
      exact ofIndex_injective known known' back
    · exact absurd same (magnitudeText_ne_infinity finite)
  · rcases Nat.lt_or_eq_of_le known' with finite' | rfl
    · exact absurd same.symm (magnitudeText_ne_infinity finite')
    · rfl

def signed (negative : Bool) (digits : List Char) : List Char :=
  if negative then '-' :: digits else digits

theorem mem_signed {c : Char} (member : c ∈ signed negative digits) : c = '-' ∨ c ∈ digits := by
  cases negative with
  | true => exact List.mem_cons.mp member
  | false => exact .inr member

theorem signed_injective (plain : '-' ∉ digits) (plain' : '-' ∉ digits')
    (same : signed negative digits = signed negative' digits') :
    negative = negative' ∧ digits = digits' := by
  cases negative with
  | true =>
    cases negative' with
    | true => exact ⟨rfl, List.tail_eq_of_cons_eq same⟩
    | false =>
      have same : '-' :: digits = digits' := same
      exact absurd (same ▸ List.mem_cons_self) plain'
  | false =>
    cases negative' with
    | true =>
      have same : digits = '-' :: digits' := same
      exact absurd (same ▸ List.mem_cons_self) plain
    | false => exact ⟨rfl, same⟩

theorem isNaN_eq_false : x.isNaN = false ↔ x.index ≤ infinityIndex := by
  rw [isNaN, decide_eq_false_iff_not, Nat.not_lt]

theorem text_number (number : x.isNaN = false) :
    x.text = String.ofList (signed x.isNegative (magnitudeText x.index)) := by
  unfold text signed
  rw [number, Bool.not_false, Bool.and_true]

theorem text_nan (none : x.isNaN = true) : x.text = "NaN" := by
  unfold text
  rw [none, Bool.not_true, Bool.and_false, magnitudeText_nan (of_decide_eq_true none)]
  rfl

theorem text_ne_nan (number : x.isNaN = false) : x.text ≠ "NaN" := by
  intro same
  have letter : 'N' ∈ x.text.toList := by
    rw [same]
    decide
  rw [text_number number, String.toList_ofList] at letter
  rcases mem_signed letter with sign | member
  · exact absurd sign (by decide)
  · exact absurd (magnitudeText_chars (isNaN_eq_false.mp number) 'N' member) (by decide)

theorem eq_of_sign_index (sign : x.isNegative = y.isNegative) (magnitude : x.index = y.index) :
    x = y := by
  rw [← ofIndex_index x, ← ofIndex_index y, sign, magnitude]

theorem text_injective (number : x.isNaN = false) (number' : y.isNaN = false)
    (same : x.text = y.text) : x = y := by
  have known := isNaN_eq_false.mp number
  have known' := isNaN_eq_false.mp number'
  have plain : ∀ {index}, index ≤ infinityIndex → '-' ∉ magnitudeText index := fun known member =>
    absurd (magnitudeText_chars known '-' member) (by decide)
  rw [text_number number, text_number number'] at same
  obtain ⟨sign, digits⟩ := signed_injective (plain known) (plain known') (String.ofList_injective same)
  exact eq_of_sign_index sign (magnitudeText_injective known known' digits)

/-- Numbers are written alike just if they are the same, bit for bit, or both are NaNs. -/
theorem text_eq_iff : x.text = y.text ↔ x = y ∨ x.isNaN = true ∧ y.isNaN = true := by
  constructor
  · intro same
    cases first : x.isNaN with
    | true =>
      cases second : y.isNaN with
      | true => exact .inr ⟨rfl, rfl⟩
      | false => exact absurd (same.symm.trans (text_nan first)) (text_ne_nan second)
    | false =>
      cases second : y.isNaN with
      | true => exact absurd (same.trans (text_nan second)) (text_ne_nan first)
      | false => exact .inl (text_injective first second same)
  · rintro (rfl | ⟨first, second⟩)
    · rfl
    · rw [text_nan first, text_nan second]

theorem isZero_iff : x.isZero = true ↔ x.index = 0 := decide_eq_true_iff

theorem place_eq_iff : x.place = y.place ↔ x = y ∨ x.isZero = true ∧ y.isZero = true := by
  rw [isZero_iff, isZero_iff]
  constructor
  · intro there
    unfold place at there
    by_cases sign : x.isNegative = y.isNegative
    · left
      apply eq_of_sign_index sign
      rw [sign] at there
      split at there <;> omega
    · right
      rw [Bool.eq_not.mpr (Ne.symm sign)] at there
      generalize x.isNegative = negative at there
      cases negative with
      | true =>
        rw [if_pos rfl, if_neg (by decide)] at there
        omega
      | false =>
        rw [if_neg (by decide), if_pos Bool.not_false] at there
        omega
  · rintro (rfl | ⟨first, second⟩)
    · rfl
    · simp [place, first, second]

theorem ieeeEq_iff : x.ieeeEq y = true ↔
    (x.isNaN = false ∧ y.isNaN = false) ∧ (x = y ∨ x.isZero = true ∧ y.isZero = true) := by
  rw [← place_eq_iff, ieeeEq, Bool.and_eq_true, Bool.and_eq_true, Bool.not_eq_true',
    Bool.not_eq_true', decide_eq_true_iff]

end Blockscript.Double

import Blockscript.Double.Nearest
import Mathlib.Data.Nat.Dist
import Mathlib.Tactic.Ring

/-!
Rounding of ratios. A ratio is rounded past an index if it lies beyond the middle of that index
and the next one, and a middle itself is passed from odd indices only. All that is known of
rounding follows from this: that no other index is nearer, that greater ratios have greater
indices, and that the form of a ratio does not matter.
-/
namespace Blockscript.Double

theorem units_eq (index : Nat) : units index =
    if index / 2 ^ 52 = 0 then index
    else (2 ^ 52 + index % 2 ^ 52) * 2 ^ (index / 2 ^ 52 - 1) := rfl

theorem units_scaled {exponent mantissa : Nat} (normal : exponent = 0 ∨ 2 ^ 52 ≤ mantissa)
    (within_ : mantissa ≤ 2 ^ 53) :
    units (exponent * 2 ^ 52 + mantissa) = mantissa * 2 ^ exponent := by
  rw [units_eq]
  by_cases small : mantissa < 2 ^ 52
  · obtain rfl : exponent = 0 := normal.resolve_right (Nat.not_le.mpr small)
    have low : (0 * 2 ^ 52 + mantissa) / 2 ^ 52 = 0 := by omega
    rw [if_pos low]
    omega
  · by_cases grown : mantissa = 2 ^ 53
    · have high : (exponent * 2 ^ 52 + mantissa) / 2 ^ 52 = exponent + 2 := by omega
      have rest : (exponent * 2 ^ 52 + mantissa) % 2 ^ 52 = 0 := by omega
      have step : exponent + 2 - 1 = exponent + 1 := by omega
      rw [high, rest, step, if_neg (by omega), grown, Nat.pow_succ 2 exponent]
      omega
    · have high : (exponent * 2 ^ 52 + mantissa) / 2 ^ 52 = exponent + 1 := by omega
      have rest : (exponent * 2 ^ 52 + mantissa) % 2 ^ 52 = mantissa - 2 ^ 52 := by omega
      have whole : 2 ^ 52 + (mantissa - 2 ^ 52) = mantissa := by omega
      rw [high, rest, whole, if_neg (by omega), Nat.add_sub_cancel]

theorem index_parts (index : Nat) : ∃ exponent mantissa,
    index = exponent * 2 ^ 52 + mantissa ∧ (exponent = 0 ∨ 2 ^ 52 ≤ mantissa) ∧
      mantissa < 2 ^ 53 := by
  refine ⟨index / 2 ^ 52 - 1, index - (index / 2 ^ 52 - 1) * 2 ^ 52, ?_, ?_, ?_⟩ <;> omega

theorem units_steps (index : Nat) : ∃ exponent mantissa,
    units index = mantissa * 2 ^ exponent ∧ units (index + 1) = (mantissa + 1) * 2 ^ exponent ∧
      (index ≠ 0 → mantissa ≠ 0) := by
  obtain ⟨exponent, mantissa, rfl, normal, within_⟩ := index_parts index
  refine ⟨exponent, mantissa, units_scaled normal (by omega), ?_, by omega⟩
  rw [Nat.add_assoc]
  exact units_scaled (by omega) within_

theorem units_strictMono : StrictMono units := by
  apply strictMono_nat_of_lt_succ
  intro index
  obtain ⟨exponent, mantissa, here, next, _⟩ := units_steps index
  rw [here, next]
  exact Nat.mul_lt_mul_of_pos_right (Nat.lt_succ_self mantissa) (Nat.two_pow_pos exponent)

theorem units_zero : units 0 = 0 := rfl

theorem units_next_le {index : Nat} (some : index ≠ 0) : units (index + 1) ≤ 2 * units index := by
  obtain ⟨exponent, mantissa, here, next, positive⟩ := units_steps index
  rw [here, next, ← Nat.mul_assoc]
  apply Nat.mul_le_mul_right
  have one := Nat.pos_of_ne_zero (positive some)
  omega

theorem units_indexBelow (n : Nat) :
    units (indexBelow n) ≤ n ∧ n < units (indexBelow n + 1) := by
  unfold indexBelow
  split
  · rename_i small
    have small : n < 2 ^ 53 := small
    have here := @units_scaled 0 n (.inl rfl) (by omega)
    have next := @units_scaled 0 (n + 1) (.inl rfl) (by omega)
    rw [Nat.zero_mul, Nat.zero_add, Nat.pow_zero, Nat.mul_one] at here next
    omega
  · rename_i large
    have large : 2 ^ 53 ≤ n := Nat.le_of_not_lt large
    have bits : 53 ≤ n.log2 := (Nat.le_log2 (by omega)).mpr large
    obtain ⟨exponent, split⟩ : ∃ exponent, n.log2 = exponent + 52 := ⟨n.log2 - 52, by omega⟩
    have low : 2 ^ 52 ≤ n / 2 ^ exponent := by
      rw [Nat.le_div_iff_mul_le (Nat.two_pow_pos exponent), ← Nat.pow_add, Nat.add_comm, ← split]
      exact Nat.log2_self_le (by omega)
    have high : n / 2 ^ exponent < 2 ^ 53 := by
      rw [Nat.div_lt_iff_lt_mul (Nat.two_pow_pos exponent), ← Nat.pow_add]
      have sum : 53 + exponent = n.log2 + 1 := by omega
      rw [sum]
      exact Nat.lt_log2_self
    have power : Nat.pow 2 52 = 2 ^ 52 := rfl
    rw [split, Nat.add_sub_cancel, Nat.shiftRight_eq_div_pow, power, Nat.add_assoc,
      units_scaled (.inr low) (Nat.le_of_lt high), units_scaled (.inr (by omega)) high]
    exact ⟨Nat.div_mul_le_self n _, Nat.lt_mul_of_div_lt (Nat.lt_succ_self _) (Nat.two_pow_pos _)⟩

/-- The ratio is rounded to more than the magnitude at the index. -/
def Beyond (num den index : Nat) : Prop :=
  (units index + units (index + 1)) * den < 2 * num ∨
    (units index + units (index + 1)) * den = 2 * num ∧ index % 2 = 1

variable {num den num' den' index other : Nat}

theorem beyond_of_le (positive : 0 < den) (less : index < other) (reached : units other * den ≤ num) :
    Beyond num den index := by
  left
  have below : units index < units other := units_strictMono less
  have next : units (index + 1) ≤ units other := units_strictMono.monotone less
  calc (units index + units (index + 1)) * den
      < (units other + units other) * den := Nat.mul_lt_mul_of_pos_right (by omega) positive
    _ = 2 * (units other * den) := by ring
    _ ≤ 2 * num := Nat.mul_le_mul_left 2 reached

theorem not_beyond_of_lt (less : num < units other * den) (le : other ≤ index) :
    ¬ Beyond num den index := by
  have here : units other ≤ units index := units_strictMono.monotone le
  have next : units other ≤ units (index + 1) := units_strictMono.monotone (by omega)
  have above : 2 * num < (units index + units (index + 1)) * den := by
    calc 2 * num < 2 * (units other * den) := by omega
      _ = (units other + units other) * den := by ring
      _ ≤ _ := Nat.mul_le_mul_right den (by omega)
  unfold Beyond
  omega

theorem lt_nearestIndex (positive : 0 < den) :
    index < nearestIndex num den ↔ index < infinityIndex ∧ Beyond num den index := by
  obtain ⟨at_least, at_most⟩ := units_indexBelow (num / den)
  generalize low_eq : indexBelow (num / den) = low at at_least at_most
  have reached : units low * den ≤ num := (Nat.le_div_iff_mul_le positive).mp at_least
  have short : num < units (low + 1) * den := (Nat.div_lt_iff_lt_mul positive).mp at_most
  have under : ∀ {i}, i < low → Beyond num den i := fun less => beyond_of_le positive less reached
  have above : ∀ {i}, low + 1 ≤ i → ¬ Beyond num den i := fun more => not_beyond_of_lt short more
  unfold nearestIndex
  simp only [low_eq]
  split
  · rename_i full
    constructor
    · intro less
      exact ⟨less, under (by omega)⟩
    · exact And.left
  · rename_i finite
    rcases Nat.lt_trichotomy index low with less | rfl | more
    · have beyond := under less
      simp only [beyond, and_true]
      split
      · omega
      · split <;> omega
    · -- the middle behind the index decides
      unfold Beyond
      split
      · omega
      · split <;> omega
    · have within_ := above more
      simp only [within_, and_false, iff_false]
      split
      · omega
      · split <;> omega

theorem nearestIndex_le_infinity (positive : 0 < den) : nearestIndex num den ≤ infinityIndex := by
  by_contra more
  have less := (lt_nearestIndex positive).mp (Nat.not_le.mp more)
  exact Nat.lt_irrefl _ less.1

theorem nearestIndex_le (positive : 0 < den) (positive' : 0 < den')
    (more : ∀ index, Beyond num den index → Beyond num' den' index) :
    nearestIndex num den ≤ nearestIndex num' den' := by
  apply le_of_forall_lt
  intro index less
  have known := (lt_nearestIndex positive).mp less
  exact (lt_nearestIndex positive').mpr ⟨known.1, more index known.2⟩

theorem nearestIndex_mono (positive : 0 < den) (less : num ≤ num') :
    nearestIndex num den ≤ nearestIndex num' den := by
  apply nearestIndex_le positive positive
  intro index beyond
  unfold Beyond at beyond ⊢
  omega

theorem nearestIndex_scaled (positive : 0 < den) {factor : Nat} (some : 0 < factor) :
    nearestIndex (num * factor) (den * factor) = nearestIndex num den := by
  have same : ∀ index, Beyond (num * factor) (den * factor) index ↔ Beyond num den index := by
    intro index
    have left : (units index + units (index + 1)) * (den * factor) =
        (units index + units (index + 1)) * den * factor := by ring
    have right : 2 * (num * factor) = 2 * num * factor := by ring
    unfold Beyond
    rw [left, right, Nat.mul_lt_mul_right some, Nat.mul_right_cancel_iff some]
  apply Nat.le_antisymm
  · exact nearestIndex_le (Nat.mul_pos positive some) positive fun index => (same index).mp
  · exact nearestIndex_le positive (Nat.mul_pos positive some) fun index => (same index).mpr

theorem nearestIndex_mono_ratio (positive : 0 < den) (positive' : 0 < den')
    (less : num * den' ≤ num' * den) : nearestIndex num den ≤ nearestIndex num' den' := by
  rw [← nearestIndex_scaled positive positive', ← nearestIndex_scaled positive' positive,
    Nat.mul_comm den' den]
  exact nearestIndex_mono (Nat.mul_pos positive positive') less

theorem nearestIndex_units (positive : 0 < den) (finite : index ≤ infinityIndex) :
    nearestIndex (units index * den) den = index := by
  apply eq_of_forall_lt_iff
  intro other
  rw [lt_nearestIndex positive]
  constructor
  · rintro ⟨_, beyond⟩
    by_contra more
    have short : units index * den < units (other + 1) * den := Nat.mul_lt_mul_of_pos_right
      (units_strictMono (by omega)) positive
    have here : units index ≤ units other := units_strictMono.monotone (by omega)
    have next : units index < units (other + 1) := units_strictMono (by omega)
    have above : 2 * (units index * den) < (units other + units (other + 1)) * den := by
      calc 2 * (units index * den) = (units index + units index) * den := by ring
        _ < _ := Nat.mul_lt_mul_of_pos_right (by omega) positive
    unfold Beyond at beyond
    omega
  · intro less
    exact ⟨by omega, beyond_of_le positive less (Nat.le_refl _)⟩

theorem nearestIndex_zero (positive : 0 < den) : nearestIndex 0 den = 0 := by
  have exact_ := @nearestIndex_units den 0 positive (by decide)
  rwa [units_zero, Nat.zero_mul] at exact_

/-- The ratio, in units, from the magnitude at an index. Both are taken `den` times. -/
def distance (num den index : Nat) : Nat := Nat.dist (units index * den) num

/-- No index is nearer to the ratio than this one, and if another one is as near, this one is even.
    Infinity counts as the magnitude behind the greatest finite one. -/
structure Nearest (num den index : Nat) : Prop where
  bound : index ≤ infinityIndex
  nearest : ∀ other ≤ infinityIndex, distance num den index ≤ distance num den other
  even : ∀ other ≤ infinityIndex, distance num den index = distance num den other →
    other = index ∨ index % 2 = 0

/-- Rounding is correct. -/
theorem nearestIndex_nearest (num : Nat) (positive : 0 < den) :
    Nearest num den (nearestIndex num den) := by
  have known := fun index => @lt_nearestIndex num den index positive
  have bound := @nearestIndex_le_infinity num den positive
  have scaled : StrictMono fun index => units index * den :=
    fun _ _ less => Nat.mul_lt_mul_of_pos_right (units_strictMono less) positive
  generalize nearestIndex num den = found at known bound
  have both : ∀ other ≤ infinityIndex, distance num den found ≤ distance num den other ∧
      (distance num den found = distance num den other → other = found ∨ found % 2 = 0) := by
    intro other finite
    simp only [Beyond, Nat.add_mul] at known
    unfold distance Nat.dist
    rcases Nat.lt_trichotomy other found with less | rfl | more
    · -- the middle before the one found is passed
      obtain ⟨before, rfl⟩ : ∃ before, found = before + 1 := ⟨found - 1, by omega⟩
      have passed := ((known before).mp (Nat.lt_succ_self before)).2
      have step : units before * den < units (before + 1) * den := scaled (Nat.lt_succ_self before)
      have le : units other * den ≤ units before * den := scaled.monotone (Nat.le_of_lt_succ less)
      omega
    · exact ⟨Nat.le_refl _, fun _ => .inl rfl⟩
    · have stays := (known found).not.mp (Nat.lt_irrefl found)
      have step : units found * den < units (found + 1) * den := scaled (Nat.lt_succ_self found)
      have le : units (found + 1) * den ≤ units other * den := scaled.monotone more
      omega
  exact ⟨bound, fun other finite => (both other finite).1, fun other finite => (both other finite).2⟩

end Blockscript.Double

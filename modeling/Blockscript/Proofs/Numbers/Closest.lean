import Blockscript.Proofs.Numbers.Shortest

/-!
The decimal of a magnitude is the closest of those with as few digits that read back. On its own
grid it is one of the two neighbours; points of finer grids have too many digits, apart from some
right below a power of ten, and there the power is closer.
-/
namespace Blockscript.Double

variable {index digits digits' grid zeros places size steps : Nat}

theorem neighbour_closest {reads : Nat → Bool} {place step : Nat} (positive : 0 < step)
    (found : neighbour reads place step = some digits)
    (below : digits' ≤ place / step → reads (place / step) = true)
    (above : place / step < digits' → reads (place / step + 1) = true) :
    Nat.dist place (digits * step) ≤ Nat.dist place (digits' * step) := by
  have low : place / step * step ≤ place := Nat.div_mul_le_self _ _
  have high : place < (place / step + 1) * step := Nat.lt_mul_of_div_lt (Nat.lt_succ_self _) positive
  have side : digits' * step ≤ place / step * step ∧ reads (place / step) = true ∨
      (place / step + 1) * step ≤ digits' * step ∧ reads (place / step + 1) = true := by
    rcases le_or_gt digits' (place / step) with le | more
    · exact .inl ⟨Nat.mul_le_mul_right step le, below le⟩
    · exact .inr ⟨Nat.mul_le_mul_right step more, above more⟩
  unfold neighbour at found
  dsimp only at found
  generalize place / step = point at *
  have middle : (2 * point + 1) * step = point * step + (point + 1) * step := by ring
  unfold Nat.dist
  split at found
  · split at found
    · cases found
      omega
    · cases found
      omega
  · rename_i _ high
    cases found
    simp only [high, Bool.false_eq_true, and_false, or_false] at side
    omega
  · rename_i low _
    cases found
    simp only [low, Bool.false_eq_true, and_false, false_or] at side
    omega
  · cases found

theorem onGrid_closest (finite : index < infinityIndex) (found : onGrid index grid = some digits)
    (reads : readsBack index digits' grid = true) :
    Nat.dist (exact index) (digits * 10 ^ grid) ≤ Nat.dist (exact index) (digits' * 10 ^ grid) := by
  obtain ⟨below, above⟩ := neighbour_of_reads finite reads
  exact neighbour_closest (tens_pos grid) found below above

theorem firstHit_closest (finite : index < infinityIndex) (start : Nat)
    (reads : readsBack index digits' (firstHit (onGrid index) (exact index) start).2 = true) :
    Nat.dist (exact index) ((firstHit (onGrid index) (exact index) start).1 *
        10 ^ (firstHit (onGrid index) (exact index) start).2) ≤
      Nat.dist (exact index) (digits' * 10 ^ (firstHit (onGrid index) (exact index) start).2) := by
  induction start with
  | zero =>
    rw [firstHit, Nat.pow_zero, Nat.mul_one, Nat.dist_self]
    exact Nat.zero_le _
  | succ start ih =>
    rw [firstHit] at reads ⊢
    split at reads
    · rename_i digits found
      exact onGrid_closest finite found reads
    · exact ih reads

theorem decimal_closest_grid (finite : index < infinityIndex)
    (reads : reading (digits' * 10 ^ (decimal index).2) = index) :
    Nat.dist (exact index) ((decimal index).1 * 10 ^ (decimal index).2) ≤
      Nat.dist (exact index) (digits' * 10 ^ (decimal index).2) :=
  firstHit_closest finite (coarseGrid index) (readsBack_iff.mpr reads)

theorem fineness_bounds : ∃ power, 49 * 10 ^ power < fineness ∧ fineness < 50 * 10 ^ power :=
  ⟨749, by decide +kernel⟩

theorem reading_middle (finite : index < infinityIndex) (reads : reading steps = index) :
    2 * steps ≤ (units index + units (index + 1)) * fineness := by
  by_contra more
  have beyond : Beyond steps fineness index := .inl (Nat.not_le.mp more)
  have less := (lt_nearestIndex fineness_pos).mpr ⟨finite, beyond⟩
  have same : nearestIndex steps fineness = index := reads
  omega

theorem least_of_power {step : Nat} (far : 2 * exact index < 19 * step)
    (middle : 2 * (step * 10) ≤ (units index + units (index + 1)) * fineness) :
    units index = index ∧ units (index + 1) = index + 1 ∧ index ≤ 9 := by
  obtain ⟨exponent, mantissa, rfl, normal, within_⟩ := index_parts index
  have here := units_scaled normal (Nat.le_of_lt within_)
  have next := @units_scaled exponent (mantissa + 1) (by omega) within_
  rw [exact, here] at far
  rw [here, Nat.add_assoc, next] at middle
  have ulp : (mantissa * 2 ^ exponent + (mantissa + 1) * 2 ^ exponent) * fineness =
      2 * (mantissa * 2 ^ exponent * fineness) + 2 ^ exponent * fineness := by ring
  have few : 2 * mantissa < 19 := by
    apply Nat.lt_of_mul_lt_mul_right (a := 2 ^ exponent * fineness)
    have whole : 2 * mantissa * (2 ^ exponent * fineness) =
        2 * (mantissa * 2 ^ exponent * fineness) := by ring
    omega
  obtain rfl : exponent = 0 := by omega
  rw [Nat.pow_zero, Nat.mul_one] at here next
  rw [Nat.zero_mul, Nat.zero_add] at here next ⊢
  exact ⟨here, next, by omega⟩

/-- A power of ten that is read as a magnitude is not beyond it by more than a twentieth: in the
    room next to the least magnitudes there is one power of ten, and it is close. -/
theorem power_close (some : index ≠ 0) (finite : index < infinityIndex)
    (reads : reading (10 ^ (grid + 1)) = index) : 19 * 10 ^ grid ≤ 2 * exact index := by
  by_contra far
  have far : 2 * exact index < 19 * 10 ^ grid := Nat.not_le.mp far
  have middle := reading_middle finite reads
  obtain ⟨here, next, few⟩ := least_of_power far middle
  obtain ⟨power, least, most⟩ := fineness_bounds
  have lower : ∀ {k}, k ≤ grid → 10 ^ k ≤ 10 ^ grid := Nat.pow_le_pow_right (by decide)
  have upper : ∀ {k}, grid ≤ k → 10 ^ grid ≤ 10 ^ k := Nat.pow_le_pow_right (by decide)
  have one : fineness ≤ index * fineness := Nat.le_mul_of_pos_left _ (Nat.pos_of_ne_zero some)
  have nine : index * fineness ≤ 9 * fineness := Nat.mul_le_mul_right _ few
  rw [exact, here] at far
  have room : (index + (index + 1)) * fineness = 2 * (index * fineness) + fineness := by ring
  rw [here, next, room, Nat.pow_succ] at middle
  have ten : 10 ^ (power + 1) = 10 * 10 ^ power := Nat.pow_succ'
  have hundred : 10 ^ (power + 2) = 10 * 10 ^ (power + 1) := Nat.pow_succ'
  rcases Nat.lt_trichotomy grid (power + 1) with less | rfl | more
  · have bound := upper (Nat.le_of_lt_succ less)
    omega
  · rcases Nat.lt_or_ge 1 index with two | first
    · have double : 2 * fineness ≤ index * fineness := Nat.mul_le_mul_right _ two
      omega
    · have single : index * fineness ≤ 1 * fineness := Nat.mul_le_mul_right _ first
      omega
  · have bound := lower more
    omega

section

variable (reads : nearestIndex (digits * 10 ^ zeros * Nat.pow 2 1074) (10 ^ places) = index)
  (finite : index < infinityIndex)

include reads finite

theorem closest_coarse (coarse : (decimal index).2 + places ≤ zeros + 1074) :
    Nat.dist (exact index) ((decimal index).1 * 10 ^ (decimal index).2) * 10 ^ places ≤
      Nat.dist (exact index * 10 ^ places) (digits * 10 ^ (zeros + 1074)) := by
  have closest := fun {digits'} => @decimal_closest_grid index digits' finite
  generalize (decimal index).2 = grid at closest coarse ⊢
  obtain ⟨more, split⟩ : ∃ more, zeros + 1074 = more + grid + places :=
    ⟨zeros + 1074 - grid - places, by omega⟩
  have point : digits * 10 ^ (more + grid) = digits * 10 ^ more * 10 ^ grid := by
    rw [Nat.pow_add, Nat.mul_assoc]
  rw [nearestIndex_decimal split, point] at reads
  rw [split, Nat.pow_add _ _ places, ← Nat.mul_assoc, point, Nat.dist_mul_right]
  exact Nat.mul_le_mul_right _ (closest reads)

variable (some : index ≠ 0) (short : digits < 10 ^ size)
  (long : 10 ^ size ≤ 10 * (decimal index).1)

include some short long

/-- On a finer grid, only a single digit has no more digits than the decimal, and then the power of
    ten on the grid of the decimal reads back. -/
theorem finer_digit (finer : zeros + 1074 < (decimal index).2 + places) :
    digits ≤ 9 ∧ reading (10 ^ (decimal index).2) = index := by
  cases size with
  | zero => exact absurd (Nat.lt_one_iff.mp short) (digits_nonzero some reads)
  | succ size =>
    have tenfold : 10 ^ (size + 1) = 10 * 10 ^ size := Nat.pow_succ'
    have less : digits * 10 ^ (zeros + 1074) ≤ 10 ^ size * 10 ^ ((decimal index).2 + places) := by
      calc digits * 10 ^ (zeros + 1074)
        _ ≤ 10 ^ (size + 1) * 10 ^ (zeros + 1074) := Nat.mul_le_mul_right _ (Nat.le_of_lt short)
        _ = 10 ^ size * 10 ^ (zeros + 1074 + 1) := by
            rw [← Nat.pow_add, ← Nat.pow_add, Nat.add_right_comm, Nat.add_assoc size]
        _ ≤ 10 ^ size * 10 ^ ((decimal index).2 + places) :=
            Nat.mul_le_mul_left _ (Nat.pow_le_pow_right (by decide) finer)
    obtain ⟨rfl, back⟩ := power_between some reads finite less (by omega)
    exact ⟨Nat.le_of_lt_succ short, back⟩

theorem closest_fine (finer : zeros + 1074 < (decimal index).2 + places) :
    Nat.dist (exact index) ((decimal index).1 * 10 ^ (decimal index).2) * 10 ^ places ≤
      Nat.dist (exact index * 10 ^ places) (digits * 10 ^ (zeros + 1074)) := by
  obtain ⟨digit, back⟩ := finer_digit reads finite some short long finer
  have closest := @decimal_closest_grid index 1 finite (by rwa [Nat.one_mul])
  rw [Nat.one_mul] at closest
  generalize (decimal index).2 = grid at closest back finer ⊢
  have small : 10 * (digits * 10 ^ (zeros + 1074)) ≤ 9 * (10 ^ grid * 10 ^ places) := by
    calc 10 * (digits * 10 ^ (zeros + 1074))
      _ = digits * 10 ^ (zeros + 1074 + 1) := by rw [Nat.mul_left_comm, ← Nat.pow_succ']
      _ ≤ 9 * 10 ^ (grid + places) :=
          Nat.mul_le_mul digit (Nat.pow_le_pow_right (by decide) finer)
      _ = 9 * (10 ^ grid * 10 ^ places) := by rw [Nat.pow_add]
  refine Nat.le_trans (Nat.mul_le_mul_right _ closest) ?_
  rw [← Nat.dist_mul_right]
  generalize digits * 10 ^ (zeros + 1074) = point at small ⊢
  unfold Nat.dist
  -- the numeral is well below the power of ten, which is not far beyond the magnitude
  rcases le_or_gt (10 ^ grid) (exact index) with beyond | before
  · have beyond := Nat.mul_le_mul_right (10 ^ places) beyond
    omega
  · cases grid with
    | zero =>
      have positive : 0 < units index * fineness :=
        Nat.mul_pos (units_strictMono (Nat.pos_of_ne_zero some)) fineness_pos
      exact absurd positive (Nat.not_lt.mpr (Nat.le_of_lt_succ before))
    | succ grid =>
      have room := Nat.mul_le_mul_right (10 ^ places) (power_close some finite back)
      have tenfold : 10 ^ (grid + 1) * 10 ^ places = 10 * (10 ^ grid * 10 ^ places) := by
        rw [Nat.pow_succ', Nat.mul_assoc]
      rw [Nat.mul_assoc, Nat.mul_assoc] at room
      omega

/-- Of all that read back with no more digits, none is closer to the magnitude than its decimal.
    Distances are taken `10 ^ places` times. -/
theorem decimal_closest :
    Nat.dist (exact index) ((decimal index).1 * 10 ^ (decimal index).2) * 10 ^ places ≤
      Nat.dist (exact index * 10 ^ places) (digits * 10 ^ (zeros + 1074)) := by
  rcases le_or_gt ((decimal index).2 + places) (zeros + 1074) with coarse | finer
  · exact closest_coarse reads finite coarse
  · exact closest_fine reads finite some short long finer

end

end Blockscript.Double

import Blockscript.Double.Shortest
import Blockscript.Proofs.Numbers.Rounding

/-!
The decimal of a magnitude. It reads back as the magnitude, stands on the coarsest grid on which
anything does, and so no decimal of fewer digits reads back.
-/
namespace Blockscript.Double

variable {index digits grid zeros places steps steps' : Nat}

theorem tens_pos (grid : Nat) : 0 < 10 ^ grid := Nat.pow_pos (by decide)

theorem fineness_pos : 0 < fineness := by
  unfold fineness
  generalize 1074 = exponent
  exact Nat.pow_pos (by decide)

theorem readsBack_iff : readsBack index digits grid = true ↔ reading (digits * 10 ^ grid) = index :=
  beq_iff_eq

theorem reading_mono (less : steps ≤ steps') : reading steps ≤ reading steps' :=
  nearestIndex_mono fineness_pos less

theorem reading_exact (finite : index ≤ infinityIndex) : reading (exact index) = index :=
  nearestIndex_units fineness_pos finite

theorem reading_zero : reading 0 = 0 := nearestIndex_zero fineness_pos

theorem reading_between {low high : Nat} (at_least : low ≤ steps) (at_most : steps ≤ high)
    (below : reading low = index) (above : reading high = index) : reading steps = index :=
  Nat.le_antisymm (above ▸ reading_mono at_most) (below ▸ reading_mono at_least)

theorem reading_tenfold (some : index ≠ 0) (finite : index < infinityIndex)
    (more : 10 * exact index ≤ steps) : index < reading steps := by
  have positive : 0 < units index := units_strictMono (Nat.pos_of_ne_zero some)
  have next := units_next_le some
  apply (lt_nearestIndex fineness_pos).mpr
  refine ⟨finite, .inl ?_⟩
  calc (units index + units (index + 1)) * fineness
      < 20 * units index * fineness := Nat.mul_lt_mul_of_pos_right (by omega) fineness_pos
    _ = 2 * (10 * exact index) := by unfold exact; ring
    _ ≤ 2 * steps := Nat.mul_le_mul_left 2 more

theorem twos_fineness : Nat.pow 2 1074 * fineness = 10 ^ 1074 := by
  unfold fineness
  generalize 1074 = exponent
  exact (Nat.mul_pow 2 5 exponent).symm

theorem worth_fineness (digits zeros : Nat) :
    digits * 10 ^ zeros * Nat.pow 2 1074 * fineness = digits * 10 ^ (zeros + 1074) := by
  rw [Nat.mul_assoc, twos_fineness, Nat.mul_assoc, Nat.pow_add]

theorem nearestIndex_decimal (same : zeros + 1074 = grid + places) :
    nearestIndex (digits * 10 ^ zeros * Nat.pow 2 1074) (10 ^ places) =
      reading (digits * 10 ^ grid) := by
  unfold reading
  rw [← nearestIndex_scaled (tens_pos places) fineness_pos,
    ← nearestIndex_scaled fineness_pos (tens_pos places), worth_fineness, same, Nat.pow_add,
    Nat.mul_comm fineness, Nat.mul_assoc]

theorem neighbour_reads {reads : Nat → Bool} {place step : Nat}
    (found : neighbour reads place step = some digits) : reads digits = true := by
  unfold neighbour at found
  dsimp only at found
  split at found
  · rename_i low high
    split at found
    · cases found; exact low
    · cases found; exact high
  · rename_i low _
    cases found; exact low
  · rename_i _ high
    cases found; exact high
  · cases found

theorem neighbour_none {reads : Nat → Bool} {place step : Nat}
    (none : neighbour reads place step = none) :
    reads (place / step) = false ∧ reads (place / step + 1) = false := by
  unfold neighbour at none
  dsimp only at none
  split at none
  · split at none <;> cases none
  · cases none
  · cases none
  · rename_i low high
    exact ⟨low, high⟩

theorem onGrid_reads (found : onGrid index grid = some digits) :
    readsBack index digits grid = true :=
  @neighbour_reads digits (readsBack index · grid) _ _ found

theorem below_exact (index grid : Nat) : exact index / 10 ^ grid * 10 ^ grid ≤ exact index :=
  Nat.div_mul_le_self _ _

theorem above_exact (index grid : Nat) : exact index < (exact index / 10 ^ grid + 1) * 10 ^ grid :=
  Nat.lt_mul_of_div_lt (Nat.lt_succ_self _) (tens_pos grid)

theorem neighbour_of_reads (finite : index < infinityIndex)
    (reads : readsBack index digits grid = true) :
    (digits ≤ exact index / 10 ^ grid → readsBack index (exact index / 10 ^ grid) grid = true) ∧
    (exact index / 10 ^ grid < digits →
      readsBack index (exact index / 10 ^ grid + 1) grid = true) := by
  have back := reading_exact (Nat.le_of_lt finite)
  simp only [readsBack_iff] at reads ⊢
  constructor
  · intro le
    exact reading_between (Nat.mul_le_mul_right _ le) (below_exact index grid) reads back
  · intro more
    exact reading_between (Nat.le_of_lt (above_exact index grid)) (Nat.mul_le_mul_right _ more)
      back reads

/-- If the neighbours of a magnitude do not read back, no point of the grid does. -/
theorem onGrid_none (finite : index < infinityIndex) (none : onGrid index grid = none)
    (digits : Nat) : readsBack index digits grid = false := by
  obtain ⟨low, high⟩ := neighbour_none none
  rw [Bool.eq_false_iff] at low high ⊢
  intro reads
  obtain ⟨below, above⟩ := neighbour_of_reads finite reads
  rcases le_or_gt digits (exact index / 10 ^ grid) with le | more
  · exact low (below le)
  · exact high (above more)

theorem firstHit_reads (finite : index < infinityIndex) (start : Nat) :
    readsBack index (firstHit (onGrid index) (exact index) start).1
      (firstHit (onGrid index) (exact index) start).2 = true := by
  induction start with
  | zero =>
    rw [readsBack_iff, firstHit, Nat.pow_zero, Nat.mul_one]
    exact reading_exact (Nat.le_of_lt finite)
  | succ start ih =>
    rw [firstHit]
    split
    · rename_i digits found
      exact onGrid_reads found
    · exact ih

theorem firstHit_coarsest (finite : index < infinityIndex) {start : Nat}
    (coarser : (firstHit (onGrid index) (exact index) start).2 < grid) (within_ : grid ≤ start)
    (digits : Nat) : readsBack index digits grid = false := by
  induction start with
  | zero => omega
  | succ start ih =>
    rw [firstHit] at coarser
    split at coarser
    · omega
    · rename_i none
      by_cases last : grid = start + 1
      · subst last
        exact onGrid_none finite none digits
      · exact ih coarser (by omega)

theorem two_pow_lt_ten_pow (bits : Nat) : 2 ^ bits < 10 ^ (bits * 28 / 93 + 1) := by
  have more : bits * 28 < (bits * 28 / 93 + 1) * 93 := Nat.lt_mul_of_div_lt (by omega) (by decide)
  apply lt_of_pow_lt_pow_left₀ 93 (Nat.zero_le _)
  calc (2 ^ bits) ^ 93 = (2 ^ 93) ^ bits := by rw [← Nat.pow_mul, ← Nat.pow_mul, Nat.mul_comm]
    _ ≤ (10 ^ 28) ^ bits := Nat.pow_le_pow_left (by decide) bits
    _ = 10 ^ (bits * 28) := by rw [← Nat.pow_mul, Nat.mul_comm]
    _ < 10 ^ ((bits * 28 / 93 + 1) * 93) := Nat.pow_lt_pow_right (by decide) more
    _ = (10 ^ (bits * 28 / 93 + 1)) ^ 93 := Nat.pow_mul 10 _ 93

theorem exact_lt_coarse (index : Nat) : exact index < 10 ^ coarseGrid index := by
  calc exact index < 2 ^ ((exact index).log2 + 1) := Nat.lt_log2_self
    _ < 10 ^ coarseGrid index := two_pow_lt_ten_pow _

theorem reads_nonzero (some : index ≠ 0) (reads : reading (digits * 10 ^ grid) = index) :
    digits ≠ 0 := by
  rintro rfl
  rw [Nat.zero_mul, reading_zero] at reads
  exact some reads.symm

theorem beyond_coarse (some : index ≠ 0) (finite : index < infinityIndex)
    (coarser : coarseGrid index < grid) (digits : Nat) : readsBack index digits grid = false := by
  rw [Bool.eq_false_iff, ne_eq, readsBack_iff]
  intro reads
  have positive := Nat.pos_of_ne_zero (reads_nonzero some reads)
  have tenfold : 10 * exact index ≤ digits * 10 ^ grid := by
    calc 10 * exact index ≤ 10 * 10 ^ coarseGrid index :=
          Nat.mul_le_mul_left 10 (Nat.le_of_lt (exact_lt_coarse index))
      _ = 10 ^ (coarseGrid index + 1) := by rw [Nat.pow_succ, Nat.mul_comm]
      _ ≤ 10 ^ grid := Nat.pow_le_pow_right (by decide) coarser
      _ ≤ digits * 10 ^ grid := Nat.le_mul_of_pos_left _ positive
  have more := reading_tenfold some finite tenfold
  omega

theorem decimal_reads (finite : index < infinityIndex) :
    reading ((decimal index).1 * 10 ^ (decimal index).2) = index :=
  readsBack_iff.mp (firstHit_reads finite (coarseGrid index))

theorem decimal_coarsest (some : index ≠ 0) (finite : index < infinityIndex)
    (coarser : (decimal index).2 < grid) (digits : Nat) :
    reading (digits * 10 ^ grid) ≠ index := by
  have none : readsBack index digits grid = false := by
    rcases le_or_gt grid (coarseGrid index) with within_ | more
    · exact firstHit_coarsest finite coarser within_ digits
    · exact beyond_coarse some finite more digits
  rw [Bool.eq_false_iff, ne_eq, readsBack_iff] at none
  exact none

theorem decimal_last (some : index ≠ 0) (finite : index < infinityIndex) :
    (decimal index).1 % 10 ≠ 0 := by
  intro round
  obtain ⟨digits, tens⟩ := Nat.dvd_of_mod_eq_zero round
  have reads := decimal_reads finite
  rw [tens, Nat.mul_comm 10, Nat.mul_assoc, ← Nat.pow_succ'] at reads
  exact decimal_coarsest some finite (Nat.lt_succ_self _) digits reads

theorem le_reading
    (reads : nearestIndex (digits * 10 ^ zeros * Nat.pow 2 1074) (10 ^ places) = index)
    (le : digits * 10 ^ (zeros + 1074) ≤ steps * 10 ^ places) : index ≤ reading steps := by
  rw [← reads]
  apply nearestIndex_mono_ratio (tens_pos places) fineness_pos
  rwa [worth_fineness]

section

variable (some : index ≠ 0)
  (reads : nearestIndex (digits * 10 ^ zeros * Nat.pow 2 1074) (10 ^ places) = index)

include some reads

theorem digits_nonzero : digits ≠ 0 := by
  rintro rfl
  have nothing : ∀ unit, 0 * 10 ^ zeros * unit = 0 := by simp
  rw [nothing, nearestIndex_zero (tens_pos places)] at reads
  exact some reads.symm

variable (finite : index < infinityIndex) {size : Nat}

include finite

theorem power_between
    (less : digits * 10 ^ (zeros + 1074) ≤ 10 ^ size * 10 ^ ((decimal index).2 + places))
    (more : 10 ^ size ≤ (decimal index).1) :
    size = 0 ∧ reading (10 ^ (decimal index).2) = index := by
  have back := decimal_reads finite
  have coarsest := fun {coarser} => @decimal_coarsest index coarser some finite
  generalize (decimal index).1 = digits' at back more
  generalize (decimal index).2 = grid' at back coarsest less ⊢
  have below : index ≤ reading (10 ^ size * 10 ^ grid') := by
    apply le_reading reads
    rwa [Nat.mul_assoc, ← Nat.pow_add]
  have above : reading (10 ^ size * 10 ^ grid') ≤ index := by
    rw [← back]
    exact reading_mono (Nat.mul_le_mul_right _ more)
  have power := Nat.le_antisymm above below
  rw [← Nat.pow_add, ← Nat.one_mul (10 ^ _)] at power
  -- a greater power of ten would be a point of a coarser grid
  obtain rfl : size = 0 := by
    by_contra coarser
    exact coarsest (by omega) 1 power
  rw [Nat.zero_add, Nat.one_mul] at power
  exact ⟨rfl, power⟩

/-- What has fewer digits is a point of a coarser grid, or it is less: then the power of ten in
    front of the decimal reads back as well, and that is a point of a coarser grid. -/
theorem decimal_shortest (short : digits < 10 ^ size) : (decimal index).1 < 10 ^ size := by
  by_contra long
  have long : 10 ^ size ≤ (decimal index).1 := Nat.le_of_not_lt long
  by_cases fine : zeros + 1074 ≤ (decimal index).2 + places
  · have less : digits * 10 ^ (zeros + 1074) ≤ 10 ^ size * 10 ^ ((decimal index).2 + places) :=
      Nat.mul_le_mul (Nat.le_of_lt short) (Nat.pow_le_pow_right (by decide) fine)
    obtain ⟨rfl, -⟩ := power_between some reads finite less long
    exact digits_nonzero some reads (Nat.lt_one_iff.mp short)
  · have point : zeros + 1074 = zeros + 1074 - places + places := by omega
    rw [nearestIndex_decimal point] at reads
    exact decimal_coarsest some finite (by omega) digits reads

end

end Blockscript.Double

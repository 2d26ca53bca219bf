import Blockscript.Proofs.Numbers.Closest
import Blockscript.Proofs.Numbers.Texts

/-!
How numbers are written. The text of a finite number is a numeral with its sign in front: digits with
a point where one is needed, in no shorter form, with no idle zeros. Of the numerals that read back it
has the fewest digits, and is the closest of those. A NaN has no sign.
-/
namespace Blockscript.Double

variable {index digits grid zeros zeros' : Nat}
  {text whole fraction whole' fraction' : List Char} {x : Double}

def counting (whole fraction : List Char) : Nat := (significant (whole ++ fraction)).length

structure Reads (index : Nat) (whole fraction : List Char) : Prop where
  digits : ∀ c ∈ whole ++ fraction, c.isDigit
  back : ofDigits whole fraction = ofIndex false index

def offset (index : Nat) (whole fraction : List Char) : Nat :=
  distance (digitsValue (whole ++ fraction) * Nat.pow 2 1074) (10 ^ fraction.length) index

/-- Nothing that reads back has fewer digits than the numeral, or as few and is closer. -/
structure Shortest (index : Nat) (whole fraction : List Char) : Prop where
  reads : Reads index whole fraction
  fewest : ∀ whole' fraction', Reads index whole' fraction' →
    counting whole fraction ≤ counting whole' fraction'
  closest : ∀ whole' fraction', Reads index whole' fraction' →
    counting whole' fraction' = counting whole fraction →
      offset index whole fraction * 10 ^ fraction'.length ≤
        offset index whole' fraction' * 10 ^ fraction.length

/-- No zero stands in front of other digits before the point, and none at the end behind it. -/
structure Plain (whole fraction : List Char) : Prop where
  front : whole = ['0'] ∨ whole.head? ≠ some '0'
  behind : fraction.getLast? ≠ some '0'

inductive Written (x : Double) : String → Prop where
  | nan (none : x.isNaN = true) : Written x "NaN"
  | infinite (top : x.index = infinityIndex) :
      Written x (String.ofList (signed x.isNegative ['i', 'n', 'f']))
  | finite {text whole fraction : List Char} (below : x.isFinite = true)
      (numeral : Numeral text whole fraction) (plain : Plain whole fraction)
      (shortest : Shortest x.index whole fraction) :
      Written x (String.ofList (signed x.isNegative text))

theorem toDigits_long {n : Nat} (some : n ≠ 0) : 10 ^ (Nat.toDigits 10 n).length ≤ 10 * n := by
  have positive : 0 < (Nat.toDigits 10 n).length := List.length_pos_of_ne_nil Nat.toDigits_ne_nil
  obtain ⟨size, length⟩ : ∃ size, (Nat.toDigits 10 n).length = size + 1 :=
    ⟨(Nat.toDigits 10 n).length - 1, by omega⟩
  rw [length, Nat.pow_succ']
  apply Nat.mul_le_mul_left
  by_contra short
  cases size with
  | zero =>
    rw [Nat.pow_zero] at short
    omega
  | succ size =>
    have less := (Nat.length_toDigits_le_iff (by decide) (Nat.succ_pos size)).mpr (Nat.not_le.mp short)
    omega

theorem Spells.plain (h : Spells digits grid text whole fraction zeros zeros')
    (last : digits % 10 ≠ 0) : Plain whole fraction := by
  refine ⟨?_, h.last last⟩
  obtain ⟨c, rest, begins, other⟩ := @toDigits_first digits (by omega)
  obtain ⟨first, more, rfl⟩ := List.exists_cons_of_ne_nil h.numeral.some
  have spelt := h.digits
  cases zeros with
  | zero =>
    rw [begins] at spelt
    obtain ⟨rfl, -⟩ := List.cons.inj spelt
    exact .inr (by simpa using other)
  | succ zeros =>
    obtain ⟨rfl, -⟩ := List.cons.inj spelt
    have single := h.padded (Nat.succ_ne_zero zeros)
    exact .inl (congrArg ('0' :: ·) (List.length_eq_zero_iff.mp (Nat.succ.inj single)))

theorem Spells.counts (h : Spells digits grid text whole fraction zeros zeros')
    (last : digits % 10 ≠ 0) : counting whole fraction = (Nat.toDigits 10 digits).length := by
  rw [counting, ← h.numeral.filter_digits, h.significant last]

theorem distance_steps (value places : Nat) :
    distance (value * Nat.pow 2 1074) (10 ^ places) index * fineness =
      Nat.dist (exact index * 10 ^ places) (value * 10 ^ 1074) := by
  unfold distance
  rw [← Nat.dist_mul_right, Nat.mul_right_comm, Nat.mul_assoc value, twos_fineness]
  rfl

theorem offset_steps {value : Nat} (worth : digitsValue (whole ++ fraction) = value * 10 ^ zeros) :
    offset index whole fraction * fineness =
      Nat.dist (exact index * 10 ^ fraction.length) (value * 10 ^ (zeros + 1074)) := by
  rw [offset, distance_steps, worth, Nat.mul_assoc, ← Nat.pow_add]

theorem Spells.steps (h : Spells digits grid text whole fraction zeros zeros') :
    offset index whole fraction * fineness =
      Nat.dist (exact index) (digits * 10 ^ grid) * 10 ^ fraction.length := by
  rw [offset_steps h.worth, h.places, Nat.pow_add, ← Nat.mul_assoc, Nat.dist_mul_right]

theorem closest_of_spells
    (h : Spells (decimal index).1 (decimal index).2 text whole fraction zeros zeros')
    (some : index ≠ 0) (finite : index < infinityIndex) (reads : Reads index whole' fraction')
    (short : counting whole' fraction' = counting whole fraction) :
    offset index whole fraction * 10 ^ fraction'.length ≤
      offset index whole' fraction' * 10 ^ fraction.length := by
  obtain ⟨zeros, worth⟩ := digitsValue_significant (whole' ++ fraction')
  have last := decimal_last some finite
  have less : digitsValue (significant (whole' ++ fraction')) < 10 ^ counting whole' fraction' :=
    digitsValue_lt (significant_isDigit reads.digits)
  have long : 10 ^ counting whole' fraction' ≤ 10 * (decimal index).1 := by
    rw [short, h.counts last]
    exact toDigits_long (by omega)
  have closest := decimal_closest (ofDigits_nearest reads.back finite worth) finite some less long
  apply Nat.le_of_mul_le_mul_right _ fineness_pos
  calc offset index whole fraction * 10 ^ fraction'.length * fineness
    _ = offset index whole fraction * fineness * 10 ^ fraction'.length :=
        Nat.mul_right_comm _ _ _
    _ = Nat.dist (exact index) ((decimal index).1 * 10 ^ (decimal index).2) *
          10 ^ fraction'.length * 10 ^ fraction.length := by rw [h.steps, Nat.mul_right_comm]
    _ ≤ offset index whole' fraction' * fineness * 10 ^ fraction.length := by
        rw [offset_steps worth]
        exact Nat.mul_le_mul_right _ closest
    _ = offset index whole' fraction' * 10 ^ fraction.length * fineness :=
        Nat.mul_right_comm _ _ _

theorem offset_zero : offset 0 ['0'] [] = 0 := by
  have nothing : digitsValue (['0'] ++ []) = 0 := rfl
  rw [offset, nothing]
  generalize Nat.pow 2 1074 = unit
  rw [distance, units_zero, Nat.zero_mul, Nat.zero_mul, Nat.dist_self]

/-- The text of a finite magnitude is a plain numeral, and the shortest for it. -/
theorem magnitudeText_written (finite : index < infinityIndex) : ∃ whole fraction,
    Numeral (magnitudeText index) whole fraction ∧ Plain whole fraction ∧
      Shortest index whole fraction := by
  have fewest : ∀ {whole fraction}, Numeral (magnitudeText index) whole fraction →
      ∀ whole' fraction', Reads index whole' fraction' →
        counting whole fraction ≤ counting whole' fraction' := by
    intro whole fraction numeral whole' fraction' reads
    unfold counting
    rw [← numeral.filter_digits]
    exact magnitudeText_shortest finite reads.digits reads.back
  by_cases zero : index = 0
  · subst zero
    have known : ∀ c ∈ ['0'], c.isDigit := List.forall_mem_singleton.mpr rfl
    have numeral : Numeral (magnitudeText 0) ['0'] [] := .whole (List.cons_ne_nil _ _) known
    have plain : Plain ['0'] [] := ⟨.inl rfl, by decide⟩
    refine ⟨['0'], [], numeral, plain, ⟨numeral.known, ofDigits_zero⟩, fewest numeral, ?_⟩
    intro whole' fraction' _ _
    rw [offset_zero, Nat.zero_mul]
    exact Nat.zero_le _
  · obtain ⟨whole, fraction, zeros, zeros', spells⟩ :=
      positional_spells (decimal index).1 (decimal index).2
    have numeral : Numeral (magnitudeText index) whole fraction := by
      rw [magnitudeText_eq zero finite]
      exact spells.numeral
    have back : ofDigits whole fraction = ofIndex false index := by
      rw [spells.reads, decimal_reads finite]
    have plain := spells.plain (decimal_last zero finite)
    exact ⟨whole, fraction, numeral, plain, ⟨numeral.known, back⟩, fewest numeral,
      fun _ _ => closest_of_spells spells zero finite⟩

theorem written (x : Double) : x.Written x.text := by
  cases number : x.isNaN with
  | true =>
    rw [text_nan number]
    exact .nan number
  | false =>
    rw [text_number number]
    rcases Nat.lt_or_eq_of_le (isNaN_eq_false.mp number) with finite | top
    · obtain ⟨whole, fraction, numeral, plain, shortest⟩ := magnitudeText_written finite
      exact .finite (decide_eq_true finite) numeral plain shortest
    · rw [top, magnitudeText_infinity]
      exact .infinite top

end Blockscript.Double

import Blockscript.Proofs.Numbers.Shortest
import Blockscript.Proofs.Scanning.Lexemes
import Mathlib.Data.List.DropRight

/-!
The text of a number as a numeral. It has digits and at most one point between them, it reads
back as the number, and its digits are those of the decimal with zeros around them.
-/
namespace Blockscript.Double

variable {index digits grid zeros zeros' places : Nat} {text whole fraction ds : List Char}

theorem digitsValue_toDigits (n : Nat) : digitsValue (Nat.toDigits 10 n) = n :=
  Nat.ofDigitChars_ten_toDigits

theorem digitsValue_append_zeros (ds : List Char) (zeros : Nat) :
    digitsValue (ds ++ List.replicate zeros '0') = digitsValue ds * 10 ^ zeros := by
  have both := @Nat.ofDigitChars_append 10 ds (List.replicate zeros '0') 0
  rw [Nat.ofDigitChars_replicate_zero, Nat.mul_comm] at both
  exact both

theorem digitsValue_zeros_append (zeros : Nat) (ds : List Char) :
    digitsValue (List.replicate zeros '0' ++ ds) = digitsValue ds := by
  have both := @Nat.ofDigitChars_append 10 (List.replicate zeros '0') ds 0
  rw [Nat.ofDigitChars_replicate_zero, Nat.mul_zero] at both
  exact both

theorem digitChar_ne_zero {d : Nat} (less : d < 10) (some : d ≠ 0) : d.digitChar ≠ '0' := by
  revert d
  decide

theorem toDigits_last (n : Nat) : ∃ front, Nat.toDigits 10 n = front ++ [(n % 10).digitChar] := by
  rw [Nat.toDigits_eq_if (by decide)]
  split
  · rename_i small
    exact ⟨[], by rw [Nat.mod_eq_of_lt small, List.nil_append]⟩
  · exact ⟨_, rfl⟩

theorem toDigits_first {n : Nat} (some : n ≠ 0) :
    ∃ d rest, Nat.toDigits 10 n = d :: rest ∧ d ≠ '0' := by
  induction n using Nat.strongRecOn with
  | ind n ih =>
    rw [Nat.toDigits_eq_if (by decide)]
    split
    · rename_i small
      exact ⟨_, [], rfl, digitChar_ne_zero small some⟩
    · obtain ⟨d, rest, front, other⟩ := ih (n / 10) (by omega) (by omega)
      exact ⟨d, _, by rw [front]; rfl, other⟩

theorem toDigits_isDigit (n : Nat) : ∀ c ∈ Nat.toDigits 10 n, c.isDigit :=
  fun _ member => Nat.isDigit_of_mem_toDigits (by decide) (by decide) member

theorem zeros_isDigit (zeros : Nat) : ∀ c ∈ List.replicate zeros '0', c.isDigit := by
  intro c member
  rw [List.eq_of_mem_replicate member]
  rfl

/-- The digits that count: all but the zeros in front and behind. -/
def significant (digits : List Char) : List Char :=
  (digits.dropWhile (· == '0')).rdropWhile (· == '0')

theorem zeros_of_all {ds : List Char} (known : ∀ c ∈ ds, (c == '0') = true) :
    ds = List.replicate ds.length '0' :=
  List.eq_replicate_of_mem fun c member => eq_of_beq (known c member)

theorem significant_split (ds : List Char) : ∃ zeros zeros',
    ds = List.replicate zeros '0' ++ significant ds ++ List.replicate zeros' '0' := by
  have front := zeros_of_all (all_takeWhile (· == '0') ds)
  have behind := zeros_of_all fun c =>
    @List.mem_rtakeWhile_imp Char (· == '0') (ds.dropWhile (· == '0')) c
  refine ⟨(ds.takeWhile (· == '0')).length, ((ds.dropWhile (· == '0')).rtakeWhile (· == '0')).length, ?_⟩
  rw [List.append_assoc, ← front, ← behind, significant, List.rdropWhile_append_rtakeWhile,
    List.takeWhile_append_dropWhile]

theorem significant_isDigit (known : ∀ c ∈ ds, c.isDigit) : ∀ c ∈ significant ds, c.isDigit := by
  obtain ⟨zeros, zeros', split⟩ := significant_split ds
  intro c member
  apply known
  rw [split]
  simp [member]

theorem digitsValue_significant (ds : List Char) :
    ∃ zeros, digitsValue ds = digitsValue (significant ds) * 10 ^ zeros := by
  obtain ⟨zeros, zeros', split⟩ := significant_split ds
  refine ⟨zeros', ?_⟩
  conv_lhs => rw [split]
  rw [digitsValue_append_zeros, digitsValue_zeros_append]

theorem rdropWhile_zeros (ds : List Char) (zeros : Nat) :
    (ds ++ List.replicate zeros '0').rdropWhile (· == '0') = ds.rdropWhile (· == '0') := by
  induction zeros with
  | zero => rw [List.replicate_zero, List.append_nil]
  | succ zeros ih =>
    rw [List.replicate_succ', ← List.append_assoc, List.rdropWhile_concat_pos _ _ _ rfl, ih]

theorem significant_padded (first : ds.head? ≠ some '0') (last : ds.getLast? ≠ some '0')
    (zeros zeros' : Nat) :
    significant (List.replicate zeros '0' ++ ds ++ List.replicate zeros' '0') = ds := by
  have skipped : (List.replicate zeros '0' ++ (ds ++ List.replicate zeros' '0')).dropWhile (· == '0') =
      (ds ++ List.replicate zeros' '0').dropWhile (· == '0') :=
    List.dropWhile_append_of_pos fun c member => by rw [List.eq_of_mem_replicate member]; rfl
  rw [significant, List.append_assoc, skipped]
  cases ds with
  | nil =>
    have none : (List.replicate zeros' '0').dropWhile (· == '0') = [] :=
      List.dropWhile_eq_nil_iff.mpr fun c member => by rw [List.eq_of_mem_replicate member]; rfl
    rw [List.nil_append, none, List.rdropWhile_nil]
  | cons d rest =>
    have stays : (d :: (rest ++ List.replicate zeros' '0')).dropWhile (· == '0') =
        d :: (rest ++ List.replicate zeros' '0') :=
      List.dropWhile_cons_of_neg (by simpa using first)
    rw [List.cons_append, stays, ← List.cons_append, rdropWhile_zeros]
    apply List.rdropWhile_eq_self_iff.mpr
    intro some
    rw [List.getLast?_eq_some_getLast some] at last
    simpa using last

theorem digitsValue_lt (known : ∀ c ∈ ds, c.isDigit) : digitsValue ds < 10 ^ ds.length := by
  induction ds using List.reverseRecOn with
  | nil => exact Nat.one_pos
  | append_singleton ds c ih =>
    have last : c.isDigit := known c (by simp)
    have less := ih fun d member => known d (by simp [member])
    have nine : digitValue c ≤ 9 := by
      have bounds := (Char.isDigit_iff_toNat.mp last).2
      exact Nat.sub_le_sub_right bounds '0'.toNat
    have worth : digitsValue (ds ++ [c]) = 10 * digitsValue ds + digitValue c := by
      rw [digitsValue, List.foldl_append]
      rfl
    rw [worth, List.length_append, List.length_singleton, Nat.pow_succ]
    omega

theorem ofDigits_eq (same : zeros + 1074 = grid + fraction.length)
    (worth : digitsValue (whole ++ fraction) = digits * 10 ^ zeros) :
    ofDigits whole fraction = ofIndex false (reading (digits * 10 ^ grid)) := by
  rw [← nearestIndex_decimal same, ← worth]
  rfl

inductive Numeral : List Char → List Char → List Char → Prop where
  | whole {whole : List Char} (some : whole ≠ []) (known : ∀ c ∈ whole, c.isDigit) :
      Numeral whole whole []
  | point {whole fraction : List Char} (some : whole ≠ []) (known : ∀ c ∈ whole, c.isDigit)
      (some' : fraction ≠ []) (known' : ∀ c ∈ fraction, c.isDigit) :
      Numeral (whole ++ '.' :: fraction) whole fraction

namespace Numeral

theorem some (h : Numeral text whole fraction) : whole ≠ [] := by
  cases h with
  | whole some _ => exact some
  | point some _ _ _ => exact some

theorem known (h : Numeral text whole fraction) : ∀ c ∈ whole ++ fraction, c.isDigit := by
  cases h with
  | whole _ known => rwa [List.append_nil]
  | point _ known _ known' => exact List.forall_mem_append.mpr ⟨known, known'⟩

theorem ofNumeral (h : Numeral text whole fraction) : ofNumeral text = ofDigits whole fraction := by
  cases h with
  | whole some known => exact ofNumeral_whole known
  | point some known some' known' => exact ofNumeral_decimal known fraction

theorem lexeme (h : Numeral text whole fraction) :
    Lexeme text (.number (ofDigits whole fraction)) := by
  rw [← h.ofNumeral]
  cases h with
  | whole some known => exact .whole some known
  | point some known some' known' => exact .decimal some known some' known'

theorem chars (h : Numeral text whole fraction) : ∀ c ∈ text, c.isDigit ∨ c = '.' := by
  cases h with
  | whole some known => exact fun c member => .inl (known c member)
  | point some known some' known' =>
    intro c member
    rcases List.mem_append.mp member with front | behind
    · exact .inl (known c front)
    · rcases List.mem_cons.mp behind with rfl | behind
      · exact .inr rfl
      · exact .inl (known' c behind)

theorem filter_digits (h : Numeral text whole fraction) : text.filter Char.isDigit = whole ++ fraction := by
  cases h with
  | whole some known => rw [List.filter_eq_self.mpr known, List.append_nil]
  | point some known some' known' =>
    rw [List.filter_append, List.filter_cons_of_neg (by decide), List.filter_eq_self.mpr known,
      List.filter_eq_self.mpr known']

end Numeral

theorem positional_coarse (coarse : 1074 ≤ grid) : positional digits grid =
    Nat.toDigits 10 digits ++ List.replicate (grid - 1074) '0' := by
  unfold positional
  exact if_pos coarse

theorem positional_fine (fine : grid < 1074) : ∃ whole fraction zeros,
    positional digits grid = whole ++ '.' :: fraction ∧ whole ≠ [] ∧
      fraction.length = 1074 - grid ∧ (zeros ≠ 0 → whole.length = 1) ∧
      whole ++ fraction = List.replicate zeros '0' ++ Nat.toDigits 10 digits := by
  have long : 1074 - grid < (List.replicate (1074 - grid + 1 - (Nat.toDigits 10 digits).length) '0' ++
      Nat.toDigits 10 digits).length := by
    rw [List.length_append, List.length_replicate]
    omega
  refine ⟨_, _, _, if_neg (Nat.not_le.mpr fine), ?_, ?_, ?_, List.take_append_drop _ _⟩
  · apply List.ne_nil_of_length_pos
    rw [List.length_take]
    omega
  · rw [List.length_drop]
    omega
  · intro padded
    rw [List.length_take, List.length_append, List.length_replicate]
    omega

/-- The numeral has just these digits, with zeros in front and behind. Of the zeros in front one
    stands before the point, and the zeros behind all do. -/
structure Spells (digits grid : Nat) (text whole fraction : List Char) (zeros zeros' : Nat) :
    Prop where
  numeral : Numeral text whole fraction
  digits : whole ++ fraction =
    List.replicate zeros '0' ++ Nat.toDigits 10 digits ++ List.replicate zeros' '0'
  places : zeros' + 1074 = grid + fraction.length
  padded : zeros ≠ 0 → whole.length = 1
  integral : fraction ≠ [] → zeros' = 0

theorem positional_spells (digits grid : Nat) : ∃ whole fraction zeros zeros',
    Spells digits grid (positional digits grid) whole fraction zeros zeros' := by
  by_cases coarse : 1074 ≤ grid
  · rw [positional_coarse coarse]
    refine ⟨_, [], 0, grid - 1074, .whole ?_ ?_, List.append_nil _, ?_, fun some => absurd rfl some,
      fun some => absurd rfl some⟩
    · exact List.append_ne_nil_of_left_ne_nil Nat.toDigits_ne_nil _
    · exact List.forall_mem_append.mpr ⟨toDigits_isDigit _, zeros_isDigit _⟩
    · rw [List.length_nil]
      omega
  · obtain ⟨whole, fraction, zeros, split, some, length, padded, spelt⟩ :=
      @positional_fine digits _ (Nat.not_le.mp coarse)
    have known : ∀ c ∈ whole ++ fraction, c.isDigit := by
      rw [spelt]
      exact List.forall_mem_append.mpr ⟨zeros_isDigit _, toDigits_isDigit _⟩
    obtain ⟨first, second⟩ := List.forall_mem_append.mp known
    have some' : fraction ≠ [] := by
      apply List.ne_nil_of_length_pos
      omega
    refine ⟨whole, fraction, zeros, 0, ?_, ?_, ?_, padded, fun _ => rfl⟩
    · rw [split]
      exact .point some first some' second
    · rw [spelt, List.replicate_zero, List.append_nil]
    · omega

theorem Spells.worth (h : Spells digits grid text whole fraction zeros zeros') :
    digitsValue (whole ++ fraction) = digits * 10 ^ zeros' := by
  rw [h.digits, digitsValue_append_zeros, digitsValue_zeros_append, digitsValue_toDigits]

theorem Spells.reads (h : Spells digits grid text whole fraction zeros zeros') :
    ofDigits whole fraction = ofIndex false (reading (digits * 10 ^ grid)) :=
  ofDigits_eq h.places h.worth

theorem Spells.last (h : Spells digits grid text whole fraction zeros zeros')
    (last : digits % 10 ≠ 0) : fraction.getLast? ≠ some '0' := by
  obtain ⟨numeral, spelt, -, -, integral⟩ := h
  obtain ⟨front, ends⟩ := toDigits_last digits
  by_cases none : fraction = []
  · rw [none]
    simp
  · rw [integral none, List.replicate_zero, List.append_nil, ends, ← List.append_assoc] at spelt
    have same := congrArg List.getLast? spelt
    rw [List.getLast?_append_of_ne_nil _ none, List.getLast?_concat] at same
    rw [same, ne_eq, Option.some.injEq]
    exact digitChar_ne_zero (Nat.mod_lt _ (by decide)) last

theorem Spells.trimmed (h : Spells digits grid text whole fraction zeros zeros') (last : digits % 10 ≠ 0)
    (point : '.' ∈ text) : text.getLast? ≠ some '0' := by
  have ends := h.last last
  cases h.numeral with
  | whole some known => exact absurd (known '.' point) (by decide)
  | point some known some' known' =>
    rwa [List.getLast?_append_of_ne_nil _ (List.cons_ne_nil _ _), ← List.singleton_append,
      List.getLast?_append_of_ne_nil _ some']

theorem magnitudeText_zero : magnitudeText 0 = ['0'] := rfl

theorem magnitudeText_infinity : magnitudeText infinityIndex = ['i', 'n', 'f'] := rfl

theorem magnitudeText_eq (some : index ≠ 0) (finite : index < infinityIndex) :
    magnitudeText index = positional (decimal index).1 (decimal index).2 := by
  unfold magnitudeText
  rw [if_neg (Nat.lt_asymm finite), if_neg (Nat.ne_of_lt finite), if_neg some]

theorem ofDigits_zero : ofDigits ['0'] [] = ofIndex false 0 := by
  have worth : digitsValue (['0'] ++ []) = 0 * 10 ^ 0 := rfl
  rw [@ofDigits_eq 0 1074 0 _ _ rfl worth, Nat.zero_mul, reading_zero]

theorem magnitudeText_reads (finite : index < infinityIndex) : ∃ whole fraction,
    Numeral (magnitudeText index) whole fraction ∧ ofDigits whole fraction = ofIndex false index := by
  by_cases zero : index = 0
  · subst zero
    have known : ∀ c ∈ ['0'], c.isDigit := List.forall_mem_singleton.mpr rfl
    exact ⟨['0'], [], .whole (List.cons_ne_nil _ _) known, ofDigits_zero⟩
  · obtain ⟨whole, fraction, zeros, zeros', spells⟩ :=
      positional_spells (decimal index).1 (decimal index).2
    refine ⟨whole, fraction, ?_, ?_⟩
    · rw [magnitudeText_eq zero finite]
      exact spells.numeral
    · rw [spells.reads, decimal_reads finite]

theorem magnitudeText_trimmed (finite : index < infinityIndex) (point : '.' ∈ magnitudeText index) :
    (magnitudeText index).getLast? ≠ some '0' := by
  by_cases zero : index = 0
  · subst zero
    rw [magnitudeText_zero] at point
    exact absurd point (by decide)
  · obtain ⟨whole, fraction, zeros, zeros', spells⟩ :=
      positional_spells (decimal index).1 (decimal index).2
    rw [magnitudeText_eq zero finite] at point ⊢
    exact spells.trimmed (decimal_last zero finite) point

variable {x : Double} {negative : Bool}

theorem ofIndex_toNat (small : index < Nat.pow 2 63) : (ofIndex negative index).bits.toNat =
    if negative then Nat.pow 2 63 + index else index := by
  have power : Nat.pow 2 63 = 2 ^ 63 := rfl
  rw [power] at small ⊢
  apply UInt64.toNat_ofNat_of_lt'
  rw [power]
  change _ < 2 ^ 64
  split <;> omega

theorem index_ofIndex (small : index < Nat.pow 2 63) : (ofIndex negative index).index = index := by
  have power : Nat.pow 2 63 = 2 ^ 63 := rfl
  rw [Double.index, ofIndex_toNat small]
  rw [power] at small ⊢
  split <;> omega

theorem isNegative_ofIndex (small : index < Nat.pow 2 63) :
    (ofIndex negative index).isNegative = negative := by
  have power : Nat.pow 2 63 = 2 ^ 63 := rfl
  rw [isNegative, ofIndex_toNat small]
  rw [power] at small ⊢
  cases negative with
  | true => exact decide_eq_true (Nat.le_add_right _ _)
  | false => exact decide_eq_false (Nat.not_le.mpr small)

theorem ofIndex_index (x : Double) : ofIndex x.isNegative x.index = x := by
  have power : Nat.pow 2 63 = 2 ^ 63 := rfl
  have bound : x.bits.toNat < 2 ^ 64 := x.bits.toNat_lt
  have same : (ofIndex x.isNegative x.index).bits.toNat = x.bits.toNat := by
    rw [ofIndex_toNat x.index_lt, isNegative, Double.index, power]
    by_cases negative : 2 ^ 63 ≤ x.bits.toNat
    · rw [if_pos (decide_eq_true negative)]
      omega
    · rw [if_neg (by simpa using negative)]
      omega
  exact congrArg Double.mk (UInt64.toNat_inj.mp same)

theorem neg_ofIndex (small : index < Nat.pow 2 63) :
    -(ofIndex negative index) = ofIndex (!negative) index := by
  change ofIndex (!(ofIndex negative index).isNegative) (ofIndex negative index).index = _
  rw [isNegative_ofIndex small, index_ofIndex small]

theorem infinityIndex_lt : infinityIndex < Nat.pow 2 63 := by decide

theorem ofIndex_injective {other : Nat} (small : index ≤ infinityIndex) (small' : other ≤ infinityIndex)
    (same : ofIndex negative index = ofIndex negative other) : index = other := by
  have both := congrArg Double.index same
  rwa [index_ofIndex (Nat.lt_of_le_of_lt small infinityIndex_lt),
    index_ofIndex (Nat.lt_of_le_of_lt small' infinityIndex_lt)] at both

theorem text_eq (known : x.index ≤ infinityIndex) : x.text =
    (if x.isNegative then "-" else "") ++ String.ofList (magnitudeText x.index) := by
  have number : x.isNaN = false := decide_eq_false (Nat.not_lt.mpr known)
  unfold text
  generalize magnitudeText x.index = digits
  cases x.isNegative with
  | true => simp [number, String.ofList_cons]
  | false => simp

theorem Spells.significant (h : Spells digits grid text whole fraction zeros zeros')
    (last : digits % 10 ≠ 0) : significant (text.filter Char.isDigit) = Nat.toDigits 10 digits := by
  obtain ⟨d, rest, begins, other⟩ := @toDigits_first digits (by omega)
  obtain ⟨front, ends⟩ := toDigits_last digits
  rw [h.numeral.filter_digits, h.digits]
  apply significant_padded
  · rw [begins]
    simpa using other
  · rw [ends, List.getLast?_concat]
    simpa using digitChar_ne_zero (Nat.mod_lt _ (by decide)) last

theorem ofDigits_nearest (reads : ofDigits whole fraction = ofIndex false index)
    (finite : index < infinityIndex) (worth : digitsValue (whole ++ fraction) = digits * 10 ^ zeros) :
    nearestIndex (digits * 10 ^ zeros * Nat.pow 2 1074) (10 ^ fraction.length) = index := by
  rw [← worth]
  exact ofIndex_injective (nearestIndex_le_infinity (tens_pos _)) (Nat.le_of_lt finite) reads

/-- Whatever numeral reads back as a magnitude, it has no fewer digits that count than the text. -/
theorem magnitudeText_shortest (finite : index < infinityIndex)
    (known : ∀ c ∈ whole ++ fraction, c.isDigit)
    (reads : ofDigits whole fraction = ofIndex false index) :
    (significant ((magnitudeText index).filter Char.isDigit)).length ≤
      (significant (whole ++ fraction)).length := by
  by_cases zero : index = 0
  · subst zero
    exact Nat.zero_le _
  · obtain ⟨zeros, worth⟩ := digitsValue_significant (whole ++ fraction)
    obtain ⟨_, _, _, _, spells⟩ := positional_spells (decimal index).1 (decimal index).2
    have last := decimal_last zero finite
    have less := decimal_shortest zero (ofDigits_nearest reads finite worth) finite
      (digitsValue_lt (significant_isDigit known))
    rw [magnitudeText_eq zero finite, spells.significant last]
    generalize (decimal index).1 = digits at last less
    apply (Nat.length_toDigits_le_iff (by decide) ?_).mpr less
    by_contra none
    rw [Nat.eq_zero_of_not_pos none] at less
    omega

def magnitude (x : Double) : Double := ofIndex false x.index

/-- The text of the number is plain and without zeros behind a point, and nothing with fewer digits
    that count reads back as the number. -/
structure Canonical (x : Double) : Prop where
  chars : ∀ c ∈ x.text.toList, c.isDigit ∨ c = '.' ∨ c = '-'
  trimmed : ¬ ['.', '0'] <:+ x.text.toList
  shortest : ∀ whole fraction : List Char, (∀ c ∈ whole ++ fraction, c.isDigit) →
    ofDigits whole fraction = x.magnitude →
    (significant (x.text.toList.filter Char.isDigit)).length ≤
      (significant (whole ++ fraction)).length

theorem text_toList (finite : x.isFinite = true) :
    x.text.toList = magnitudeText x.index ∨ x.text.toList = '-' :: magnitudeText x.index := by
  rw [text_eq (Nat.le_of_lt (of_decide_eq_true finite))]
  generalize magnitudeText x.index = digits
  cases x.isNegative with
  | true => exact .inr (by simp)
  | false => exact .inl (by simp)

theorem canonical (finite : x.isFinite = true) : x.Canonical := by
  have below : x.index < infinityIndex := of_decide_eq_true finite
  obtain ⟨whole, fraction, numeral, _⟩ := magnitudeText_reads below
  have trimmed := magnitudeText_trimmed below
  have shortest := fun {whole fraction} => @magnitudeText_shortest x.index whole fraction below
  have split := text_toList finite
  generalize magnitudeText x.index = digits at numeral trimmed shortest split
  have inner : ¬ ['.', '0'] <:+ digits := by
    intro tail
    apply trimmed (tail.subset (by simp))
    obtain ⟨front, rfl⟩ := tail
    rw [List.getLast?_append_of_ne_nil _ (by simp)]
    rfl
  refine ⟨?_, ?_, ?_⟩
  · intro c member
    rcases split with plain | signed
    · rw [plain] at member
      exact (numeral.chars c member).imp_right .inl
    · rw [signed] at member
      rcases List.mem_cons.mp member with rfl | deeper
      · exact .inr (.inr rfl)
      · exact (numeral.chars c deeper).imp_right .inl
  · rcases split with plain | signed
    · rwa [plain]
    · rw [signed, List.suffix_cons_iff]
      rintro (same | tail)
      · simp at same
      · exact inner tail
  · intro whole fraction known reads
    have same : x.text.toList.filter Char.isDigit = digits.filter Char.isDigit := by
      rcases split with plain | signed
      · rw [plain]
      · rw [signed, List.filter_cons_of_neg (by decide)]
    rw [same]
    exact shortest known reads

theorem ofDigits_rounds (whole fraction : List Char) :
    Nearest (digitsValue (whole ++ fraction) * Nat.pow 2 1074) (Nat.pow 10 fraction.length)
      (ofDigits whole fraction).index := by
  have positive : 0 < Nat.pow 10 fraction.length := tens_pos fraction.length
  have rounded := nearestIndex_nearest (digitsValue (whole ++ fraction) * Nat.pow 2 1074) positive
  unfold ofDigits ofRatio
  rwa [index_ofIndex (Nat.lt_of_le_of_lt rounded.bound infinityIndex_lt)]

end Blockscript.Double

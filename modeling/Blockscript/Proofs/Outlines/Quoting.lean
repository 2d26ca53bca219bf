import Blockscript.Proofs.Scanning.Lexemes
import Blockscript.Text.Quoted

/-!
Quoted text can be read back. Each character is told by what it is quoted as, whatever comes
behind that, and the closing quote begins none of these.
-/
namespace Blockscript.Text

def marks : List (Char × Char) :=
  [('\x00', '0'), ('\t', 't'), ('\r', 'r'), ('\n', 'n'), ('\\', '\\'), ('"', '"')]

inductive Quoting : Char → List Char → Prop where
  | marked {c mark : Char} (listed : (c, mark) ∈ marks) : Quoting c ['\\', mark]
  | code (c : Char) : Quoting c (codePointEscape c)
  | plain {c : Char} (unescaped : c ≠ '\\') (inner : c ≠ '"') : Quoting c [c]

variable {c c' : Char} {text text' rest rest' : List Char}

theorem quotedChar_quoting (c : Char) : Quoting c (quotedChar c) := by
  unfold quotedChar
  split
  · exact .marked (by decide)
  · exact .marked (by decide)
  · exact .marked (by decide)
  · exact .marked (by decide)
  · exact .marked (by decide)
  · exact .marked (by decide)
  · rename_i backslash quote
    split
    · exact .code c
    · exact .plain backslash quote

theorem run_unique {p : Char → Bool} (known : ∀ c ∈ text, p c) (known' : ∀ c ∈ text', p c)
    (ends : ∀ c ∈ rest.head?, p c = false) (ends' : ∀ c ∈ rest'.head?, p c = false)
    (same : text ++ rest = text' ++ rest') : text = text' ∧ rest = rest' := by
  obtain ⟨run, left⟩ := takeWhile_run known rest ends
  obtain ⟨run', left'⟩ := takeWhile_run known' rest' ends'
  rw [same] at run left
  exact ⟨run.symm.trans run', left.symm.trans left'⟩

theorem digitChar_injective : ∀ d < 16, ∀ e < 16, d.digitChar = e.digitChar → d = e := by decide

theorem digitChar_ne_brace : ∀ d < 16, d.digitChar ≠ '}' := by decide

theorem toDigits_split (n : Nat) : ∃ front, Nat.toDigits 16 n = front ++ [(n % 16).digitChar] ∧
    (n < 16 ∧ front = [] ∨ 16 ≤ n ∧ front = Nat.toDigits 16 (n / 16)) := by
  rw [Nat.toDigits_eq_if (by decide)]
  split
  · rename_i small
    exact ⟨[], by rw [Nat.mod_eq_of_lt small, List.nil_append], .inl ⟨small, rfl⟩⟩
  · rename_i large
    exact ⟨_, rfl, .inr ⟨Nat.not_lt.mp large, rfl⟩⟩

theorem toDigits_no_brace (n : Nat) : ∀ d ∈ Nat.toDigits 16 n, (d != '}') = true := by
  induction n using Nat.strongRecOn with
  | ind n ih =>
    obtain ⟨front, split, cases⟩ := toDigits_split n
    rw [split, List.forall_mem_append, List.forall_mem_singleton]
    refine ⟨?_, bne_iff_ne.mpr (digitChar_ne_brace _ (Nat.mod_lt n (by decide)))⟩
    rcases cases with ⟨_, rfl⟩ | ⟨large, rfl⟩
    · exact List.forall_mem_nil _
    · exact ih (n / 16) (by omega)

theorem toDigits_injective {n m : Nat} (same : Nat.toDigits 16 n = Nat.toDigits 16 m) : n = m := by
  induction n using Nat.strongRecOn generalizing m with
  | ind n ih =>
    obtain ⟨front, split, cases⟩ := toDigits_split n
    obtain ⟨front', split', cases'⟩ := toDigits_split m
    rw [split, split'] at same
    obtain ⟨rfl, last⟩ := List.append_inj' same rfl
    have digit := digitChar_injective _ (Nat.mod_lt n (by decide)) _ (Nat.mod_lt m (by decide))
      (List.singleton_inj.mp last)
    rcases cases with ⟨small, rfl⟩ | ⟨large, rfl⟩
    · rcases cases' with ⟨small', _⟩ | ⟨_, some⟩
      · omega
      · exact absurd some.symm Nat.toDigits_ne_nil
    · rcases cases' with ⟨_, none⟩ | ⟨large', same⟩
      · exact absurd none Nat.toDigits_ne_nil
      · have high := ih (n / 16) (by omega) same
        omega

theorem marks_marked : ∀ p ∈ marks, ∀ q ∈ marks, p.2 = q.2 → p.1 = q.1 := by decide

theorem marks_not_code : ∀ p ∈ marks, p.2 ≠ 'u' := by decide

theorem codePoint_read (same : codePointEscape c ++ rest = codePointEscape c' ++ rest') :
    c = c' ∧ rest = rest' := by
  simp only [codePointEscape, List.cons_append, List.append_assoc, List.cons.injEq, true_and,
    List.nil_append] at same
  obtain ⟨digits, behind⟩ := run_unique (toDigits_no_brace c.toNat) (toDigits_no_brace c'.toNat)
    (by simp) (by simp) same
  exact ⟨Char.toNat_inj.mp (toDigits_injective digits), (List.cons.inj behind).2⟩

theorem Quoting.read (h : Quoting c text) (h' : Quoting c' text')
    (same : text ++ rest = text' ++ rest') : c = c' ∧ rest = rest' := by
  cases h with
  | marked listed =>
    cases h' with
    | marked listed' =>
      obtain ⟨mark, behind⟩ := List.cons.inj (List.cons.inj same).2
      exact ⟨marks_marked _ listed _ listed' mark, behind⟩
    | code =>
      have mark := (List.cons.inj (List.cons.inj same).2).1
      exact absurd mark (marks_not_code _ listed)
    | plain unescaped inner => exact absurd (List.cons.inj same).1.symm unescaped
  | code =>
    cases h' with
    | marked listed' =>
      have mark := (List.cons.inj (List.cons.inj same).2).1
      exact absurd mark.symm (marks_not_code _ listed')
    | code => exact codePoint_read same
    | plain unescaped inner => exact absurd (List.cons.inj same).1.symm unescaped
  | plain unescaped inner =>
    cases h' with
    | marked listed' => exact absurd (List.cons.inj same).1 unescaped
    | code => exact absurd (List.cons.inj same).1 unescaped
    | plain unescaped' inner' => exact List.cons.inj same

theorem Quoting.opens (h : Quoting c text) : ∃ d more, text = d :: more ∧ d ≠ '"' := by
  cases h with
  | marked listed => exact ⟨_, _, rfl, by decide⟩
  | code => exact ⟨_, _, rfl, by decide⟩
  | plain unescaped inner => exact ⟨_, _, rfl, inner⟩

theorem quoted_read {cs cs' : List Char}
    (same : cs.flatMap quotedChar ++ '"' :: rest = cs'.flatMap quotedChar ++ '"' :: rest') :
    cs = cs' ∧ rest = rest' := by
  induction cs generalizing cs' with
  | nil =>
    cases cs' with
    | nil => exact ⟨rfl, (List.cons.inj same).2⟩
    | cons c' cs' =>
      obtain ⟨d, more, text, other⟩ := (quotedChar_quoting c').opens
      rw [List.flatMap_nil, List.flatMap_cons, text] at same
      exact absurd (List.cons.inj same).1.symm other
  | cons c cs ih =>
    cases cs' with
    | nil =>
      obtain ⟨d, more, text, other⟩ := (quotedChar_quoting c).opens
      rw [List.flatMap_nil, List.flatMap_cons, text] at same
      exact absurd (List.cons.inj same).1 other
    | cons c' cs' =>
      rw [List.flatMap_cons, List.flatMap_cons, List.append_assoc, List.append_assoc] at same
      obtain ⟨rfl, more⟩ := (quotedChar_quoting c).read (quotedChar_quoting c') same
      obtain ⟨rfl, rfl⟩ := ih more
      exact ⟨rfl, rfl⟩

end Blockscript.Text

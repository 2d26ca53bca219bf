import Blockscript.Command.Prompt
import Blockscript.Proofs.Commands.Effects

/-!
The command without a file. It is one dialogue: a prompt before each line, what the line does
behind it, and nothing left of a line but its variables.
-/
namespace Blockscript

open Session (quiet noting)

/-- Each line ends with the first line end in it; only the last one may have none. -/
inductive CutIntoLines : List UInt8 → List (List UInt8) → Prop where
  | nil : CutIntoLines [] []
  | line {body rest : List UInt8} {lines : List (List UInt8)} (inside : 10 ∉ body)
      (more : CutIntoLines rest lines) :
      CutIntoLines (body ++ 10 :: rest) ((body ++ [10]) :: lines)
  | last {body : List UInt8} (inside : 10 ∉ body) (some : body ≠ []) :
      CutIntoLines body [body]

theorem linesOf_line {body : List UInt8} (inside : 10 ∉ body) (rest : List UInt8) :
    linesOf (body ++ 10 :: rest) = (body ++ [10]) :: linesOf rest := by
  induction body with
  | nil =>
    rw [List.nil_append, linesOf, List.foldr_cons, ← linesOf]
    cases linesOf rest with
    | nil => rfl
    | cons line lines => rfl
  | cons byte body ih =>
    have other := List.ne_of_not_mem_cons inside
    have later := List.not_mem_of_not_mem_cons inside
    rw [List.cons_append, linesOf, List.foldr_cons, ← linesOf, ih later]
    exact if_neg (Ne.symm other)

theorem linesOf_last {body : List UInt8} (inside : 10 ∉ body) (some : body ≠ []) :
    linesOf body = [body] := by
  induction body with
  | nil => exact absurd rfl some
  | cons byte body ih =>
    have other := List.ne_of_not_mem_cons inside
    have later := List.not_mem_of_not_mem_cons inside
    rw [linesOf, List.foldr_cons, ← linesOf]
    cases body with
    | nil => rfl
    | cons next body =>
      rw [ih later (List.cons_ne_nil next body)]
      exact if_neg (Ne.symm other)

namespace CutIntoLines

variable {bytes : List UInt8} {lines : List (List UInt8)}

theorem eq_linesOf (h : CutIntoLines bytes lines) : lines = linesOf bytes := by
  induction h with
  | nil => rfl
  | line inside _ ih => rw [linesOf_line inside, ih]
  | last inside some => rw [linesOf_last inside some]

theorem total (bytes : List UInt8) : ∃ lines, CutIntoLines bytes lines := by
  induction bytes with
  | nil => exact ⟨[], .nil⟩
  | cons byte rest ih =>
    obtain ⟨lines, cut⟩ := ih
    by_cases ends : byte = 10
    · subst ends
      exact ⟨[10] :: lines, @line [] _ _ List.not_mem_nil cut⟩
    · have further : ∀ {body : List UInt8}, 10 ∉ body → 10 ∉ byte :: body :=
        List.not_mem_cons_of_ne_of_not_mem (Ne.symm ends)
      cases cut with
      | nil => exact ⟨[[byte]], .last (further List.not_mem_nil) (List.cons_ne_nil byte [])⟩
      | line inside more => exact ⟨_, .line (further inside) more⟩
      | last inside some => exact ⟨_, .last (further inside) (List.cons_ne_nil byte rest)⟩

theorem linesOf (bytes : List UInt8) : CutIntoLines bytes (Blockscript.linesOf bytes) := by
  obtain ⟨lines, cut⟩ := total bytes
  exact cut.eq_linesOf ▸ cut

theorem ne_nil (h : CutIntoLines bytes lines) : ∀ line ∈ lines, line ≠ [] := by
  induction h with
  | nil => simp
  | line inside _ ih => exact List.forall_mem_cons.mpr ⟨by simp, ih⟩
  | last inside some => simpa using some

end CutIntoLines

/-- What is said while the lines are answered one after the other, from variables on: the exit
    code, and what is written to standard output and to standard error. -/
inductive Dialogue (outline : Bool) :
    Chain → List (List UInt8) → UInt8 → ByteArray → String → Prop where
  | done (c : Chain) : Dialogue outline c [] 0 "> ".toUTF8 ""
  | notUtf8 {c : Chain} {line : List UInt8} {rest : List (List UInt8)}
      (bad : String.fromUTF8? ⟨line.toArray⟩ = none) :
      Dialogue outline c (line :: rest) 74 "> ".toUTF8 "stream did not contain valid UTF-8\n"
  | line {c c' : Chain} {line : List UInt8} {rest : List (List UInt8)} {source : String}
      {out stdout : ByteArray} {errors : List Error} {exit : UInt8} {stderr : String}
      (text : String.fromUTF8? ⟨line.toArray⟩ = some source)
      (effect : Effect outline c source out errors c')
      (more : Dialogue outline c' rest exit stdout stderr) :
      Dialogue outline c (line :: rest) exit ("> ".toUTF8 ++ out ++ stdout)
        (reportLines (errors.map Error.report) ++ stderr)

variable {outline : Bool} {c : Chain} {line : List UInt8} {lines rest : List (List UInt8)}
  {exit : UInt8} {stdout : ByteArray} {stderr : String} {fuel rounds : Nat}

/-- What is said on a terminal from these variables on, with the exit code. -/
def talk (fuel : Nat) (outline : Bool) (rounds : Nat) (c : Chain) (t : Terminal) :
    Option UInt8 × Terminal :=
  (converse fuel outline rounds (quiet c .empty) : StateM Terminal (Option UInt8)).run t

theorem Dialogue.unique {exit' : UInt8} {stdout' : ByteArray} {stderr' : String}
    (h : Dialogue outline c lines exit stdout stderr)
    (h' : Dialogue outline c lines exit' stdout' stderr') :
    exit = exit' ∧ stdout = stdout' ∧ stderr = stderr' := by
  induction h generalizing stdout' stderr' with
  | done c =>
    cases h'
    exact ⟨rfl, rfl, rfl⟩
  | notUtf8 bad =>
    cases h' with
    | notUtf8 => exact ⟨rfl, rfl, rfl⟩
    | line text =>
      rw [bad] at text
      cases text
  | line text effect _ ih =>
    cases h' with
    | notUtf8 bad =>
      rw [bad] at text
      cases text
    | line text' effect' more =>
      obtain rfl := Option.some.inj (text.symm.trans text')
      obtain ⟨rfl, rfl, reports⟩ := Session.effect_unique effect effect'
      obtain ⟨rfl, rfl, rfl⟩ := ih more
      exact ⟨rfl, rfl, by rw [reports]⟩

/-- The second line is no declaration, and the third one still knows the variable. -/
example : runPrompt 0 false "var a;\n);\nprint a;".toUTF8 =
    some ⟨0, "> > > nil\n> ".toUTF8, "error: [line 1] at ')': Expected expression.\n"⟩ := by
  cbv

end Blockscript

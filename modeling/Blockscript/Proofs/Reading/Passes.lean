import Blockscript.Proofs.Reading.Programs
import Blockscript.Proofs.Reading.UpToEnd
import Mathlib.Logic.Function.Iterate

/-!
Reading a program comes to an end, and that is where the source has its end. Every declaration
takes a token, those that fail as well, so the lists that bound the steps are never used up.
-/
namespace Blockscript

open PartReader Recovering

/-- The passes of the loop that reads declarations, one after the other. There is none at the end,
    and all others leave fewer tokens. -/
inductive Program.Passes : List Token → Recovered Program → Prop where
  | ended {tokens : List Token} (ends : ∀ t ∈ tokens.head?, t.isEnd = true) :
      Passes tokens ⟨[], tokens, []⟩
  | pass {tokens between rest : List Token} {item : Option Stmt} {more : Program}
      {errors errors' : List Error} (goesOn : ∃ t ∈ tokens.head?, t.isEnd = false)
      (first : recover declaration tokens = ⟨item, between, errors⟩)
      (fewer : between.length < tokens.length) (later : Passes between ⟨more, rest, errors'⟩) :
      Passes tokens ⟨item.toList ++ more, rest, errors ++ errors'⟩

structure Program.ReadsToEnd (tokens : List Token) : Prop where
  /-- The loop is left after some passes. -/
  passes : Passes tokens (read tokens)
  /-- Longer bounds make no difference, for declarations and all that is inside them. -/
  declarations : ∀ bound count : List Token,
    tokens.length ≤ bound.length → tokens.length ≤ count.length →
    itemsWithin (recover (declarationOf (statementWithin bound))) (fun _ => false) count tokens =
      read tokens
  /-- The same goes for the operands of a level. -/
  operands : ∀ n i level bound left, levels[i]? = some level → tokens.length ≤ bound.length →
    Reader.chainFrom level (Reader.joined (levels.take i) (Reader.operand (n + 1))) bound left
        tokens =
      Reader.chainFrom level (Reader.joined (levels.take i) (Reader.operand (n + 1))) tokens left
        tokens
  /-- In front of the end a declaration takes its first token at least, within any bound. -/
  advances : ∀ bound t more, tokens = t :: more → t.isEnd = false →
    ∃ used, tokens = t :: used ++ (recover (declarationOf (statementWithin bound)) tokens).rest
  rest : (read tokens).rest = tokens.dropWhile (!·.isEnd)
  /-- What comes behind the end plays no part. -/
  unseen : ∀ other, upToEnd other = upToEnd tokens →
    (read other).value = (read tokens).value ∧ (read other).errors = (read tokens).errors
  /-- Reading on finds nothing, however often. -/
  again : ∀ n, read ((fun left => (read left).rest)^[n + 1] tokens) =
    ⟨[], tokens.dropWhile (!·.isEnd), []⟩

namespace Program

theorem read_ended {tokens : List Token} (ends : ∀ t ∈ tokens.head?, t.isEnd = true) :
    read tokens = ⟨[], tokens, []⟩ := by
  cases tokens with
  | nil => exact items_stops _ _
  | cons t more =>
    have here : t.isEnd = true := ends t rfl
    rw [read, items_cons declaration_advances]
    simp [here]

theorem read_passes (tokens : List Token) : Passes tokens (read tokens) := by
  induction size : tokens.length using Nat.strongRecOn generalizing tokens with
  | ind k ih =>
    cases tokens with
    | nil => exact .ended (by simp)
    | cons t more =>
      by_cases ends : t.isEnd = true
      · have atEnd : ∀ u ∈ (t :: more).head?, u.isEnd = true := by simpa using ends
        rw [read_ended atEnd]
        exact .ended atEnd
      · have before : t.kind ≠ .endOfFile := by simpa [Token.isEnd] using ends
        have fewer := declaration_advances t more before
        have later := ih _ (size ▸ fewer) _ rfl
        have step : read (t :: more) = _ := items_cons declaration_advances t more
        simp only [ends, Bool.false_eq_true, Bool.or_false, ↓reduceIte] at step
        rw [step]
        exact .pass ⟨t, rfl, by simpa using ends⟩ rfl fewer later

theorem read_rest_eq (tokens : List Token) : (read tokens).rest = tokens.dropWhile (!·.isEnd) := by
  obtain ⟨used, split, kinds⟩ := read_takes.taken tokens
  have before : ∀ t ∈ used, (!t.isEnd) = true := by simpa [Token.isEnd] using kinds
  generalize left : (read tokens).rest = rest at split
  rw [split, List.dropWhile_append_of_pos before]
  cases rest with
  | nil => rfl
  | cons t more =>
    have ends := items_rest (fun _ => false) tokens left
    have here : t.isEnd = true := by simpa using ends
    simp [here]

theorem read_unseen {tokens other : List Token} (same : upToEnd other = upToEnd tokens) :
    (read other).value = (read tokens).value ∧ (read other).errors = (read tokens).errors := by
  have cut : (read other).cut = (read tokens).cut := by
    rw [← sees_read, ← sees_read, same]
  exact ⟨congrArg (·.value) cut, congrArg (·.errors) cut⟩

theorem read_again (tokens : List Token) (n : Nat) :
    read ((fun left => (read left).rest)^[n + 1] tokens) =
      ⟨[], tokens.dropWhile (!·.isEnd), []⟩ := by
  have still : read (tokens.dropWhile (!·.isEnd)) = ⟨[], tokens.dropWhile (!·.isEnd), []⟩ := by
    refine read_ended fun t first => ?_
    have stops := List.head?_dropWhile_not (!·.isEnd) tokens
    rw [Option.mem_def.mp first] at stops
    simpa using stops
  induction n with
  | zero => rw [Function.iterate_one, read_rest_eq, still]
  | succ n ih => rw [Function.iterate_succ_apply', ih, still]

theorem read_declarations {tokens bound count : List Token} (enough : tokens.length ≤ bound.length)
    (enough' : tokens.length ≤ count.length) :
    itemsWithin (recover (declarationOf (statementWithin bound))) (fun _ => false) count tokens =
      read tokens := by
  have inner : SameUpTo tokens.length (statementWithin bound) statement :=
    fun ts few => statementWithin_same (Nat.le_trans few enough) (Nat.le_refl _) ts (Nat.le_refl _)
  have advances := recover_advances (takes_declarationOf (takes_statementWithin bound))
  exact itemsWithin_same (sameUpTo_recover (sameUpTo_declarationOf inner)) advances
    (Nat.le_refl _) enough' (Nat.le_refl _)

theorem declaration_used (bound : List Token) {t : Token} (before : t.isEnd = false)
    (more : List Token) : ∃ used, t :: more =
      t :: used ++ (recover (declarationOf (statementWithin bound)) (t :: more)).rest := by
  have takes := takes_declarationOf (takes_statementWithin bound)
  have fewer := recover_advances takes t more (by simpa [Token.isEnd] using before)
  obtain ⟨used, split, -⟩ := (takes_recover takes).taken (t :: more)
  cases used with
  | nil =>
    have lengths := congrArg List.length split
    simp only [List.nil_append] at lengths
    omega
  | cons first used =>
    obtain ⟨rfl, -⟩ := List.cons.inj split
    exact ⟨used, split⟩

/-- Reading always comes to an end, just in front of the first end of the source, and is over
    then. -/
theorem read_readsToEnd (tokens : List Token) : ReadsToEnd tokens where
  passes := read_passes tokens
  declarations _ _ := read_declarations
  operands n i level bound left found enough := by
    have inside : ∀ level ∈ levels.take i, level ∈ levels := fun _ => List.mem_of_mem_take
    have takes := Reader.takes_joined (levels.take i) inside (Reader.takes_operand n)
    exact Reader.chainFrom_bound takes enough (Nat.le_refl _) left
  advances bound t more split before := by
    subst split
    exact declaration_used bound before more
  rest := read_rest_eq tokens
  unseen _ := read_unseen
  again := read_again tokens

/-- What comes behind the end in `) <end> ) x` adds no error to that of the first bracket. -/
theorem read_readsToEnd_bracket :
    (read [⟨.rightParen, ")", 1⟩, ⟨.endOfFile, "", 1⟩, ⟨.rightParen, ")", 2⟩,
      ⟨.identifier, "x", 2⟩]).errors = [.grammar ⟨.rightParen, ")", 1⟩ .expression] :=
  (read_readsToEnd [⟨.rightParen, ")", 1⟩, ⟨.endOfFile, "", 1⟩]).unseen _ rfl |>.2

end Program

end Blockscript

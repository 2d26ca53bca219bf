import Blockscript.Proofs.Reading.Completeness

/-!
Where reading goes on after an error. A token or more is given up: as few as lead behind a
semicolon or in front of a word that starts a statement, and all of them, up to the end, if
none do. Nothing else of the error is left: what comes next is read as if it came first.
-/
namespace Blockscript

def statementWords : List Kind :=
  [.classWord, .funWord, .varWord, .forWord, .ifWord, .whileWord, .printWord, .returnWord]

theorem startsStatement_iff (kind : Kind) :
    kind.startsStatement = true ↔ kind ∈ statementWords := by
  cases kind <;> simp [Kind.startsStatement, statementWords]

/-- Behind these tokens, with those left, reading can go on. -/
structure GoesOn (passed left : List Token) : Prop where
  some : passed ≠ []
  before : ∀ t ∈ passed, t.isEnd = false
  place : (∃ t ∈ passed.getLast?, t.kind = .semicolon) ∨ ∃ t ∈ left.head?, t.kind ∈ statementWords

/-- The tokens given up are the fewest behind which reading can go on, or there are none such and
    they are all there are before the end. -/
inductive GivenUp (passed left : List Token) : Prop where
  | first (here : GoesOn passed left)
      (least : ∀ fewer more, fewer ++ more = passed ++ left → GoesOn fewer more →
        passed.length ≤ fewer.length)
  | all (before : ∀ t ∈ passed, t.isEnd = false) (ends : ∀ t ∈ left.head?, t.isEnd = true)
      (nowhere : ∀ fewer more, fewer ++ more = passed ++ left → ¬ GoesOn fewer more)

variable {t : Token} {passed left rest : List Token}

theorem goesOn_cons : GoesOn (t :: passed) left ↔ t.isEnd = false ∧
    (passed = [] ∧ (t.kind = .semicolon ∨ ∃ u ∈ left.head?, u.kind ∈ statementWords) ∨
      GoesOn passed left) := by
  constructor
  · rintro ⟨-, before, place⟩
    obtain ⟨known, later⟩ := List.forall_mem_cons.mp before
    refine ⟨known, ?_⟩
    cases passed with
    | nil => exact .inl ⟨rfl, place.imp_left fun ⟨_, last, stops⟩ => by cases last; exact stops⟩
    | cons u more =>
      rw [List.getLast?_cons_cons] at place
      exact .inr ⟨List.cons_ne_nil u more, later, place⟩
  · rintro ⟨known, ⟨rfl, place⟩ | ⟨some, before, place⟩⟩
    · refine ⟨List.cons_ne_nil t [], by simpa using known, ?_⟩
      exact place.imp_left fun stops => ⟨t, rfl, stops⟩
    · refine ⟨List.cons_ne_nil t passed, List.forall_mem_cons.mpr ⟨known, before⟩, ?_⟩
      obtain ⟨u, more, rfl⟩ := List.exists_cons_of_ne_nil some
      rwa [List.getLast?_cons_cons]

theorem not_goesOn_end (ends : ∀ t ∈ (passed ++ left).head?, t.isEnd = true) :
    ¬ GoesOn passed left := by
  intro place
  cases passed with
  | nil => exact place.some rfl
  | cons t more =>
    have known := ends t rfl
    rw [(goesOn_cons.mp place).1] at known
    cases known

namespace GivenUp

theorem one (known : t.isEnd = false)
    (place : t.kind = .semicolon ∨ ∃ u ∈ rest.head?, u.kind ∈ statementWords) :
    GivenUp [t] rest := by
  refine .first (goesOn_cons.mpr ⟨known, .inl ⟨rfl, place⟩⟩) ?_
  intro fewer more _ other
  exact List.length_pos_of_ne_nil other.some

theorem cons (h : GivenUp passed left) (known : t.isEnd = false) (other : t.kind ≠ .semicolon)
    (inside : ¬ ∃ u ∈ (passed ++ left).head?, u.kind ∈ statementWords) :
    GivenUp (t :: passed) left := by
  have later : ∀ fewer more, fewer ++ more = t :: (passed ++ left) → GoesOn fewer more →
      ∃ fewer', fewer = t :: fewer' ∧ fewer' ++ more = passed ++ left ∧ GoesOn fewer' more := by
    intro fewer more same place
    cases fewer with
    | nil => exact absurd rfl place.some
    | cons u fewer' =>
      obtain ⟨rfl, behind⟩ := List.cons.inj same
      rcases (goesOn_cons.mp place).2 with ⟨rfl, stops | starts⟩ | deeper
      · exact absurd stops other
      · obtain rfl : more = passed ++ left := behind
        exact absurd starts inside
      · exact ⟨fewer', rfl, behind, deeper⟩
  cases h with
  | first here least =>
    refine .first (goesOn_cons.mpr ⟨known, .inr here⟩) ?_
    intro fewer more same place
    obtain ⟨fewer', rfl, same', place'⟩ := later fewer more same place
    exact Nat.succ_le_succ (least fewer' more same' place')
  | all before ends nowhere =>
    refine .all (List.forall_mem_cons.mpr ⟨known, before⟩) ends ?_
    intro fewer more same place
    obtain ⟨fewer', -, same', place'⟩ := later fewer more same place
    exact nowhere fewer' more same' place'

theorem nothing_iff (h : GivenUp passed left) :
    passed = [] ↔ ∀ t ∈ (passed ++ left).head?, t.isEnd = true := by
  cases h with
  | first here _ =>
    exact ⟨fun none => absurd none here.some, fun ends => absurd here (not_goesOn_end ends)⟩
  | all before ends _ =>
    constructor
    · rintro rfl
      exact ends
    · intro ends'
      cases passed with
      | nil => rfl
      | cons t more =>
        have known := ends' t rfl
        rw [before t List.mem_cons_self] at known
        cases known

end GivenUp

theorem givenUp_end {tokens : List Token} (ends : ∀ t ∈ tokens.head?, t.isEnd = true) :
    GivenUp [] tokens := by
  refine .all (List.forall_mem_nil _) ends ?_
  intro fewer more same
  exact not_goesOn_end (by rwa [same])

theorem resume_givenUp (tokens : List Token) :
    ∃ passed, tokens = passed ++ resume tokens ∧ GivenUp passed (resume tokens) := by
  induction tokens with
  | nil => exact ⟨[], rfl, givenUp_end fun _ none => nomatch none⟩
  | cons t rest ih =>
    obtain ⟨passed, split, given⟩ := ih
    rw [resume_cons]
    by_cases ended : t.isEnd = true
    · rw [if_pos ended]
      exact ⟨[], rfl, givenUp_end fun _ first => by cases first; exact ended⟩
    have known : t.isEnd = false := Bool.eq_false_iff.mpr ended
    rw [if_neg ended]
    by_cases stops : t.kind = .semicolon
    · rw [if_pos stops]
      exact ⟨[t], rfl, .one known (.inl stops)⟩
    rw [if_neg stops]
    simp only [startsStatement_iff]
    by_cases starts : ∃ next ∈ rest.head?, next.kind ∈ statementWords
    · rw [if_pos starts]
      exact ⟨[t], rfl, .one known (.inr starts)⟩
    · rw [if_neg starts]
      refine ⟨t :: passed, congrArg (t :: ·) split, given.cons known stops ?_⟩
      rwa [← split]

/-- Where reading goes on after an error, whatever tokens it left: at the first place behind a token
    at least, or else at the end. The error is noted, and nothing else is; what comes next is read as
    it would be without it, with all nestings left. -/
theorem resume_firstPlace (tokens : List Token) :
    (∃ passed, tokens = passed ++ resume tokens ∧ GivenUp passed (resume tokens) ∧
      (passed = [] ↔ ∀ t ∈ tokens.head?, t.isEnd = true)) ∧
    (∀ (α : Type) (reader : PartReader α) (before : List Token) (e : Error) (errors : List Error),
      reader before = ⟨.error e, tokens, errors⟩ →
        recover reader before = ⟨none, resume tokens, errors ++ [e]⟩) ∧
    ∀ (closes : Kind → Bool) (t : Token) (more : List Token) (e : Error) (errors : List Error),
      (t.isEnd || closes t.kind) = false →
      PartReader.declaration (t :: more) = ⟨.error e, tokens, errors⟩ →
        Recovering.items (recover PartReader.declaration) closes (t :: more) =
          (Recovering.items (recover PartReader.declaration) closes (resume tokens)).behind []
            (errors ++ [e]) := by
  obtain ⟨passed, split, given⟩ := resume_givenUp tokens
  refine ⟨⟨passed, split, given, ?_⟩, fun _ _ _ _ _ => Recovering.recover_of_error, ?_⟩
  · conv_rhs => rw [split]
    exact given.nothing_iff
  · intro closes t more e errors stays failed
    rw [Recovering.items_cons PartReader.declaration_advances, if_neg (by simp [stays])]
    simp only [Recovering.recover_of_error failed]
    rfl

def behindName : List Token :=
  [⟨.rightParen, ")", 1⟩, ⟨.identifier, "b", 1⟩, ⟨.semicolon, ";", 1⟩, ⟨.printWord, "print", 1⟩,
    ⟨.identifier, "c", 1⟩, ⟨.semicolon, ";", 1⟩, ⟨.endOfFile, "", 1⟩]

/-- The error is at the bracket, and reading goes on at the second `print`. -/
theorem resume_firstPlace_bracket :
    let word : Token := ⟨.printWord, "print", 1⟩
    let name : Token := ⟨.identifier, "a", 1⟩
    let e : Error := .grammar ⟨.rightParen, ")", 1⟩ .semicolonAfterValue
    PartReader.declaration (word :: name :: behindName) = ⟨.error e, behindName, []⟩ ∧
    resume behindName = behindName.drop 3 ∧ GivenUp (behindName.take 3) (behindName.drop 3) ∧
    Program.read (word :: name :: behindName) =
      (Program.read (behindName.drop 3)).behind [] [e] := by
  intro word name e
  have failed : PartReader.declaration (word :: name :: behindName) =
      ⟨.error e, behindName, []⟩ := rfl
  have goes : resume behindName = behindName.drop 3 := rfl
  obtain ⟨⟨passed, split, given, -⟩, -, next⟩ := resume_firstPlace behindName
  rw [goes] at split given next
  obtain rfl : passed = behindName.take 3 := List.append_cancel_right split.symm
  exact ⟨failed, goes, given, next (fun _ => false) word _ e [] rfl failed⟩

end Blockscript

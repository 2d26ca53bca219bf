import Blockscript.Proofs.Reading.Completeness

/-!
Whole programs. The tokens in front of the end derive a program just if it is read from
them without errors, and bad runs between its declarations cost one error each.
-/
namespace Blockscript

open Grammar

namespace Recovering

theorem items_rest (closes : Kind → Bool) (tokens : List Token) {t : Token} {rest : List Token}
    (left : (items (recover PartReader.declaration) closes tokens).rest = t :: rest) :
    (t.isEnd || closes t.kind) = true := by
  induction size : tokens.length using Nat.strongRecOn generalizing tokens with
  | ind k ih =>
    cases tokens with
    | nil =>
      rw [items_stops] at left
      cases left
    | cons first more =>
      rw [items_cons PartReader.declaration_advances] at left
      split at left
      · rename_i ends
        obtain ⟨rfl, rfl⟩ := List.cons.inj left
        exact ends
      · rename_i before
        have shorter := PartReader.declaration_advances first more (not_end_of_open before)
        exact ih _ (size ▸ shorter) _ left rfl

end Recovering

namespace Program

variable {ts : List Token} {stop : Token} {program : Program}

theorem read_takes : Recovering.Takes read :=
  Recovering.takes_items (Recovering.takes_recover PartReader.takes_declaration)

theorem read_rest (before : ∀ t ∈ ts, t.isEnd = false) (ends : stop.isEnd = true)
    (rest : List Token) : (read (ts ++ stop :: rest)).rest = stop :: rest := by
  obtain ⟨used, split, kinds⟩ := read_takes.taken (ts ++ stop :: rest)
  have notEnd : ∀ t ∈ used, t.isEnd = false := by simpa [Token.isEnd] using kinds
  rcases List.append_eq_append_iff.mp split with ⟨more, rfl, same⟩ | ⟨left, rfl, same⟩
  · cases more with
    | nil => exact same.symm
    | cons t more =>
      obtain ⟨rfl, _⟩ := List.cons.inj same
      have known := notEnd stop (by simp)
      rw [ends] at known
      cases known
  · cases left with
    | nil => exact same
    | cons t left =>
      have ended := Recovering.items_rest (fun _ => false) _ same
      have known := before t (by simp)
      simp [known] at ended

theorem read_spoilt {us : List Token} {runs : List BadRun}
    (h : Spoilt.Declarations ts us runs program) (ends : stop.isEnd = true) (rest : List Token) :
    ∃ errors, read (us ++ stop :: rest) = ⟨program, stop :: rest, errors⟩ ∧
      Spoilt.Explained runs errors := by
  have only : ∀ k : Kind, (fun _ => false) k = true → k = .rightBrace := by simp
  have closed : (stop.isEnd || (fun _ => false) stop.kind) = true := by simp [ends]
  obtain ⟨errors, explained, behind⟩ :=
    h.read (fun _ => false) only (Recovering.not_elseNext_end only closed rest)
  rw [Recovering.items_end closed, Recovered.behind_nil] at behind
  exact ⟨errors, behind, explained⟩

theorem read_derived (h : Declarations ts program) (ends : stop.isEnd = true)
    (rest : List Token) : read (ts ++ stop :: rest) = ⟨program, stop :: rest, []⟩ := by
  obtain ⟨errors, read, explained⟩ := read_spoilt h.spoilt ends rest
  cases explained
  exact read

/-- Next to errors, what is read was derived from some of the tokens, in their order. -/
theorem read_gathered (tokens : List Token) :
    ∃ ts, ts.Sublist tokens ∧ Declarations ts (read tokens).value := by
  rcases run : read tokens with ⟨program, rest, errors⟩
  obtain ⟨ts, gathered, derived⟩ :=
    PartReader.items_sound (PartReader.statement_soundUpTo _) (Nat.le_refl _) run
  exact ⟨ts, (List.sublist_append_left ts rest).trans gathered.sublist, derived⟩

theorem derived_of_read (before : ∀ t ∈ ts, t.isEnd = false) (ends : stop.isEnd = true)
    {rest : List Token} (clean : (read (ts ++ stop :: rest)).errors = []) :
    Declarations ts (read (ts ++ stop :: rest)).value := by
  have left := read_rest before ends rest
  rcases run : read (ts ++ stop :: rest) with ⟨program, after, errors⟩
  rw [run] at left clean
  obtain rfl : after = stop :: rest := left
  obtain rfl : errors = [] := clean
  obtain ⟨us, gathered, derived⟩ :=
    PartReader.items_sound (PartReader.statement_soundUpTo _) (Nat.le_refl _) run
  obtain rfl : ts = us := List.append_cancel_right (gathered.whole rfl)
  exact derived

/-- The tokens before the end are read as a program without errors just if they derive it. -/
theorem read_iff_derives (before : ∀ t ∈ ts, t.isEnd = false) (ends : stop.isEnd = true)
    (program : Program) :
    ((read (ts ++ [stop])).value = program ∧ (read (ts ++ [stop])).errors = []) ↔
      Declarations ts program := by
  constructor
  · rintro ⟨rfl, clean⟩
    exact derived_of_read before ends clean
  · intro derived
    rw [read_derived derived ends []]
    exact ⟨rfl, rfl⟩

/-- The `else` of `if (a) if (b) c; else d;` belongs to the inner `if`. -/
theorem read_iff_derives_else :
    Declarations
      [⟨.ifWord, "if", 1⟩, ⟨.leftParen, "(", 1⟩, ⟨.identifier, "a", 1⟩, ⟨.rightParen, ")", 1⟩,
        ⟨.ifWord, "if", 1⟩, ⟨.leftParen, "(", 1⟩, ⟨.identifier, "b", 1⟩, ⟨.rightParen, ")", 1⟩,
        ⟨.identifier, "c", 1⟩, ⟨.semicolon, ";", 1⟩, ⟨.elseWord, "else", 1⟩,
        ⟨.identifier, "d", 1⟩, ⟨.semicolon, ";", 1⟩]
      [.branch (.var ⟨.identifier, "a", 1⟩)
        (.branch (.var ⟨.identifier, "b", 1⟩) (.expression (.var ⟨.identifier, "c", 1⟩))
          (some (.expression (.var ⟨.identifier, "d", 1⟩)))) none] :=
  have ends : Token.isEnd ⟨.endOfFile, "", 1⟩ = true := rfl
  (read_iff_derives (by decide) ends _).mp ⟨rfl, rfl⟩

/-- Wherever bad runs are put between the declarations of a program that is read without
    errors, the program is still read, with one error for each run in order. -/
theorem read_between_runs (before : ∀ t ∈ ts, t.isEnd = false) (ends : stop.isEnd = true)
    {rest : List Token} (clean : (read (ts ++ stop :: rest)).errors = []) :
    Spoilt.Declarations ts ts [] (read (ts ++ stop :: rest)).value ∧
    ∀ {us runs program}, Spoilt.Declarations ts us runs program →
      (read (us ++ stop :: rest)).value = (read (ts ++ stop :: rest)).value ∧
      List.Forall₂ BadRun.Explains runs (read (us ++ stop :: rest)).errors := by
  refine ⟨(derived_of_read before ends clean).spoilt, ?_⟩
  intro us runs program spoilt
  obtain ⟨errors, run, explained⟩ := read_spoilt spoilt ends rest
  rw [run, read_derived spoilt.clean ends rest]
  exact ⟨rfl, explained⟩

def twoNames : BadRun where
  body := [⟨.identifier, "x", 1⟩, ⟨.identifier, "y", 1⟩]
  stop := ⟨.semicolon, ";", 1⟩
  stops := rfl
  plain := by decide
  inside := by decide
  first := by decide
  malformed := not_declaration rfl

def strayBracket : BadRun where
  body := [⟨.rightParen, ")", 2⟩]
  stop := ⟨.semicolon, ";", 2⟩
  stops := rfl
  plain := by decide
  inside := by decide
  first := by decide
  malformed := not_declaration rfl

/-- In `x y; { ); a; }` there are two errors, and `{ a; }` is left. -/
theorem read_between_runs_block :
    (read (twoNames.tokens ++ ⟨.leftBrace, "\x7b", 2⟩ :: (strayBracket.tokens ++
      [⟨.identifier, "a", 2⟩, ⟨.semicolon, ";", 2⟩, ⟨.rightBrace, "\x7d", 2⟩,
        ⟨.endOfFile, "", 2⟩]))).value =
      (read [⟨.leftBrace, "\x7b", 2⟩, ⟨.identifier, "a", 2⟩, ⟨.semicolon, ";", 2⟩,
        ⟨.rightBrace, "\x7d", 2⟩, ⟨.endOfFile, "", 2⟩]).value ∧
    List.Forall₂ BadRun.Explains [twoNames, strayBracket]
      (read (twoNames.tokens ++ ⟨.leftBrace, "\x7b", 2⟩ :: (strayBracket.tokens ++
        [⟨.identifier, "a", 2⟩, ⟨.semicolon, ";", 2⟩, ⟨.rightBrace, "\x7d", 2⟩,
          ⟨.endOfFile, "", 2⟩]))).errors := by
  have name : Whole [⟨.identifier, "a", 2⟩] (.var ⟨.identifier, "a", 2⟩) :=
    ⟨derives_name rfl .assignment, Nat.zero_le 100⟩
  have stated : Simple [⟨.identifier, "a", 2⟩, ⟨.semicolon, ";", 2⟩] _ := .expression name rfl
  have inner := Spoilt.Declarations.run strayBracket
    (.cons (.statement (.simple stated)) .nil)
  have spoilt := Spoilt.Declarations.run twoNames (.cons (.statement
    (.block (l := ⟨.leftBrace, "\x7b", 2⟩) rfl inner (r := ⟨.rightBrace, "\x7d", 2⟩) rfl)) .nil)
  have ends : Token.isEnd ⟨.endOfFile, "", 2⟩ = true := rfl
  exact (read_between_runs (by decide) ends (by rfl)).2 spoilt

end Program

end Blockscript

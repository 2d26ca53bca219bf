import Blockscript.Proofs.Reading.Programs

/-!
What follows a program does not change how it is read. Every rule but one knows its own
last token; an `if` without an `else` looks one token further, and only for an `else`.
-/
namespace Blockscript

open Grammar

namespace Recovering

theorem items_derived {ts us : List Token} {body : List Stmt} (h : Declarations ts body)
    {closes : Kind → Bool} (only : ∀ k, closes k = true → k = .rightBrace)
    (last : elseNext us = false) :
    items (recover PartReader.declaration) closes (ts ++ us) =
      (items (recover PartReader.declaration) closes us).behind body [] := by
  obtain ⟨errors, explained, read⟩ := h.spoilt.read closes only last
  cases explained
  exact read

end Recovering

namespace Program

variable {ts us : List Token} {stop : Token}

/-- If a text is read without errors, then so it is in front of any other that does not
    begin with `else`: its statements come first, and the other text is read as it is read
    alone, errors and all. -/
theorem read_append (before : ∀ t ∈ ts, t.isEnd = false) (ends : stop.isEnd = true)
    (clean : (read (ts ++ [stop])).errors = []) (turn : ∀ t ∈ us.head?, t.kind ≠ .elseWord) :
    read (ts ++ us) =
      ⟨(read (ts ++ [stop])).value ++ (read us).value, (read us).rest, (read us).errors⟩ := by
  have derived : Declarations ts (read (ts ++ [stop])).value := derived_of_read before ends clean
  have only : ∀ k : Kind, (fun _ => false) k = true → k = .rightBrace := by simp
  have last : elseNext us = false := by
    rw [elseNext, Option.any_eq_false]
    intro t first
    exact Bool.eq_false_iff.mpr (decide_eq_true_iff.not.mpr (turn t first))
  exact Recovering.items_derived derived only last

/-- Behind `if (a) b;` the tokens `) c` are one error, as they are alone, and the end of
    them is not the end of a file. -/
theorem read_append_broken :
    read ([⟨.ifWord, "if", 1⟩, ⟨.leftParen, "(", 1⟩, ⟨.identifier, "a", 1⟩,
        ⟨.rightParen, ")", 1⟩, ⟨.identifier, "b", 1⟩, ⟨.semicolon, ";", 1⟩] ++
        [⟨.rightParen, ")", 2⟩, ⟨.identifier, "c", 2⟩]) =
      ⟨[.branch (.var ⟨.identifier, "a", 1⟩) (.expression (.var ⟨.identifier, "b", 1⟩)) none],
        [], [.grammar ⟨.rightParen, ")", 2⟩ .expression]⟩ :=
  have ends : Token.isEnd ⟨.endOfFile, "", 1⟩ = true := rfl
  read_append (by decide) ends rfl (by decide)

end Program

end Blockscript

import Blockscript.Proofs.Scanning.Lexemes
import Blockscript.Proofs.Scanning.Seam

/-!
Sources cut into pieces, each as long as it can be. There is just one such cut of a source,
all of the source is in it, and the scan gives its tokens and its errors and nothing else.
-/
namespace Blockscript

/-- The longest text at the front that fits; a character alone where nothing does. -/
inductive FirstPiece : List Char → Piece → List Char → Prop where
  | longest {source text : List Char} {piece : Piece} (fits : Fits source piece text)
      (most : ∀ piece' text', Fits source piece' text' → text'.length ≤ text.length) :
      FirstPiece source piece text
  | unexpected {c : Char} {rest : List Char} (nothing : ∀ piece text, ¬ Fits (c :: rest) piece text) :
      FirstPiece (c :: rest) (.unexpected c) [c]

inductive Pieces : List Char → List (Piece × List Char) → Prop where
  | nil : Pieces [] []
  | cons {text rest : List Char} {piece : Piece} {more : List (Piece × List Char)}
      (first : FirstPiece (text ++ rest) piece text) (next : Pieces rest more) :
      Pieces (text ++ rest) ((piece, text) :: more)

namespace Pieces

/-- The tokens among the pieces of a text that begins in a line. A token bears the line it
    ends in. -/
def tokens (line : Nat) : List (Piece × List Char) → List Token
  | [] => []
  | (.token kind, text) :: more =>
    ⟨kind, String.ofList text, line + text.count '\n'⟩ :: tokens (line + text.count '\n') more
  | (_, text) :: more => tokens (line + text.count '\n') more

/-- One error for each character that begins nothing and for a string that is never closed. -/
def errors (line : Nat) : List (Piece × List Char) → List Error
  | [] => []
  | (.unexpected c, text) :: more =>
    .lexical (line + text.count '\n') (.unexpectedCharacter c) ::
      errors (line + text.count '\n') more
  | (.unterminated, text) :: more =>
    .lexical (line + text.count '\n') .unterminatedString :: errors (line + text.count '\n') more
  | (_, text) :: more => errors (line + text.count '\n') more

end Pieces

namespace FirstPiece

variable {c : Char} {cs text : List Char} {piece : Piece}

theorem first (c : Char) (cs : List Char) :
    FirstPiece (c :: cs) (Cut.first c cs).piece (Cut.first c cs).text := by
  rcases Cut.first_fits c cs with fits | cut
  · refine .longest fits ?_
    intro piece text fits'
    exact (Cut.fits_bounds fits').1.length_le
  · rw [cut]
    exact .unexpected fun piece text => Cut.nothing_fits cut

theorem eq_first (h : FirstPiece (c :: cs) piece text) :
    piece = (Cut.first c cs).piece ∧ text = (Cut.first c cs).text := by
  cases h with
  | longest fits most =>
    rcases Cut.first_fits c cs with fits' | cut
    · obtain ⟨front, sort⟩ := Cut.fits_bounds fits
      have same := front.eq_of_length_le (most _ _ fits')
      exact ⟨sort same, same⟩
    · exact absurd fits (Cut.nothing_fits cut)
  | unexpected nothing =>
    rcases Cut.first_fits c cs with fits | cut
    · exact absurd fits (nothing _ _)
    · rw [cut]
      exact ⟨rfl, rfl⟩

theorem ne_nil (h : FirstPiece cs piece text) : text ≠ [] := by
  cases h with
  | longest fits most => exact fits.ne_nil
  | unexpected nothing => exact List.cons_ne_nil _ _

theorem front (h : FirstPiece cs piece text) : text <+: cs := by
  cases h with
  | longest fits most => exact fits.front
  | unexpected nothing => exact ⟨_, rfl⟩

theorem unique {piece' : Piece} {text' : List Char} (h : FirstPiece cs piece text)
    (h' : FirstPiece cs piece' text') : piece = piece' ∧ text = text' := by
  cases cs with
  | nil => exact absurd (List.prefix_nil.mp h.front) h.ne_nil
  | cons c cs =>
    obtain ⟨sort, same⟩ := h.eq_first
    obtain ⟨sort', same'⟩ := h'.eq_first
    exact ⟨sort.trans sort'.symm, same.trans same'.symm⟩

end FirstPiece

namespace Pieces

variable {source : List Char} {pieces pieces' : List (Piece × List Char)}

theorem of_nil (h : Pieces [] pieces) : pieces = [] := by
  generalize empty : ([] : List Char) = source at h
  cases h with
  | nil => rfl
  | cons first next => exact absurd (List.append_eq_nil_iff.mp empty.symm).1 first.ne_nil

theorem unique (h : Pieces source pieces) (h' : Pieces source pieces') : pieces = pieces' := by
  induction h generalizing pieces' with
  | nil => exact h'.of_nil.symm
  | @cons text rest piece more first next ih =>
    generalize whole : text ++ rest = source at h'
    cases h' with
    | nil => exact absurd (List.append_eq_nil_iff.mp whole).1 first.ne_nil
    | @cons text' rest' piece' more' first' next' =>
      rw [whole] at first
      obtain ⟨rfl, rfl⟩ := first.unique first'
      obtain rfl := List.append_cancel_left whole
      rw [ih next']

theorem flatten_eq (h : Pieces source pieces) : (pieces.map (·.2)).flatten = source := by
  induction h with
  | nil => rfl
  | cons first next ih => rw [List.map_cons, List.flatten_cons, ih]

theorem tokens_cons (line : Nat) (c : Char) (cs : List Char) (more : List (Piece × List Char)) :
    tokens line (((Cut.first c cs).piece, (Cut.first c cs).text) :: more) =
      TokenStream.tokensOf
          ((Cut.first c cs).outcome ((Cut.first c cs).lineAfter line)).toList ++
        tokens ((Cut.first c cs).lineAfter line) more := by
  rw [Cut.lineAfter_first]
  unfold Cut.outcome
  cases (Cut.first c cs).piece <;> rfl

/-- Digits always spell a number, so no other pieces are errors. -/
theorem errors_cons (line : Nat) (c : Char) (cs : List Char) (more : List (Piece × List Char)) :
    errors line (((Cut.first c cs).piece, (Cut.first c cs).text) :: more) =
      TokenStream.errorsOf
          ((Cut.first c cs).outcome ((Cut.first c cs).lineAfter line)).toList ++
        errors ((Cut.first c cs).lineAfter line) more := by
  have spelt := Cut.first_spelt c cs
  rw [Cut.lineAfter_first]
  unfold Cut.outcome
  cases sort : (Cut.first c cs).piece with
  | notNumber => exact absurd sort spelt
  | _ => rfl

theorem of_scans {line last : Nat} {outcomes : List (Except Error Token)}
    (h : Scans line source outcomes last) :
    ∃ pieces, Pieces source pieces ∧ TokenStream.tokensOf outcomes = tokens line pieces ∧
      TokenStream.errorsOf outcomes = errors line pieces := by
  induction h with
  | done line => exact ⟨[], .nil, rfl, rfl⟩
  | @piece line last c cs outcomes more ih =>
    obtain ⟨pieces, cut, told, failed⟩ := ih
    have first := FirstPiece.first c cs
    have whole := Cut.first_whole c cs
    rw [← whole] at first
    have all := Pieces.cons first cut
    rw [whole] at all
    refine ⟨_, all, ?_, ?_⟩
    · rw [TokenStream.tokensOf_append, told, tokens_cons]
    · rw [TokenStream.errorsOf_append, failed, errors_cons]

end Pieces

/-- There is just one way to cut a source into pieces that are each as long as can be. The scan
    gives the tokens among them, closed by the one end of the source, and the errors among
    them. -/
theorem TokenStream.scan_pieces (source : String) :
    ∃ pieces, (Pieces source.toList pieces ∧ ∀ other, Pieces source.toList other → other = pieces) ∧
      (pieces.map (·.2)).flatten = source.toList ∧
      (ofSource source).scan.1 =
        (Pieces.tokens 1 pieces ++ [⟨.endOfFile, "", 1 + source.toList.count '\n'⟩],
          Pieces.errors 1 pieces) ∧
      ∀ t ∈ Pieces.tokens 1 pieces, t.isEnd = false := by
  obtain ⟨outcomes, last, scans⟩ := Scans.total 1 source.toList
  obtain ⟨pieces, cut, told, failed⟩ := Pieces.of_scans scans
  refine ⟨pieces, ⟨cut, fun other cut' => cut'.unique cut⟩, cut.flatten_eq, ?_, ?_⟩
  · rw [scans.scan, scans.last_eq, told, failed]
  · intro t member
    rw [← told] at member
    exact scans.tokens_not_end member

end Blockscript

import Blockscript.Proofs.Scanning.Cutting

/-!
The lines that a scan tells. A token and an error bear the line in which their own text ends,
so the line counts the line ends of the source up to there, and never goes back.
-/
namespace Blockscript

def lineAt (front : List Char) : Nat := 1 + front.count '\n'

/-- A piece with the source up to its end. -/
structure Reached where
  piece : Piece
  text : List Char
  front : List Char

namespace Reached

def token? (r : Reached) : Option Token :=
  match r.piece with
  | .token kind => some ⟨kind, String.ofList r.text, lineAt r.front⟩
  | _ => none

def error? (r : Reached) : Option Error :=
  match r.piece with
  | .unexpected c => some (.lexical (lineAt r.front) (.unexpectedCharacter c))
  | .unterminated => some (.lexical (lineAt r.front) .unterminatedString)
  | _ => none

theorem token?_line {r : Reached} {t : Token} (h : r.token? = some t) :
    t.line = lineAt r.front := by
  unfold token? at h
  split at h
  · cases h; rfl
  · cases h

end Reached

theorem lineAt_append (before text : List Char) :
    lineAt before + text.count '\n' = lineAt (before ++ text) := by
  rw [lineAt, lineAt, List.count_append, Nat.add_assoc]

theorem lineAt_mono {first second : List Char} (h : first <+: second) :
    lineAt first ≤ lineAt second :=
  Nat.add_le_add_left (h.sublist.count_le '\n') 1

theorem FirstPiece.unterminated {source text : List Char}
    (h : FirstPiece source .unterminated text) : source = text := by
  cases h with
  | longest fits =>
    cases fits with
    | unterminated => rfl

namespace Pieces

def reached (before : List Char) : List (Piece × List Char) → List Reached
  | [] => []
  | (piece, text) :: more => ⟨piece, text, before ++ text⟩ :: reached (before ++ text) more

variable {source : List Char} {pieces : List (Piece × List Char)}

theorem tokens_eq_reached (before : List Char) (pieces : List (Piece × List Char)) :
    tokens (lineAt before) pieces = (reached before pieces).filterMap Reached.token? := by
  induction pieces generalizing before with
  | nil => rfl
  | cons head more ih =>
    obtain ⟨piece, text⟩ := head
    rw [reached, List.filterMap_cons, ← ih, ← lineAt_append]
    cases piece <;> simp only [Reached.token?, ← lineAt_append] <;> rfl

theorem errors_eq_reached (before : List Char) (pieces : List (Piece × List Char)) :
    errors (lineAt before) pieces = (reached before pieces).filterMap Reached.error? := by
  induction pieces generalizing before with
  | nil => rfl
  | cons head more ih =>
    obtain ⟨piece, text⟩ := head
    rw [reached, List.filterMap_cons, ← ih, ← lineAt_append]
    cases piece <;> simp only [Reached.error?, ← lineAt_append] <;> rfl

theorem reached_front (h : Pieces source pieces) (before : List Char) :
    ∀ r ∈ reached before pieces, before <+: r.front ∧ r.text <:+ r.front ∧
      r.front <+: before ++ source ∧ (r.piece = .unterminated → r.front = before ++ source) := by
  induction h generalizing before with
  | nil => intro r among; cases among
  | @cons text rest piece more first next ih =>
    intro r among
    rw [← List.append_assoc]
    rcases List.mem_cons.mp among with rfl | later
    · refine ⟨List.prefix_append before text, List.suffix_append before text,
        List.prefix_append _ rest, ?_⟩
      rintro rfl
      rw [List.append_assoc, first.unterminated]
    · obtain ⟨behind, own, within_, last⟩ := ih (before ++ text) r later
      exact ⟨(List.prefix_append before text).trans behind, own, within_, last⟩

theorem reached_pairwise (h : Pieces source pieces) (before : List Char) :
    (reached before pieces).Pairwise fun r r' => r.front <+: r'.front := by
  induction h generalizing before with
  | nil => exact .nil
  | cons first next ih =>
    exact .cons (fun r later => (next.reached_front _ r later).1) (ih _)

end Pieces

/-- The tokens and the errors of a scan are those of the pieces of the source, in the lines that
    these end in. The last token is in the last line. -/
structure Pieces.Lined (source : List Char) (pieces : List (Piece × List Char))
    (scanned : List Token × List Error) : Prop where
  tokens : scanned.1 = (reached [] pieces).filterMap Reached.token? ++
    [⟨.endOfFile, "", lineAt source⟩]
  errors : scanned.2 = (reached [] pieces).filterMap Reached.error?
  own : ∀ r ∈ reached [] pieces, r.text <:+ r.front ∧ r.front <+: source
  unclosed : ∀ r ∈ reached [] pieces, r.piece = .unterminated → r.front = source
  ordered : scanned.1.Pairwise fun t u => t.line ≤ u.line

/-- Lines never go back from one token to the next. -/
theorem TokenStream.scan_lined (source : String) :
    ∃ pieces, (Pieces source.toList pieces ∧ ∀ other, Pieces source.toList other → other = pieces) ∧
      Pieces.Lined source.toList pieces (ofSource source).scan.1 := by
  obtain ⟨pieces, ⟨cut, unique⟩, -, scanned, -⟩ := scan_pieces source
  have front := cut.reached_front []
  have told : (ofSource source).scan.1.1 = (Pieces.reached [] pieces).filterMap Reached.token? ++
      [⟨.endOfFile, "", lineAt source.toList⟩] := by
    rw [scanned, ← Pieces.tokens_eq_reached]
    rfl
  refine ⟨pieces, ⟨cut, unique⟩, told, ?_, ?_, ?_, ?_⟩
  · rw [scanned, ← Pieces.errors_eq_reached]
    rfl
  · exact fun r among => ⟨(front r among).2.1, (front r among).2.2.1⟩
  · exact fun r among => (front r among).2.2.2
  · rw [told, List.pairwise_append]
    refine ⟨?_, List.pairwise_singleton _ _, ?_⟩
    · refine List.Pairwise.filterMap _ ?_ (cut.reached_pairwise [])
      intro r r' before t token u token'
      rw [Reached.token?_line token, Reached.token?_line token']
      exact lineAt_mono before
    · intro t among u last
      obtain ⟨r, here, token⟩ := List.mem_filterMap.mp among
      obtain rfl := List.mem_singleton.mp last
      rw [Reached.token?_line token]
      exact lineAt_mono (front r here).2.2.1

end Blockscript

import Blockscript.Proofs.Scanning.Lexemes
import Blockscript.Token.Stream

/-!
Scanning as a relation between a text and its outcomes, piece by piece, without the bound
and the accumulator that the scanner has. Every text has just one list of outcomes.
-/
namespace Blockscript

/-- The outcomes in a text that begins in a line, and the line where it ends. -/
inductive Scans : Nat → List Char → List (Except Error Token) → Nat → Prop where
  | done (line : Nat) : Scans line [] [] line
  | piece {line last : Nat} {c : Char} {cs : List Char} {outcomes : List (Except Error Token)}
      (more : Scans ((Cut.first c cs).lineAfter line) (Cut.first c cs).rest outcomes last) :
      Scans line (c :: cs)
        (((Cut.first c cs).outcome ((Cut.first c cs).lineAfter line)).toList ++ outcomes) last

namespace Cut

theorem first_rest_shorter (c : Char) (cs : List Char) :
    (first c cs).rest.length < (c :: cs).length := by
  have whole := congrArg List.length (first_whole c cs)
  have some := List.length_pos_iff.mpr (first_text_ne_nil c cs)
  rw [List.length_append] at whole
  omega

theorem wordKind_known (word : String) :
    wordKind word = .identifier ∨ ∃ pair ∈ reservedWords, wordKind word = pair.2 := by
  unfold wordKind
  cases found : reservedWords.lookup word with
  | none => exact .inl rfl
  | some kind =>
    obtain ⟨before, after, same, _⟩ := List.lookup_eq_some_iff.mp found
    exact .inr ⟨(word, kind), by rw [same]; simp, rfl⟩

theorem wordKind_ne_end (word : String) : wordKind word ≠ .endOfFile := by
  have reserved : ∀ pair ∈ reservedWords, pair.2 ≠ .endOfFile := by decide
  rcases wordKind_known word with name | ⟨pair, member, kind⟩
  · rw [name]
    decide
  · rw [kind]
    exact reserved pair member

theorem lexeme_ne_end {text : List Char} {kind : Kind} (h : Lexeme text kind) :
    kind ≠ .endOfFile := by
  cases h with
  | operator listed =>
    have known : ∀ pair ∈ operatorKinds, pair.2 ≠ .endOfFile := by decide
    exact known _ listed
  | string | whole | decimal => exact Kind.noConfusion
  | word => exact wordKind_ne_end _

theorem first_ne_end {c : Char} {cs : List Char} {kind : Kind}
    (h : (first c cs).piece = .token kind) : kind ≠ .endOfFile := by
  rcases first_fits c cs with fits | cut
  · rw [h] at fits
    cases fits with
    | token lexeme front => exact lexeme_ne_end lexeme
  · rw [cut] at h
    cases h

theorem outcome_ok {cut : Cut} {line : Nat} {t : Token} (h : cut.outcome line = some (.ok t)) :
    cut.piece = .token t.kind := by
  unfold outcome at h
  split at h
  · rename_i same; cases h; exact same
  all_goals cases h

theorem outcome_error {cut : Cut} {line : Nat} {e : Error}
    (h : cut.outcome line = some (.error e)) : ∃ fault, e = .lexical line fault := by
  unfold outcome at h
  split at h
  all_goals cases h
  all_goals exact ⟨_, rfl⟩

end Cut

namespace TokenStream

@[simp] theorem tokensOf_append (first second : List (Except Error Token)) :
    tokensOf (first ++ second) = tokensOf first ++ tokensOf second :=
  List.filterMap_append

@[simp] theorem errorsOf_append (first second : List (Except Error Token)) :
    errorsOf (first ++ second) = errorsOf first ++ errorsOf second :=
  List.filterMap_append

theorem mem_tokensOf {t : Token} {outcomes : List (Except Error Token)} :
    t ∈ tokensOf outcomes ↔ .ok t ∈ outcomes := by
  induction outcomes with
  | nil => simp [tokensOf]
  | cons outcome rest ih => cases outcome <;> simp_all [tokensOf]

theorem mem_errorsOf {e : Error} {outcomes : List (Except Error Token)} :
    e ∈ errorsOf outcomes ↔ .error e ∈ outcomes := by
  induction outcomes with
  | nil => simp [errorsOf]
  | cons outcome rest ih => cases outcome <;> simp_all [errorsOf]

end TokenStream

namespace Scans

theorem total (line : Nat) (text : List Char) : ∃ outcomes last, Scans line text outcomes last := by
  induction size : text.length using Nat.strongRecOn generalizing line text with
  | ind k ih =>
    cases text with
    | nil => exact ⟨[], line, .done line⟩
    | cons c cs =>
      obtain ⟨outcomes, last, more⟩ := ih _ (size ▸ Cut.first_rest_shorter c cs) _ _ rfl
      exact ⟨_, last, .piece more⟩

theorem allWithin {line last : Nat} {text : List Char} {outcomes : List (Except Error Token)}
    (h : Scans line text outcomes last) {fuel : Nat} (enough : text.length ≤ fuel)
    (found : List (Except Error Token)) :
    TokenStream.allWithin fuel line found text = (found.reverse ++ outcomes, last) := by
  induction h generalizing fuel found with
  | done line => cases fuel <;> simp [TokenStream.allWithin]
  | @piece line last c cs outcomes more ih =>
    cases fuel with
    | zero => simp at enough
    | succ fuel =>
      have shorter := Cut.first_rest_shorter c cs
      have enough' : (Cut.first c cs).rest.length ≤ fuel := by omega
      simp only [TokenStream.allWithin]
      rw [ih enough', List.reverse_append]
      cases (Cut.first c cs).outcome ((Cut.first c cs).lineAfter line) <;> simp

theorem of_mem {line last : Nat} {text : List Char} {outcomes : List (Except Error Token)}
    (h : Scans line text outcomes last) {outcome : Except Error Token}
    (member : outcome ∈ outcomes) :
    ∃ c cs line, (Cut.first c cs).outcome line = some outcome := by
  induction h with
  | done => cases member
  | piece more ih =>
    rcases List.mem_append.mp member with here | later
    · exact ⟨_, _, _, Option.mem_toList.mp here⟩
    · exact ih later

theorem errors_lexical {line last : Nat} {text : List Char}
    {outcomes : List (Except Error Token)} (h : Scans line text outcomes last) {e : Error}
    (member : e ∈ TokenStream.errorsOf outcomes) : ∃ line fault, e = .lexical line fault := by
  obtain ⟨c, cs, line, found⟩ := h.of_mem (TokenStream.mem_errorsOf.mp member)
  obtain ⟨fault, same⟩ := Cut.outcome_error found
  exact ⟨line, fault, same⟩

theorem tokens_not_end {line last : Nat} {text : List Char}
    {outcomes : List (Except Error Token)} (h : Scans line text outcomes last) {t : Token}
    (member : t ∈ TokenStream.tokensOf outcomes) : t.isEnd = false := by
  obtain ⟨c, cs, line, found⟩ := h.of_mem (TokenStream.mem_tokensOf.mp member)
  have kind := Cut.first_ne_end (Cut.outcome_ok found)
  simpa [Token.isEnd] using kind

theorem scan {source : String} {last : Nat} {outcomes : List (Except Error Token)}
    (h : Scans 1 source.toList outcomes last) :
    (TokenStream.ofSource source).scan.1 =
      (TokenStream.tokensOf outcomes ++ [⟨.endOfFile, "", last⟩],
        TokenStream.errorsOf outcomes) := by
  simp only [TokenStream.scan, TokenStream.ofSource, h.allWithin (Nat.le_refl _), List.reverse_nil,
    List.nil_append]

end Scans

end Blockscript

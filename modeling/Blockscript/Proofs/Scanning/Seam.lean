import Blockscript.Proofs.Reading.OtherLines
import Blockscript.Proofs.Scanning.Scans
import Mathlib.Data.List.TakeWhile

/-!
Scanning two texts one after the other. No piece but a string that is never closed goes on
past the end of a line that ends the text, so the first text is cut as it would be alone.
-/
namespace Blockscript

def EndsLine (text : List Char) : Prop := ∀ c ∈ text.getLast?, c = '\n'

namespace EndsLine

variable {c : Char} {cs : List Char}

theorem tail (h : EndsLine (c :: cs)) : EndsLine cs := by
  intro d last
  refine h d ?_
  cases cs with
  | nil => cases last
  | cons e es => simpa using last

theorem mem (h : EndsLine cs) (some : cs ≠ []) : '\n' ∈ cs := by
  cases last : cs.getLast? with
  | none => exact absurd (List.getLast?_eq_none_iff.mp last) some
  | some d =>
    obtain rfl := h d last
    exact List.mem_of_getLast? last

theorem later (h : EndsLine (c :: cs)) (other : c ≠ '\n') : '\n' ∈ cs := by
  have known := h.mem (List.cons_ne_nil c cs)
  rcases List.mem_cons.mp known with same | more
  · exact absurd same.symm other
  · exact more

theorem of_suffix {before after : List Char} (h : EndsLine (before ++ after)) : EndsLine after := by
  induction before with
  | nil => exact h
  | cons _ _ ih => exact ih h.tail

end EndsLine

theorem takeWhile_seam {p : Char → Bool} {cs : List Char} (stop : ∃ c ∈ cs, p c = false)
    (more : List Char) : (cs ++ more).takeWhile p = cs.takeWhile p ∧
      (cs ++ more).dropWhile p = cs.dropWhile p ++ more := by
  induction cs with
  | nil => simp at stop
  | cons c cs ih =>
    cases known : p c with
    | false => simp [known]
    | true =>
      have deeper : ∃ c ∈ cs, p c = false := by simpa [known] using stop
      simp [known, ih deeper]

theorem stop_of_dropWhile {p : Char → Bool} {cs : List Char} (left : cs.dropWhile p ≠ []) :
    ∃ c ∈ cs, p c = false := by
  simpa [List.dropWhile_eq_nil_iff] using left

namespace Cut

def before (cut : Cut) (more : List Char) : Cut := { cut with rest := cut.rest ++ more }

variable {c : Char} {cs : List Char}

theorem slash_before (h : '\n' ∈ cs) (more : List Char) :
    slash (cs ++ more) = (slash cs).before more := by
  cases cs with
  | nil => cases h
  | cons d ds =>
    by_cases same : d = '/'
    · have stop : ∃ c ∈ ds, (c != '\n') = false := ⟨'\n', by simpa [same] using h, rfl⟩
      obtain ⟨run, rest⟩ := takeWhile_seam stop more
      simp only [same, List.cons_append, slash, run, rest, before]
    · simp [slash, same, before]

theorem quote_before (closed : (quote cs).piece ≠ .unterminated) (more : List Char) :
    quote (cs ++ more) = (quote cs).before more := by
  cases found : cs.dropWhile (· != '"') with
  | nil => simp [quote, found] at closed
  | cons close after =>
    have left : cs.dropWhile (· != '"') ≠ [] := by simp [found]
    obtain ⟨run, rest⟩ := takeWhile_seam (stop_of_dropWhile left) more
    simp only [quote, run, rest, found, List.cons_append, before]

theorem numeral_before (text rest more : List Char) :
    numeral text (rest ++ more) = (numeral text rest).before more := by
  unfold numeral
  split <;> rfl

/-- A point at the end of the text would not end a line. -/
theorem number_before (h : EndsLine cs) (later : '\n' ∈ cs) (more : List Char) :
    number c (cs ++ more) = (number c cs).before more := by
  have stop : ∃ c ∈ cs, c.isDigit = false := ⟨'\n', later, by decide⟩
  obtain ⟨run, rest⟩ := takeWhile_seam stop more
  have whole := List.takeWhile_append_dropWhile (p := Char.isDigit) (l := cs)
  have ends : EndsLine (cs.dropWhile Char.isDigit) := by
    rw [← whole] at h
    exact h.of_suffix
  simp only [number, run, rest]
  cases found : cs.dropWhile Char.isDigit with
  | nil =>
    obtain ⟨d, member, other⟩ := stop
    have all := List.dropWhile_eq_nil_iff.mp found d member
    simp [other] at all
  | cons point after =>
    rw [found] at ends
    by_cases same : point = '.'
    · subst same
      have newline := ends.later (by decide)
      cases after with
      | nil => cases newline
      | cons d ds =>
        simp only [List.cons_append]
        cases digit : d.isDigit with
        | false => exact numeral_before _ ('.' :: d :: ds) more
        | true =>
          have other : d ≠ '\n' := by rintro rfl; simp at digit
          have stop' : ∃ c ∈ ds, c.isDigit = false :=
            ⟨'\n', ends.tail.later other, by decide⟩
          obtain ⟨run', rest'⟩ := takeWhile_seam stop' more
          simp only [run', rest', ↓reduceIte, numeral_before]
    · simp [same, ← numeral_before]

theorem word_before (h : '\n' ∈ cs) (more : List Char) :
    word c (cs ++ more) = (word c cs).before more := by
  have stop : ∃ c ∈ cs, c.isAlphanum = false := ⟨'\n', h, by decide⟩
  obtain ⟨run, rest⟩ := takeWhile_seam stop more
  simp only [word, run, rest, before]

theorem pair_before (h : '\n' ∈ cs) (alone lengthened : Kind) (more : List Char) :
    pair alone lengthened c (cs ++ more) = (pair alone lengthened c cs).before more := by
  cases cs with
  | nil => cases h
  | cons d ds =>
    by_cases same : d = '='
    · simp only [same, List.cons_append, pair, before]
    · simp [pair, same, before]

theorem operator_before (h : '\n' ∈ cs) (more : List Char) :
    operator c (cs ++ more) = (operator c cs).before more := by
  unfold operator
  split
  · rfl
  · exact pair_before h _ _ more
  · rfl

theorem first_before (h : EndsLine (c :: cs)) (closed : (first c cs).piece ≠ .unterminated)
    (more : List Char) : first c (cs ++ more) = (first c cs).before more := by
  by_cases blank : isBlank c
  · simp only [first, blank, ↓reduceIte, before]
  have other : c ≠ '\n' := by
    rintro rfl
    exact blank rfl
  have later := h.later other
  unfold first at closed ⊢
  simp only [blank, Bool.false_eq_true, ↓reduceIte] at closed ⊢
  split
  · exact slash_before later more
  split
  · rename_i isQuote
    simp only [isQuote, ↓reduceIte] at closed
    exact quote_before closed more
  split
  · exact number_before h.tail later more
  split
  · exact word_before later more
  · exact operator_before later more

end Cut

namespace TokenStream

def outcomeRelined (g : Nat → Nat) : Except Error Token → Except Error Token
  | .ok t => .ok (t.relined g)
  | .error e => .error (e.relined g)

variable (g : Nat → Nat) (outcomes : List (Except Error Token))

theorem tokensOf_relined :
    tokensOf (outcomes.map (outcomeRelined g)) = (tokensOf outcomes).map (Token.relined g) := by
  induction outcomes with
  | nil => rfl
  | cons outcome rest ih => cases outcome <;> simp_all [tokensOf, outcomeRelined]

theorem errorsOf_relined :
    errorsOf (outcomes.map (outcomeRelined g)) = (errorsOf outcomes).map (Error.relined g) := by
  induction outcomes with
  | nil => rfl
  | cons outcome rest ih => cases outcome <;> simp_all [errorsOf, outcomeRelined]

end TokenStream

theorem Cut.outcome_relined (g : Nat → Nat) (cut : Cut) (line : Nat) :
    cut.outcome (g line) = (cut.outcome line).map (TokenStream.outcomeRelined g) := by
  unfold outcome
  split <;> rfl

namespace Scans

variable {line last lines : Nat} {text : List Char} {outcomes : List (Except Error Token)}

theorem last_eq (h : Scans line text outcomes last) : last = line + text.count '\n' := by
  induction h with
  | done => rfl
  | @piece line last c cs outcomes more ih =>
    rw [ih, Cut.lineAfter_first, ← Cut.first_whole c cs, List.count_append, Nat.add_assoc]

theorem later (h : Scans line text outcomes last) (lines : Nat) :
    Scans (line + lines) text (outcomes.map (TokenStream.outcomeRelined (· + lines)))
      (last + lines) := by
  induction h with
  | done line => exact .done (line + lines)
  | @piece line last c cs outcomes more ih =>
    have moved : (Cut.first c cs).lineAfter (line + lines) =
        (Cut.first c cs).lineAfter line + lines := Nat.add_right_comm ..
    rw [List.map_append, ← Option.toList_map, ← Cut.outcome_relined, ← moved]
    rw [← moved] at ih
    exact .piece ih

theorem append {text' : List Char} {outcomes' : List (Except Error Token)} {last' : Nat}
    (h : Scans line text outcomes last) (ends : EndsLine text)
    (clean : TokenStream.errorsOf outcomes = []) (h' : Scans last text' outcomes' last') :
    Scans line (text ++ text') (outcomes ++ outcomes') last' := by
  induction h with
  | done => exact h'
  | @piece line last c cs outcomes more ih =>
    rw [TokenStream.errorsOf_append, List.append_eq_nil_iff] at clean
    have closed : (Cut.first c cs).piece ≠ .unterminated := by
      intro same
      simp [Cut.outcome, same, TokenStream.errorsOf] at clean
    have same := Cut.first_before ends closed text'
    have ends' : EndsLine (Cut.first c cs).rest := by
      rw [← Cut.first_whole c cs] at ends
      exact ends.of_suffix
    have both := ih ends' clean.2 h'
    have outcome :
        (Cut.first c (cs ++ text')).outcome ((Cut.first c (cs ++ text')).lineAfter line) =
        (Cut.first c cs).outcome ((Cut.first c cs).lineAfter line) := by
      rw [same]
      rfl
    have more' : Scans ((Cut.first c (cs ++ text')).lineAfter line)
        (Cut.first c (cs ++ text')).rest (outcomes ++ outcomes') last' := by
      rw [same]
      exact both
    rw [List.append_assoc, ← outcome]
    exact .piece more'

end Scans

end Blockscript

import Blockscript.Proofs.Numbers.Numerals
import Blockscript.Proofs.Sessions.Layout

/-!
The text of a number as a program. Between `print` and a semicolon it is read as the number again,
bit for bit, and is printed as it stood there.
-/
namespace Blockscript

open Double (Numeral magnitudeText ofDigits ofIndex infinityIndex significant)

variable {x : Double} {text whole fraction : List Char}

namespace Cut

theorem numeral_alone (numeral : Numeral text whole fraction) {more : List Char} (ends : Ends more) :
    Alone text more (.number (ofDigits whole fraction)) := by
  rw [← numeral.ofNumeral]
  cases numeral with
  | whole some known => exact digits_alone some known ends
  | point some known some' known' => exact decimal_alone some known some' known' ends

end Cut

def numberFaces (x : Double) : List (Kind × String) :=
  (if x.isNegative then [(.minus, "-")] else []) ++
    [(.number x.magnitude, String.ofList (magnitudeText x.index))]

namespace Gives

variable {kind : Kind} {more : List Char} {faces : List (Kind × String)}

theorem number (finite : x.isFinite = true) (ends : Cut.Ends more) (h : Gives more faces) :
    Gives (x.text.toList ++ more) (numberFaces x ++ faces) := by
  obtain ⟨whole, fraction, numeral, reads⟩ := Double.magnitudeText_reads (of_decide_eq_true finite)
  have literal := behind_alone (Cut.numeral_alone numeral ends) h
  rw [reads] at literal
  rw [Double.text_eq (Nat.le_of_lt (of_decide_eq_true finite))]
  unfold numberFaces Double.magnitude
  generalize magnitudeText x.index = digits at literal ⊢
  cases x.isNegative with
  | true =>
    have sign : Cut.first '-' (digits ++ more) = ⟨.token .minus, ['-'], digits ++ more, 0⟩ := rfl
    have both := take sign literal
    simpa using both
  | false => simpa using literal

theorem print_number (finite : x.isFinite = true) : Gives ("print " ++ x.text ++ ";").toList
    ((.printWord, "print") :: (numberFaces x ++ [(.semicolon, ";")])) := by
  have stop : Gives [';'] [(.semicolon, ";")] := take (rfl : Cut.first ';' [] = _) nil
  have ends : Cut.Ends [';'] := by
    rintro c ⟨rfl⟩
    decide
  have value := skip (@Cut.first_blank ' ' _ (by decide)) (number finite ends stop)
  have blanked : Blanked (' ' :: (x.text.toList ++ [';'])) := by
    rintro c ⟨rfl⟩
    decide
  have kind : wordKind "print" = .printWord := by decide
  have word := behind_lexeme
    (@Lexeme.word 'p' ['r', 'i', 'n', 't'] rfl (by simp)) blanked value
  simpa [String.toList_append, kind] using word

end Gives

open Grammar

theorem derives_of_unary {ts : List Token} {e : Expr} (h : Derives .unary ts e) :
    Derives .assignment ts e := by
  repeat first
    | exact h
    | apply Derives.looser (by decide)

theorem neg_magnitude (negative : x.isNegative = true) : -x.magnitude = x := by
  have small : x.index < Nat.pow 2 63 := x.index_lt
  rw [Double.magnitude, Double.neg_ofIndex small, Bool.not_false, ← negative]
  exact Double.ofIndex_index x

theorem number_derives {ts : List Token} (faces : ts.map Token.face = numberFaces x) :
    ∃ e, Whole ts e ∧ ∀ scopes, e.evaluate scopes = .ok (.number x) scopes := by
  have literal : ∀ t : Token, t.face = (.number x.magnitude, String.ofList (magnitudeText x.index)) →
      Derives .unary [t] (.literal (.number x.magnitude)) := by
    intro t face
    have kind : t.kind = .number x.magnitude := congrArg Prod.fst face
    exact .looser (by decide) (.literal (by rw [kind]; rfl))
  unfold numberFaces at faces
  cases negative : x.isNegative with
  | true =>
    rw [negative, if_pos rfl] at faces
    obtain ⟨op, rest, rfl, sign, faces⟩ := List.map_eq_cons_iff.mp faces
    obtain ⟨t, rfl, face⟩ := List.map_eq_singleton_iff.mp faces
    have minus : op.kind = .minus := congrArg Prod.fst sign
    have value : (Value.number x.magnitude).unary op = .ok (.number x) := by
      simp only [Value.unary, minus, neg_magnitude negative]
    refine ⟨.unary op (.literal (.number x.magnitude)), ⟨?_, by simp [Expr.nesting]⟩, ?_⟩
    · exact derives_of_unary (.unary (by simp [minus]) (literal t face))
    · intro scopes
      change Evaluation.ofExcept ((Value.number x.magnitude).unary op) scopes = _
      rw [value]
      rfl
  | false =>
    rw [negative, if_neg (by decide), List.nil_append] at faces
    obtain ⟨t, rfl, face⟩ := List.map_eq_singleton_iff.mp faces
    refine ⟨.literal (.number x.magnitude), ⟨derives_of_unary (literal t face), ?_⟩, ?_⟩
    · simp [Expr.nesting]
    · intro scopes
      rw [Double.magnitude, ← negative, Double.ofIndex_index]
      rfl

theorem print_number_compiles (finite : x.isFinite = true) :
    ∃ e last tokens, Compiles ("print " ++ x.text ++ ";") last tokens [.print e] ∧
      tokens.map Token.face = (.printWord, "print") :: (numberFaces x ++ [(.semicolon, ";")]) ∧
      ∀ scopes, e.evaluate scopes = .ok (.number x) scopes := by
  obtain ⟨outcomes, last, scans, clean, faces⟩ := Gives.print_number finite 1
  generalize scanned : TokenStream.tokensOf outcomes = tokens at faces
  obtain ⟨word, rest, rfl, print, faces'⟩ := List.map_eq_cons_iff.mp faces
  obtain ⟨ts, stops, rfl, number, stop⟩ := List.map_eq_append_iff.mp faces'
  obtain ⟨t, rfl, semicolon⟩ := List.map_eq_singleton_iff.mp stop
  obtain ⟨e, value, evaluates⟩ := number_derives number
  have starts : word.kind = .printWord := congrArg Prod.fst print
  have ends : t.kind = .semicolon := congrArg Prod.fst semicolon
  have derived : Declarations (word :: (ts ++ [t]) ++ []) [.print e] :=
    .cons (.statement (.simple (.print starts value ends))) .nil
  rw [List.append_nil] at derived
  exact ⟨e, last, _, ⟨⟨outcomes, scans, clean, scanned⟩, derived⟩, faces, evaluates⟩

namespace Session

theorem execute_print {e : Expr} {v : Value} (evaluates : ∀ scopes, e.evaluate scopes = .ok v scopes)
    (fuel : Nat) : (start none).execute fuel [.print e] =
      some ⟨⟨.global, ⟨(v.text ++ "\n").toUTF8, none⟩⟩, .empty⟩ := by
  have wrote : Stmt.executeAll fuel [.print e] (.start none) =
      .ok () ⟨.global, ⟨.empty ++ (v.text ++ "\n").toUTF8, none⟩⟩ := by
    simp only [Stmt.executeAll, Stmt.execute, Bind.bind, EStateM.bind, Execution.value, evaluates]
    rfl
  unfold execute
  have machine : (start none).machine = .start none := rfl
  rw [machine, wrote, ByteArray.empty_append]
  rfl

open TokenStream (tokensIn)

/-- The text of a finite number is a program for that number. It is read as one literal, with a minus
    in front of it if the number is negative; the value is the number bit for bit, and is printed
    as it stood in the source. The text is canonical, and literals are read correctly rounded. -/
theorem run_print_number (finite : x.isFinite = true) :
    let source := "print " ++ x.text ++ ";"
    (tokensIn source).map Token.face =
      (.printWord, "print") :: (numberFaces x ++ [(.semicolon, ";"), (.endOfFile, "")]) ∧
    (∃ e, (start none).parse source = ([.print e], start none) ∧
      ∀ scopes, e.evaluate scopes = .ok (.number x) scopes) ∧
    (∀ fuel, (start none).run fuel source =
      some ⟨⟨.global, ⟨(x.text ++ "\n").toUTF8, none⟩⟩, .empty⟩) ∧
    x.Canonical ∧
    ∀ whole fraction, Double.Nearest
      (Double.digitsValue (whole ++ fraction) * Nat.pow 2 1074) (Nat.pow 10 fraction.length)
      (ofDigits whole fraction).index := by
  intro source
  obtain ⟨e, last, tokens, compiles, faces, evaluates⟩ := print_number_compiles finite
  have parse := compiles.parse (start none)
  refine ⟨?_, ⟨e, parse, evaluates⟩, ?_, Double.canonical finite, Double.ofDigits_rounds⟩
  · rw [compiles.tokensIn, List.map_append, faces]
    simp [Token.face]
  · intro fuel
    have quiet : (start none).diagnostics.hadError = false := rfl
    simp only [run, source, parse, quiet, Bool.false_eq_true, ↓reduceIte]
    exact execute_print evaluates fuel

theorem run_print_number_half : (⟨0xBFE0000000000000⟩ : Double).isFinite = true ∧
    ∀ fuel, (start none).run fuel "print -0.5;" =
      some ⟨⟨.global, ⟨"-0.5\n".toUTF8, none⟩⟩, .empty⟩ := by
  have finite : (⟨0xBFE0000000000000⟩ : Double).isFinite = true := by decide
  have text : (⟨0xBFE0000000000000⟩ : Double).text = "-0.5" := by decide +kernel
  have runs := (run_print_number finite).2.2.1
  rw [text] at runs
  exact ⟨finite, runs⟩

end Session

end Blockscript

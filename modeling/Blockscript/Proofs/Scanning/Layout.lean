import Blockscript.Proofs.Scanning.Lexemes
import Blockscript.Proofs.Scanning.Seam

/-!
Layout between lexemes. A lexeme in front of a blank is cut off alone, as the token it was
elsewhere, and what separates two lexemes gives nothing.
-/
namespace Blockscript

inductive Layout : List Char → Prop where
  | nil : Layout []
  | blank {c : Char} {more : List Char} (known : c ∈ [' ', '\t', '\r', '\n'])
      (rest : Layout more) : Layout (c :: more)
  | comment {body more : List Char} (line : '\n' ∉ body) (rest : Layout more) :
      Layout ('/' :: '/' :: (body ++ '\n' :: more))

def Blanked (text : List Char) : Prop := ∀ c ∈ text.head?, c ∈ [' ', '\t', '\r', '\n']

/-- Layout that keeps apart what stands around it. -/
structure Separates (gap : List Char) : Prop where
  layout : Layout gap
  some : gap ≠ []
  blanked : Blanked gap

/-- A source from its first lexeme on: the lexemes in order, kept apart. Nothing need be
    behind the last one. -/
inductive Laid : List String → List Char → Prop where
  | nil : Laid [] []
  | last (lexeme : String) : Laid [lexeme] lexeme.toList
  | cons {lexeme : String} {lexemes : List String} {gap rest : List Char} (apart : Separates gap)
      (more : Laid lexemes rest) : Laid (lexeme :: lexemes) (lexeme.toList ++ gap ++ rest)

def LaidOut (lexemes : List String) (source : String) : Prop :=
  ∃ before text, Layout before ∧ Laid lexemes text ∧ source.toList = before ++ text

namespace Blanked

variable {text : List Char}

theorem stops {p : Char → Bool} (h : Blanked text)
    (other : ∀ c ∈ [' ', '\t', '\r', '\n'], p c = false) : ∀ c ∈ text.head?, p c = false :=
  fun c next => other c (h c next)

end Blanked

namespace Cut

variable {c : Char} {cs text more : List Char} {kind : Kind}

/-- The text is cut off whole, as a token of the kind, with `more` behind it. -/
def Alone (text more : List Char) (kind : Kind) : Prop :=
  ∃ c cs lines, text ++ more = c :: cs ∧ first c cs = ⟨.token kind, text, more, lines⟩

theorem pair_alone (blanked : Blanked more) (kind lengthened : Kind) :
    pair kind lengthened c more = ⟨.token kind, [c], more, 0⟩ := by
  unfold pair
  split
  · have blank := blanked '=' rfl
    simp at blank
  · rfl

theorem slash_alone (blanked : Blanked more) : slash more = ⟨.token .slash, ['/'], more, 0⟩ := by
  unfold slash
  split
  · have blank := blanked '/' rfl
    simp at blank
  · rfl

theorem operator_alone (listed : (text, kind) ∈ operatorKinds) (blanked : Blanked more) :
    Alone text more kind := by
  cases operator_form listed with
  | alone cuts => exact ⟨_, more, 0, rfl, cuts more⟩
  | short cuts => exact ⟨_, more, 0, rfl, (cuts more).trans (pair_alone blanked _ _)⟩
  | long cuts => exact ⟨_, '=' :: more, 0, rfl, cuts _⟩
  | slash => exact ⟨'/', more, 0, rfl, slash_alone blanked⟩

theorem string_alone {contents : List Char} (inner : '"' ∉ contents) (more : List Char) :
    Alone ('"' :: (contents ++ ['"'])) more (.string (String.ofList contents)) :=
  ⟨'"', contents ++ '"' :: more, _, by simp, first_string inner more⟩

theorem blank_not_digit : ∀ c ∈ [' ', '\t', '\r', '\n'], c.isDigit = false := by simp

theorem blank_not_alphanum : ∀ c ∈ [' ', '\t', '\r', '\n'], c.isAlphanum = false := by simp

def Ends (more : List Char) : Prop := ∀ c ∈ more.head?, c.isDigit = false ∧ c ≠ '.'

theorem Ends.stops (h : Ends more) : ∀ c ∈ more.head?, c.isDigit = false := fun c next => (h c next).1

theorem ends_of_blanked (blanked : Blanked more) : Ends more := by
  intro c next
  refine ⟨blanked.stops blank_not_digit c next, ?_⟩
  rintro rfl
  exact absurd (blanked '.' next) (by decide)

theorem digits_alone {digits : List Char} (some : digits ≠ []) (known : ∀ c ∈ digits, c.isDigit)
    (ends : Ends more) : Alone digits more (.number (.ofNumeral digits)) := by
  cases digits with
  | nil => exact absurd rfl some
  | cons d ds =>
    have digit : d.isDigit := known d List.mem_cons_self
    obtain ⟨run, left⟩ := takeWhile_run (fun e member => known e (List.mem_cons_of_mem d member))
      more ends.stops
    refine ⟨d, ds ++ more, 0, rfl, ?_⟩
    rw [first_digit digit]
    rcases number_cases digit with ⟨e, after, found, _, _⟩ | ⟨_, cut⟩
    · rw [left] at found
      exact absurd rfl (ends '.' (by rw [found]; rfl)).2
    · rw [cut, run, left]

theorem decimal_alone {whole fraction : List Char} (some : whole ≠ [])
    (known : ∀ c ∈ whole, c.isDigit) (some' : fraction ≠ []) (known' : ∀ c ∈ fraction, c.isDigit)
    (ends : Ends more) :
    Alone (whole ++ '.' :: fraction) more (.number (.ofNumeral (whole ++ '.' :: fraction))) := by
  cases whole with
  | nil => exact absurd rfl some
  | cons d ds =>
    cases fraction with
    | nil => exact absurd rfl some'
    | cons f fs =>
      obtain ⟨run, left⟩ := takeWhile_run known' more ends.stops
      refine ⟨d, ds ++ '.' :: f :: (fs ++ more), 0, by simp, ?_⟩
      rw [first_decimal known (known' f List.mem_cons_self), ← List.cons_append, run, left]

theorem word_alone {first : Char} {others : List Char} (letter : first.isAlpha)
    (known : ∀ c ∈ others, c.isAlphanum) (blanked : Blanked more) :
    Alone (first :: others) more (wordKind (String.ofList (first :: others))) := by
  obtain ⟨run, left⟩ := takeWhile_run known more (blanked.stops blank_not_alphanum)
  refine ⟨first, others ++ more, 0, rfl, ?_⟩
  rw [first_letter letter, word, run, left]

theorem lexeme_alone (lexeme : Lexeme text kind) (blanked : Blanked more) :
    Alone text more kind := by
  cases lexeme with
  | operator listed => exact operator_alone listed blanked
  | string inner => exact string_alone inner more
  | whole some known => exact digits_alone some known (ends_of_blanked blanked)
  | decimal some known some' known' => exact decimal_alone some known some' known' (ends_of_blanked blanked)
  | word letter known => exact word_alone letter known blanked

end Cut

namespace TokenStream

def tokensIn (source : String) : List Token := (ofSource source).scan.1.1

def errorsIn (source : String) : List Error := (ofSource source).scan.1.2

def lexemesIn (source : String) : List String := (tokensIn source).dropLast.map (·.lexeme)

end TokenStream

def Token.face (t : Token) : Kind × String := (t.kind, t.lexeme)

/-- From whatever line on, the text is scanned without errors, and its tokens are these. -/
def Gives (text : List Char) (faces : List (Kind × String)) : Prop :=
  ∀ line, ∃ outcomes last, Scans line text outcomes last ∧
    TokenStream.errorsOf outcomes = [] ∧ (TokenStream.tokensOf outcomes).map Token.face = faces

namespace Gives

variable {c : Char} {cs text gap rest : List Char} {lines : Nat} {kind : Kind}
  {faces : List (Kind × String)}

theorem nil : Gives [] [] := fun line => ⟨[], line, .done line, rfl, rfl⟩

theorem skip (cut : Cut.first c cs = ⟨.layout, text, rest, lines⟩) (h : Gives rest faces) :
    Gives (c :: cs) faces := by
  intro line
  obtain ⟨outcomes, last, scans, none, tokens⟩ := h ((Cut.first c cs).lineAfter line)
  have more := @Scans.piece line last c cs outcomes (by rw [cut] at scans ⊢; exact scans)
  refine ⟨_, last, more, ?_, ?_⟩
  · rw [cut]
    exact none
  · rw [cut]
    exact tokens

theorem take (cut : Cut.first c cs = ⟨.token kind, text, rest, lines⟩) (h : Gives rest faces) :
    Gives (c :: cs) ((kind, String.ofList text) :: faces) := by
  intro line
  obtain ⟨outcomes, last, scans, none, tokens⟩ := h ((Cut.first c cs).lineAfter line)
  have more := @Scans.piece line last c cs outcomes (by rw [cut] at scans ⊢; exact scans)
  refine ⟨_, last, more, ?_, ?_⟩
  · rw [cut]
    exact none
  · rw [cut, ← tokens]
    rfl

theorem behind_layout (layout : Layout gap) (h : Gives rest faces) : Gives (gap ++ rest) faces := by
  induction layout with
  | nil => exact h
  | blank known _ ih => exact skip (Cut.first_blank known) ih
  | @comment body more line _ ih =>
    have ends : ∀ d ∈ ('\n' :: (more ++ rest)).head?, (d != '\n') = false := by simp
    obtain ⟨run, left⟩ := takeWhile_run (ne_of_not_mem line) _ ends
    have newline : Gives ('\n' :: (more ++ rest)) faces :=
      skip (Cut.first_blank (by decide)) ih
    have cut : Cut.first '/' ('/' :: (body ++ '\n' :: (more ++ rest))) =
        ⟨.layout, '/' :: '/' :: body, '\n' :: (more ++ rest), 0⟩ := by
      rw [Cut.first_slash, Cut.slash, run, left]
    rw [List.cons_append, List.cons_append, List.append_assoc, List.cons_append]
    exact skip cut newline

theorem behind_alone (alone : Cut.Alone text rest kind) (h : Gives rest faces) :
    Gives (text ++ rest) ((kind, String.ofList text) :: faces) := by
  obtain ⟨c, cs, _, whole, cut⟩ := alone
  rw [whole]
  exact take cut h

theorem behind_lexeme (lexeme : Lexeme text kind) (blanked : Blanked rest) (h : Gives rest faces) :
    Gives (text ++ rest) ((kind, String.ofList text) :: faces) :=
  behind_alone (Cut.lexeme_alone lexeme blanked) h

theorem of_laid {ts : List Token} (known : ∀ t ∈ ts, Lexeme t.lexeme.toList t.kind)
    (laid : Laid (ts.map (·.lexeme)) text) : Gives text (ts.map Token.face) := by
  generalize same : ts.map (·.lexeme) = lexemes at laid
  induction laid generalizing ts with
  | nil =>
    rw [List.map_eq_nil_iff.mp same]
    exact nil
  | last lexeme =>
    obtain ⟨t, rfl, rfl⟩ := List.map_eq_singleton_iff.mp same
    have ends : Blanked [] := by simp [Blanked]
    have alone := behind_lexeme (known t (by simp)) ends nil
    simpa [Token.face] using alone
  | @cons lexeme lexemes gap rest apart more ih =>
    obtain ⟨t, us, rfl, rfl, rfl⟩ := List.map_eq_cons_iff.mp same
    have blanked : Blanked (gap ++ rest) := by
      intro c next
      cases gap with
      | nil => exact absurd rfl apart.some
      | cons d ds => exact apart.blanked c next
    have later := ih (fun u member => known u (List.mem_cons_of_mem t member)) rfl
    have whole := behind_lexeme (known t (by simp)) blanked (behind_layout apart.layout later)
    rw [List.append_assoc]
    simpa [Token.face] using whole

end Gives

theorem Cut.outcome_lexeme {c : Char} {cs : List Char} {line : Nat} {t : Token}
    (h : (first c cs).outcome line = some (.ok t)) : Lexeme t.lexeme.toList t.kind := by
  unfold outcome at h
  split at h
  · rename_i kind same
    cases h
    rw [String.toList_ofList]
    rcases first_fits c cs with fits | cut
    · rw [same] at fits
      cases fits with
      | token lexeme front => exact lexeme
    · rw [cut] at same
      cases same
  all_goals cases h

theorem Scans.lexemes {line last : Nat} {text : List Char} {outcomes : List (Except Error Token)}
    (h : Scans line text outcomes last) :
    ∀ t ∈ TokenStream.tokensOf outcomes, Lexeme t.lexeme.toList t.kind := by
  intro t member
  obtain ⟨c, cs, line, found⟩ := h.of_mem (TokenStream.mem_tokensOf.mp member)
  exact Cut.outcome_lexeme found

/-- The lexemes of a source, laid out anew, are its tokens again but for lines, without errors. -/
theorem TokenStream.scan_laidOut {source source' : String}
    (laid : LaidOut (lexemesIn source) source') :
    (tokensIn source').map Token.face = (tokensIn source).map Token.face ∧
      errorsIn source' = [] := by
  obtain ⟨outcomes, last, scans⟩ := Scans.total 1 source.toList
  rw [lexemesIn, tokensIn, scans.scan, List.dropLast_concat] at laid
  obtain ⟨before, text, front, made, whole⟩ := laid
  have gives := (Gives.of_laid scans.lexemes made).behind_layout front
  rw [← whole] at gives
  obtain ⟨outcomes', last', scans', clean, faces⟩ := gives 1
  have ends : Token.face ⟨.endOfFile, "", last'⟩ = Token.face ⟨.endOfFile, "", last⟩ := rfl
  rw [tokensIn, tokensIn, errorsIn, scans.scan, scans'.scan]
  refine ⟨?_, clean⟩
  simp only [List.map_append, List.map_cons, List.map_nil, faces, ends]

end Blockscript

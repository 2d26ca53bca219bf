import Blockscript.Proofs.Numbers.Spelled
import Blockscript.Token.Cut

/-!
What may stand at the front of a source, told by the shape of the text alone. Whatever fits
there is within the piece that the scanner cuts off, and that piece fits, unless nothing does.
-/
namespace Blockscript

def operatorKinds : List (List Char × Kind) :=
  [(['('], .leftParen), ([')'], .rightParen), (['{'], .leftBrace), (['}'], .rightBrace),
   ([','], .comma), (['.'], .dot), (['-'], .minus), (['+'], .plus), ([';'], .semicolon),
   (['*'], .star), (['/'], .slash), (['!'], .bang), (['!', '='], .bangEqual), (['='], .equal),
   (['=', '='], .equalEqual), (['>'], .greater), (['>', '='], .greaterEqual), (['<'], .less),
   (['<', '='], .lessEqual)]

inductive Lexeme : List Char → Kind → Prop where
  | operator {text : List Char} {kind : Kind} (listed : (text, kind) ∈ operatorKinds) :
      Lexeme text kind
  | string {contents : List Char} (inner : '"' ∉ contents) :
      Lexeme ('"' :: (contents ++ ['"'])) (.string (String.ofList contents))
  | whole {digits : List Char} (some : digits ≠ []) (known : ∀ c ∈ digits, c.isDigit) :
      Lexeme digits (.number (.ofNumeral digits))
  | decimal {whole fraction : List Char} (some : whole ≠ []) (known : ∀ c ∈ whole, c.isDigit)
      (some' : fraction ≠ []) (known' : ∀ c ∈ fraction, c.isDigit) :
      Lexeme (whole ++ '.' :: fraction) (.number (.ofNumeral (whole ++ '.' :: fraction)))
  | word {first : Char} {others : List Char} (letter : first.isAlpha)
      (known : ∀ c ∈ others, c.isAlphanum) :
      Lexeme (first :: others) (wordKind (String.ofList (first :: others)))

inductive Fits (source : List Char) : Piece → List Char → Prop where
  | token {text : List Char} {kind : Kind} (lexeme : Lexeme text kind) (front : text <+: source) :
      Fits source (.token kind) text
  | blank {c : Char} (known : c ∈ [' ', '\t', '\r', '\n']) (front : [c] <+: source) :
      Fits source .layout [c]
  | comment {body : List Char} (line : '\n' ∉ body) (front : '/' :: '/' :: body <+: source) :
      Fits source .layout ('/' :: '/' :: body)
  | unterminated {contents : List Char} (unclosed : '"' ∉ contents)
      (whole : source = '"' :: contents) : Fits source .unterminated source

theorem Lexeme.ne_nil {text : List Char} {kind : Kind} (h : Lexeme text kind) : text ≠ [] := by
  cases h with
  | operator listed =>
    rintro rfl
    revert listed
    simp [operatorKinds]
  | string inner => exact List.cons_ne_nil _ _
  | whole some known => exact some
  | decimal some known some' known' => exact List.append_ne_nil_of_left_ne_nil some _
  | word letter known => exact List.cons_ne_nil _ _

namespace Fits

variable {source text : List Char} {piece : Piece}

theorem ne_nil (h : Fits source piece text) : text ≠ [] := by
  cases h with
  | token lexeme front => exact lexeme.ne_nil
  | blank known front => exact List.cons_ne_nil _ _
  | comment line front => exact List.cons_ne_nil _ _
  | unterminated unclosed whole => rw [whole]; exact List.cons_ne_nil _ _

theorem front (h : Fits source piece text) : text <+: source := by
  cases h with
  | token lexeme front => exact front
  | blank known front => exact front
  | comment line front => exact front
  | unterminated unclosed whole => exact List.prefix_refl _

theorem expected (h : Fits source piece text) (c : Char) : piece ≠ .unexpected c := by
  cases h <;> exact Piece.noConfusion

theorem spelt (h : Fits source piece text) : piece ≠ .notNumber := by
  cases h <;> exact Piece.noConfusion

end Fits

namespace Cut

variable {c : Char} {cs text : List Char} {piece : Piece} {kind : Kind}

theorem isBlank_iff : isBlank c = true ↔ c ∈ [' ', '\t', '\r', '\n'] := by
  simp [isBlank, or_assoc]

theorem first_blank (known : c ∈ [' ', '\t', '\r', '\n']) :
    first c cs = ⟨.layout, [c], cs, if c = '\n' then 1 else 0⟩ := by
  simp only [first, isBlank_iff.mpr known, ↓reduceIte]

theorem first_slash (cs : List Char) : first '/' cs = slash cs := rfl

theorem first_quote (cs : List Char) : first '"' cs = quote cs := rfl

theorem marks_of_alphanum (known : c.isAlphanum) : isBlank c = false ∧ c ≠ '/' ∧ c ≠ '"' := by
  have other : ∀ d, d.isAlphanum = false → c ≠ d := by
    rintro d plain rfl
    simp [plain] at known
  refine ⟨?_, other '/' rfl, other '"' rfl⟩
  simp only [isBlank, Bool.or_eq_false_iff, beq_eq_false_iff_ne]
  exact ⟨⟨⟨other ' ' rfl, other '\t' rfl⟩, other '\r' rfl⟩, other '\n' rfl⟩

theorem first_digit (digit : c.isDigit) : first c cs = number c cs := by
  have known : c.isAlphanum := by simp [Char.isAlphanum, digit]
  obtain ⟨blank, slash, quote⟩ := marks_of_alphanum known
  simp only [first, blank, slash, quote, digit, ↓reduceIte, Bool.false_eq_true]

theorem not_digit_of_letter (letter : c.isAlpha) : c.isDigit = false := by
  have above : '9'.val < c.val := by
    rcases (Bool.or_eq_true _ _).mp letter with upper | lower
    · have bounds : 'A'.val ≤ c.val ∧ c.val ≤ 'Z'.val := of_decide_eq_true upper
      exact Std.lt_of_lt_of_le (by decide) bounds.1
    · have bounds := (Bool.and_eq_true _ _).mp lower
      exact Std.lt_of_lt_of_le (by decide) (of_decide_eq_true bounds.1)
  rw [Bool.eq_false_iff]
  intro digit
  have bounds := (Bool.and_eq_true _ _).mp digit
  exact Std.not_lt.mpr (of_decide_eq_true bounds.2) above

theorem first_letter (letter : c.isAlpha) : first c cs = word c cs := by
  have known : c.isAlphanum := by simp [Char.isAlphanum, letter]
  obtain ⟨blank, slash, quote⟩ := marks_of_alphanum known
  simp only [first, blank, slash, quote, not_digit_of_letter letter, letter, ↓reduceIte,
    Bool.false_eq_true]

/-- The text is within the piece; if it is all of it, the sorts are the same. -/
def Bounds (cut : Cut) (piece : Piece) (text : List Char) : Prop :=
  text <+: cut.text ∧ (text = cut.text → piece = cut.piece)

theorem bounds_self (cut : Cut) : cut.Bounds cut.piece cut.text :=
  ⟨List.prefix_refl _, fun _ => rfl⟩

inductive OperatorForm : List Char → Kind → Prop where
  | alone {c : Char} {kind : Kind} (cuts : ∀ rest, first c rest = ⟨.token kind, [c], rest, 0⟩) :
      OperatorForm [c] kind
  | short {c : Char} {kind lengthened : Kind}
      (cuts : ∀ rest, first c rest = pair kind lengthened c rest) : OperatorForm [c] kind
  | long {c : Char} {alone kind : Kind}
      (cuts : ∀ rest, first c rest = pair alone kind c rest) : OperatorForm [c, '='] kind
  | slash : OperatorForm ['/'] .slash

theorem operator_form (listed : (text, kind) ∈ operatorKinds) : OperatorForm text kind := by
  unfold operatorKinds at listed
  repeat' obtain _ | ⟨_, listed⟩ := listed
  all_goals first
    | exact .alone fun _ => rfl
    | exact .short fun _ => rfl
    | exact .long fun _ => rfl
    | exact .slash

theorem pair_bounds (alone lengthened : Kind) (c : Char) (cs : List Char) :
    (pair alone lengthened c cs).Bounds (.token alone) [c] := by
  unfold pair
  split
  · exact ⟨⟨['='], rfl⟩, fun same => by simp at same⟩
  · exact bounds_self _

theorem slash_bounds (cs : List Char) : (slash cs).Bounds (.token .slash) ['/'] := by
  unfold slash
  split
  · exact ⟨⟨_, rfl⟩, fun same => by simp at same⟩
  · exact bounds_self _

theorem operator_bounds (listed : (text, kind) ∈ operatorKinds) (front : text <+: c :: cs) :
    (first c cs).Bounds (.token kind) text := by
  obtain ⟨rest, whole⟩ := front
  cases operator_form listed with
  | alone cuts =>
    obtain ⟨rfl, rfl⟩ := List.cons.inj whole
    rw [cuts]
    exact bounds_self _
  | short cuts =>
    obtain ⟨rfl, rfl⟩ := List.cons.inj whole
    rw [cuts]
    exact pair_bounds _ _ _ _
  | long cuts =>
    obtain ⟨rfl, rfl⟩ := List.cons.inj whole
    rw [cuts]
    exact bounds_self _
  | slash =>
    obtain ⟨rfl, rfl⟩ := List.cons.inj whole
    rw [first_slash]
    exact slash_bounds _

theorem first_string {contents : List Char} (inner : '"' ∉ contents) (rest : List Char) :
    first '"' (contents ++ '"' :: rest) =
      ⟨.token (.string (String.ofList contents)), '"' :: (contents ++ ['"']), rest,
        contents.count '\n'⟩ := by
  have ends : ∀ d ∈ ('"' :: rest).head?, (d != '"') = false := by simp
  obtain ⟨run, left⟩ := takeWhile_run (ne_of_not_mem inner) _ ends
  rw [first_quote, quote, left]
  simp only [run]

theorem string_bounds {contents : List Char} (inner : '"' ∉ contents)
    (front : '"' :: (contents ++ ['"']) <+: c :: cs) :
    (first c cs).Bounds (.token (.string (String.ofList contents))) ('"' :: (contents ++ ['"'])) := by
  obtain ⟨rest, whole⟩ := front
  rw [List.cons_append, List.append_assoc, List.singleton_append] at whole
  obtain ⟨rfl, rfl⟩ := List.cons.inj whole
  rw [first_string inner]
  exact bounds_self _

theorem digits_takeWhile (digit : c.isDigit) (cs : List Char) :
    ∀ d ∈ c :: cs.takeWhile Char.isDigit, d.isDigit := by
  intro d member
  rcases List.mem_cons.mp member with rfl | deeper
  · exact digit
  · exact all_takeWhile _ cs d deeper

theorem numeral_of_spelt {x : Double} (spelt : Double.ofText? text = some x) (rest : List Char) :
    numeral text rest = ⟨.token (.number x), text, rest, 0⟩ := by
  rw [numeral, spelt]

theorem number_cases (digit : c.isDigit) :
    (∃ d more, cs.dropWhile Char.isDigit = '.' :: d :: more ∧ d.isDigit ∧
      number c cs = ⟨.token (.number (.ofNumeral (c :: cs.takeWhile Char.isDigit ++
        '.' :: (d :: more).takeWhile Char.isDigit))),
        c :: cs.takeWhile Char.isDigit ++ '.' :: (d :: more).takeWhile Char.isDigit,
        (d :: more).dropWhile Char.isDigit, 0⟩) ∨
    ((∀ d more, cs.dropWhile Char.isDigit = '.' :: d :: more → d.isDigit = false) ∧
      number c cs = ⟨.token (.number (.ofNumeral (c :: cs.takeWhile Char.isDigit))),
        c :: cs.takeWhile Char.isDigit, cs.dropWhile Char.isDigit, 0⟩) := by
  have some := List.cons_ne_nil c (cs.takeWhile Char.isDigit)
  have known := digits_takeWhile digit cs
  have whole := Double.ofText?_whole some known
  unfold number
  split
  · rename_i d more found
    split
    · rename_i digit'
      have decimal := Double.ofText?_decimal some known (digits_takeWhile digit' more)
      refine .inl ⟨d, more, found, digit', ?_⟩
      rw [List.takeWhile_cons_of_pos digit', List.dropWhile_cons_of_pos digit']
      exact numeral_of_spelt decimal _
    · rename_i other
      refine .inr ⟨?_, by rw [found, numeral_of_spelt whole]⟩
      rintro d' more' same
      rw [found] at same
      simp only [List.cons.injEq, true_and] at same
      rw [← same.1]
      simpa using other
  · rename_i other
    refine .inr ⟨?_, numeral_of_spelt whole _⟩
    intro d more found
    exact absurd found (other d more)

theorem digits_bounds {digits : List Char} (some : digits ≠ []) (known : ∀ c ∈ digits, c.isDigit)
    (front : digits <+: c :: cs) :
    (first c cs).Bounds (.token (.number (.ofNumeral digits))) digits := by
  cases digits with
  | nil => exact absurd rfl some
  | cons d ds =>
    rw [List.cons_prefix_cons] at front
    obtain ⟨rfl, front⟩ := front
    have digit : d.isDigit := known d List.mem_cons_self
    have run := prefix_takeWhile front fun e member => known e (List.mem_cons_of_mem d member)
    rw [first_digit digit]
    rcases number_cases digit with ⟨e, more, _, _, cut⟩ | ⟨_, cut⟩
    · rw [cut]
      refine ⟨(List.prefix_cons_inj d).mpr run |>.trans (List.prefix_append _ _), ?_⟩
      intro same
      have point : '.' ∈ d :: ds := by rw [same]; simp
      exact absurd point (Double.no_point known)
    · rw [cut]
      exact ⟨(List.prefix_cons_inj d).mpr run, fun same => by rw [same]⟩

theorem first_decimal {d f : Char} {ds : List Char} (known : ∀ c ∈ d :: ds, c.isDigit)
    (digit : f.isDigit) (rest : List Char) :
    first d (ds ++ '.' :: f :: rest) =
      ⟨.token (.number (.ofNumeral (d :: ds ++ '.' :: (f :: rest).takeWhile Char.isDigit))),
        d :: ds ++ '.' :: (f :: rest).takeWhile Char.isDigit, (f :: rest).dropWhile Char.isDigit,
        0⟩ := by
  have ends : ∀ e ∈ ('.' :: f :: rest).head?, e.isDigit = false := by simp
  obtain ⟨run, left⟩ :=
    takeWhile_run (fun e member => known e (List.mem_cons_of_mem d member)) _ ends
  rw [first_digit (known d List.mem_cons_self)]
  rcases number_cases (known d List.mem_cons_self) with ⟨e, more, found, _, cut⟩ | ⟨other, _⟩
  · rw [left] at found
    obtain ⟨-, found⟩ := List.cons.inj found
    rw [cut, run, found]
  · have plain := other f rest left
    rw [digit] at plain
    cases plain

theorem decimal_bounds {digits fraction : List Char} (some : digits ≠ [])
    (known : ∀ c ∈ digits, c.isDigit) (some' : fraction ≠ []) (known' : ∀ c ∈ fraction, c.isDigit)
    (front : digits ++ '.' :: fraction <+: c :: cs) :
    (first c cs).Bounds (.token (.number (.ofNumeral (digits ++ '.' :: fraction))))
      (digits ++ '.' :: fraction) := by
  cases digits with
  | nil => exact absurd rfl some
  | cons d ds =>
    cases fraction with
    | nil => exact absurd rfl some'
    | cons f fs =>
      obtain ⟨rest, whole⟩ := front
      rw [List.append_assoc, List.cons_append, List.cons_append, List.cons_append] at whole
      obtain ⟨rfl, rfl⟩ := List.cons.inj whole
      have behind : f :: fs <+: (f :: (fs ++ rest)).takeWhile Char.isDigit :=
        prefix_takeWhile ((List.prefix_cons_inj f).mpr (List.prefix_append fs rest)) known'
      rw [first_decimal known (known' f List.mem_cons_self)]
      refine ⟨?_, fun same => by rw [same]⟩
      exact (List.prefix_append_right_inj _).mpr ((List.prefix_cons_inj '.').mpr behind)

theorem word_bounds {first : Char} {others : List Char} (letter : first.isAlpha)
    (known : ∀ c ∈ others, c.isAlphanum) (front : first :: others <+: c :: cs) :
    (Cut.first c cs).Bounds (.token (wordKind (String.ofList (first :: others))))
      (first :: others) := by
  rw [List.cons_prefix_cons] at front
  obtain ⟨rfl, front⟩ := front
  rw [first_letter letter]
  refine ⟨(List.prefix_cons_inj first).mpr (prefix_takeWhile front known), ?_⟩
  intro same
  rw [same]
  rfl

theorem lexeme_bounds (lexeme : Lexeme text kind) (front : text <+: c :: cs) :
    (first c cs).Bounds (.token kind) text := by
  cases lexeme with
  | operator listed => exact operator_bounds listed front
  | string inner => exact string_bounds inner front
  | whole some known => exact digits_bounds some known front
  | decimal some known some' known' => exact decimal_bounds some known some' known' front
  | word letter known => exact word_bounds letter known front

/-- Nothing longer than the first piece fits, and nothing of another sort is as long. -/
theorem fits_bounds (fits : Fits (c :: cs) piece text) : (first c cs).Bounds piece text := by
  cases fits with
  | token lexeme front => exact lexeme_bounds lexeme front
  | blank known front =>
    rw [List.cons_prefix_cons] at front
    obtain ⟨rfl, _⟩ := front
    rw [first_blank known]
    exact bounds_self _
  | @comment body line front =>
    rw [List.cons_prefix_cons] at front
    obtain ⟨rfl, front⟩ := front
    obtain ⟨rest, rfl⟩ := front
    have run := prefix_takeWhile (List.prefix_append body rest) (ne_of_not_mem line)
    rw [first_slash, List.cons_append, slash]
    refine ⟨?_, fun _ => rfl⟩
    exact (List.prefix_cons_inj _).mpr ((List.prefix_cons_inj _).mpr run)
  | @unterminated contents unclosed whole =>
    obtain ⟨rfl, rfl⟩ := List.cons.inj whole
    have parts := takeWhile_run (ne_of_not_mem unclosed) [] (by simp)
    rw [List.append_nil] at parts
    rw [first_quote, quote, parts.2, parts.1]
    exact bounds_self _

theorem slash_fits (cs : List Char) : Fits ('/' :: cs) (slash cs).piece (slash cs).text := by
  have front : (slash cs).text <+: '/' :: cs := ⟨_, slash_whole cs⟩
  have listed : (['/'], Kind.slash) ∈ operatorKinds := by decide
  unfold slash at front ⊢
  split at front
  · exact .comment (not_mem_takeWhile_ne '\n' _) front
  · exact .token (.operator listed) front

theorem quote_fits (cs : List Char) : Fits ('"' :: cs) (quote cs).piece (quote cs).text := by
  have front : (quote cs).text <+: '"' :: cs := ⟨_, quote_whole cs⟩
  have inner := not_mem_takeWhile_ne '"' cs
  cases found : cs.dropWhile (· != '"') with
  | nil =>
    have whole := List.takeWhile_append_dropWhile (p := (· != '"')) (l := cs)
    rw [found, List.append_nil] at whole
    rw [whole] at inner
    simp only [quote, found, whole]
    exact .unterminated inner rfl
  | cons close after =>
    have same : close = '"' := by
      have stops := List.head?_dropWhile_not (· != '"') cs
      simpa [found] using stops
    simp only [quote, found, same] at front ⊢
    exact .token (.string inner) front

theorem number_fits (digit : c.isDigit) :
    Fits (c :: cs) (number c cs).piece (number c cs).text := by
  have front : (number c cs).text <+: c :: cs := ⟨_, number_whole c cs⟩
  have known := digits_takeWhile digit cs
  rcases number_cases digit with ⟨d, more, _, digit', cut⟩ | ⟨_, cut⟩
  · rw [cut] at front ⊢
    refine .token (.decimal (List.cons_ne_nil _ _) known ?_ (all_takeWhile _ _)) front
    simp [digit']
  · rw [cut] at front ⊢
    exact .token (.whole (List.cons_ne_nil _ _) known) front

theorem word_fits (letter : c.isAlpha) : Fits (c :: cs) (word c cs).piece (word c cs).text :=
  .token (.word letter (all_takeWhile _ cs)) ⟨_, word_whole c cs⟩

theorem soleKind_listed (known : soleKind c = some kind) : ([c], kind) ∈ operatorKinds := by
  unfold soleKind at known
  split at known
  all_goals cases known
  all_goals decide

theorem pairKinds_listed {lengthened : Kind} (known : pairKinds c = some (kind, lengthened)) :
    ([c], kind) ∈ operatorKinds ∧ ([c, '='], lengthened) ∈ operatorKinds := by
  unfold pairKinds at known
  split at known
  all_goals cases known
  all_goals decide

theorem operator_fits (c : Char) (cs : List Char) :
    Fits (c :: cs) (operator c cs).piece (operator c cs).text ∨
      operator c cs = ⟨.unexpected c, [c], cs, 0⟩ := by
  have front : (operator c cs).text <+: c :: cs := ⟨_, operator_whole c cs⟩
  unfold operator at front ⊢
  split at front
  · rename_i known
    exact .inl (.token (.operator (soleKind_listed known)) front)
  · rename_i known
    obtain ⟨short, long⟩ := pairKinds_listed known
    unfold pair at front ⊢
    split at front
    · exact .inl (.token (.operator long) front)
    · exact .inl (.token (.operator short) front)
  · exact .inr rfl

theorem first_fits (c : Char) (cs : List Char) :
    Fits (c :: cs) (first c cs).piece (first c cs).text ∨
      first c cs = ⟨.unexpected c, [c], cs, 0⟩ := by
  unfold first
  split
  · rename_i blank
    exact .inl (.blank (isBlank_iff.mp blank) ⟨cs, rfl⟩)
  split
  · rename_i same
    subst same
    exact .inl (slash_fits cs)
  split
  · rename_i same
    subst same
    exact .inl (quote_fits cs)
  split
  · rename_i digit
    exact .inl (number_fits digit)
  split
  · rename_i letter
    exact .inl (word_fits letter)
  · exact operator_fits c cs

theorem nothing_fits (cut : first c cs = ⟨.unexpected c, [c], cs, 0⟩) : ¬ Fits (c :: cs) piece text := by
  intro fits
  obtain ⟨front, sort⟩ := fits_bounds fits
  rw [cut] at front sort
  have same : text = [c] := by
    rcases List.prefix_cons_iff.mp front with none | ⟨rest, whole, none⟩
    · exact absurd none fits.ne_nil
    · rw [whole, List.prefix_nil.mp none]
  exact fits.expected c (sort same)

theorem first_spelt (c : Char) (cs : List Char) : (first c cs).piece ≠ .notNumber := by
  rcases first_fits c cs with fits | cut
  · exact fits.spelt
  · rw [cut]
    exact Piece.noConfusion

theorem slash_lines (cs : List Char) : (slash cs).lines = (slash cs).text.count '\n' := by
  unfold slash
  split
  · have none := not_mem_takeWhile_ne '\n' ‹List Char›
    exact (List.count_eq_zero.mpr (by simpa using none)).symm
  · rfl

theorem quote_lines (cs : List Char) : (quote cs).lines = (quote cs).text.count '\n' := by
  unfold quote
  dsimp only
  split
  · rename_i close after found
    have stops := List.head?_dropWhile_not (· != '"') cs
    obtain rfl : close = '"' := by simpa [found] using stops
    simp
  · simp

theorem number_lines (digit : c.isDigit) :
    (number c cs).lines = (number c cs).text.count '\n' := by
  have known : '\n' ∉ c :: cs.takeWhile Char.isDigit := fun inside =>
    absurd (digits_takeWhile digit cs '\n' inside) (by decide)
  rcases number_cases digit with ⟨d, more, _, digit', cut⟩ | ⟨_, cut⟩
  · have known' : '\n' ∉ (d :: more).takeWhile Char.isDigit := fun inside =>
      absurd (all_takeWhile _ _ '\n' inside) (by decide)
    rw [cut, List.count_append, List.count_eq_zero.mpr known, List.count_cons_of_ne (by decide),
      List.count_eq_zero.mpr known']
  · rw [cut, List.count_eq_zero.mpr known]

theorem word_lines (letter : c.isAlpha) : (word c cs).lines = (word c cs).text.count '\n' := by
  refine (List.count_eq_zero.mpr ?_).symm
  intro inside
  rcases List.mem_cons.mp inside with rfl | inside
  · exact absurd letter (by decide)
  · exact absurd (all_takeWhile _ _ '\n' inside) (by decide)

theorem operator_lines (other : c ≠ '\n') :
    (operator c cs).lines = (operator c cs).text.count '\n' := by
  have none : [c].count '\n' = 0 := List.count_eq_zero.mpr (by simpa using other.symm)
  unfold operator
  split
  · exact none.symm
  · unfold pair
    split
    · exact (List.count_eq_zero.mpr (by simpa using other.symm)).symm
    · exact none.symm
  · exact none.symm

theorem first_lines (c : Char) (cs : List Char) :
    (first c cs).lines = (first c cs).text.count '\n' := by
  unfold first
  split
  · rw [List.count_singleton]
    simp
  rename_i blank
  have other : c ≠ '\n' := by
    rintro rfl
    exact blank rfl
  split
  · exact slash_lines cs
  split
  · exact quote_lines cs
  split
  · exact number_lines ‹_›
  split
  · exact word_lines ‹_›
  · exact operator_lines other

theorem lineAfter_first (c : Char) (cs : List Char) (line : Nat) :
    (first c cs).lineAfter line = line + (first c cs).text.count '\n' := by
  rw [lineAfter, first_lines]

end Cut

end Blockscript

import Blockscript.Proofs.Numbers.Numerals
import Blockscript.Proofs.Outlines.Trees
import Blockscript.Proofs.Reading.Parts
import Blockscript.Proofs.Scanning.Scans

/-!
What is read from a source is legible: its words are lexemes of their kinds, and its numbers are
those that literals can have. So the shapes of its trees are sound.
-/
namespace Blockscript

open Double (Numeral ofDigits ofIndex infinityIndex magnitudeText)

def Token.Spelt (t : Token) : Prop := Lexeme t.lexeme.toList t.kind

def Token.IsName (t : Token) : Prop := t.Spelt ∧ t.kind = .identifier

/-- No literal is negative, and none is not a number. -/
def Value.Legible : Value → Prop
  | .number x => ∃ index ≤ infinityIndex, x = ofIndex false index
  | _ => True

def binaryKinds : List Kind :=
  [.star, .slash, .minus, .plus, .greater, .greaterEqual, .less, .lessEqual, .bangEqual, .equalEqual]

def Expr.Legible : Expr → Prop
  | .literal value => value.Legible
  | .grouping inner => inner.Legible
  | .unary op operand => op.Spelt ∧ op.kind ∈ [Kind.bang, .minus] ∧ operand.Legible
  | .binary left op right =>
    op.Spelt ∧ op.kind ∈ binaryKinds ∧ left.Legible ∧ right.Legible
  | .logical left op right =>
    op.Spelt ∧ op.kind ∈ [Kind.andWord, .orWord] ∧ left.Legible ∧ right.Legible
  | .var name => name.IsName
  | .assign name value => name.IsName ∧ value.Legible

theorem Lexeme.number {text : List Char} {x : Double} (h : Lexeme text (.number x)) :
    ∃ whole fraction, Numeral text whole fraction ∧ x = ofDigits whole fraction := by
  generalize literal : Kind.number x = kind at h
  cases h with
  | operator listed =>
    subst literal
    simp [operatorKinds] at listed
  | string inner => cases literal
  | whole some known =>
    obtain rfl := Kind.number.inj literal
    exact ⟨_, [], .whole some known, Double.ofNumeral_whole known⟩
  | decimal some known some' known' =>
    obtain rfl := Kind.number.inj literal
    exact ⟨_, _, .point some known some' known', Double.ofNumeral_decimal known _⟩
  | @word first others letter known =>
    rcases Cut.wordKind_known (String.ofList (first :: others)) with name | ⟨pair, member, kind⟩
    · rw [name] at literal
      cases literal
    · have plain : ∀ pair ∈ reservedWords, pair.2.literal?.all (· ∈ [Value.nil, .bool true, .bool false]) := by
        decide
      have value := plain pair member
      rw [← kind, ← literal] at value
      simp [Kind.literal?] at value

theorem Token.Spelt.number {t : Token} {x : Double} (spelt : t.Spelt) (kind : t.kind = .number x) :
    (Value.number x).Legible := by
  unfold Spelt at spelt
  rw [kind] at spelt
  obtain ⟨whole, fraction, _, rfl⟩ := spelt.number
  exact ⟨_, Double.nearestIndex_le_infinity (Double.tens_pos _), rfl⟩

theorem Token.Spelt.literal {t : Token} {v : Value} (spelt : t.Spelt)
    (value : t.kind.literal? = some v) : v.Legible := by
  unfold Kind.literal? at value
  split at value
  · rename_i x kind
    cases value
    exact spelt.number kind
  all_goals
    cases value
    try trivial

theorem derives_legible {rank : Grammar.Rank} {ts : List Token} {e : Expr}
    (h : Grammar.Derives rank ts e) (known : ∀ t ∈ ts, t.Spelt) : e.Legible := by
  have among : ∀ {kinds kinds' : List Kind} {kind : Kind}, kinds ⊆ kinds' → kind ∈ kinds →
    kind ∈ kinds' := fun sub member => sub member
  induction h with
  | literal value => exact (known _ (by simp)).literal value
  | var name => exact ⟨known _ (by simp), name⟩
  | grouping opens inner closes ih => exact ih fun t member => known t (by simp [member])
  | unary op operand ih => exact ⟨known _ (by simp), op, ih fun t member => known t (by simp [member])⟩
  | @joined rank ls rs l r op left op' right ihl ihr =>
    have spelt : op.Spelt := known op (by simp)
    have first : l.Legible := ihl fun t member => known t (by simp [member])
    have second : r.Legible := ihr fun t member => known t (by simp [member])
    cases rank with
    | primary | unary | assignment => exact absurd op' List.not_mem_nil
    | factor | term | comparison | equality =>
      exact ⟨spelt, among (by decide) op', first, second⟩
    | conjunction | disjunction =>
      exact ⟨spelt, among (by decide) op', first, second⟩
  | assign target op value ih =>
    exact ⟨⟨known _ (by simp), target⟩, ih fun t member => known t (by simp [member])⟩
  | looser more inner ih => exact ih known

theorem ensures_legible : Grammar.Ensures Token.Spelt Expr.Legible Token.IsName where
  whole derived known := derives_legible derived.1 known
  name target known := ⟨known, target⟩
  always := trivial

theorem isMark_of_alphanum {c : Char} (known : c.isAlphanum) : (!Shape.isMark c) = true := by
  have other : ∀ d, d.isAlphanum = false → c ≠ d := by
    rintro d plain rfl
    rw [plain] at known
    cases known
  simp [Shape.isMark, other ' ' rfl, other '(' rfl, other ')' rfl, other '"' rfl]

theorem isMark_of_digit {c : Char} (digit : c.isDigit) : (!Shape.isMark c) = true :=
  isMark_of_alphanum (by simp [Char.isAlphanum, digit])

def Kind.isBare : Kind → Bool
  | .leftParen | .rightParen | .string _ => false
  | _ => true

theorem Lexeme.isWord {text : List Char} {kind : Kind} (h : Lexeme text kind)
    (bare : kind.isBare = true) : Shape.IsWord text := by
  refine ⟨h.ne_nil, ?_⟩
  cases h with
  | operator listed =>
    have words : ∀ pair ∈ operatorKinds, pair.2.isBare = true → Shape.IsWord pair.1 := by decide
    exact (words _ listed bare).plain
  | string inner => cases bare
  | whole some known => exact fun c member => isMark_of_digit (known c member)
  | decimal some known some' known' =>
    intro c member
    rcases List.mem_append.mp member with front | behind
    · exact isMark_of_digit (known c front)
    · rcases List.mem_cons.mp behind with rfl | behind
      · rfl
      · exact isMark_of_digit (known' c behind)
  | word letter known =>
    intro c member
    rcases List.mem_cons.mp member with rfl | behind
    · exact isMark_of_alphanum (by simp [Char.isAlphanum, letter])
    · exact isMark_of_alphanum (known c behind)

theorem Token.Spelt.isWord {t : Token} (spelt : t.Spelt) {kinds : List Kind} (member : t.kind ∈ kinds)
    (bare : ∀ kind ∈ kinds, kind.isBare = true) : Shape.IsWord t.lexeme.toList :=
  Lexeme.isWord spelt (bare t.kind member)

theorem Token.IsName.isWord {name : Token} (h : name.IsName) : Shape.IsWord name.lexeme.toList :=
  Lexeme.isWord h.1 (by rw [h.2]; rfl)

theorem text_ofIndex {index : Nat} (known : index ≤ infinityIndex) :
    (ofIndex false index).text = String.ofList (magnitudeText index) := by
  have small := Nat.lt_of_le_of_lt known Double.infinityIndex_lt
  have same : (ofIndex false index).index = index := Double.index_ofIndex small
  rw [Double.text_eq (by rwa [same]), Double.isNegative_ofIndex small, same]
  generalize magnitudeText index = digits
  simp

theorem Value.shape_number {index : Nat} (known : index ≤ infinityIndex) :
    (Value.number (ofIndex false index)).shape = .word (magnitudeText index) := by
  rw [shape, text, text_ofIndex known, String.toList_ofList]
  intro s same
  cases same

theorem Value.shape_sound {v : Value} (legible : v.Legible) : v.shape.Sound := by
  cases v with
  | string s => trivial
  | nil => exact (by decide : Shape.IsWord "nil".toList)
  | bool b =>
    cases b with
    | true => exact (by decide : Shape.IsWord "true".toList)
    | false => exact (by decide : Shape.IsWord "false".toList)
  | number x =>
    obtain ⟨index, known, rfl⟩ := legible
    have word : Shape.IsWord (magnitudeText index) := by
      rcases Nat.lt_or_eq_of_le known with finite | rfl
      · obtain ⟨whole, fraction, numeral, _⟩ := Double.magnitudeText_reads finite
        exact numeral.lexeme.isWord rfl
      · rw [Double.magnitudeText_infinity]
        decide
    rw [shape_number known]
    exact word

theorem Expr.shape_sound {e : Expr} (legible : e.Legible) : e.shape.Sound := by
  induction e with
  | literal value => exact value.shape_sound legible
  | grouping inner ih =>
    exact ⟨by decide, ih legible, trivial⟩
  | unary op operand ih =>
    obtain ⟨spelt, known, inner⟩ := legible
    exact ⟨spelt.isWord known (by decide), ih inner, trivial⟩
  | binary left op right ihl ihr =>
    obtain ⟨spelt, known, first, second⟩ := legible
    exact ⟨spelt.isWord known (by decide), ihl first, ihr second, trivial⟩
  | logical left op right ihl ihr =>
    obtain ⟨spelt, known, first, second⟩ := legible
    exact ⟨spelt.isWord known (by decide), ihl first, ihr second, trivial⟩
  | var name => exact legible.isWord
  | assign name value ih =>
    obtain ⟨target, inner⟩ := legible
    exact ⟨by decide, target.isWord, ih inner, trivial⟩

abbrev Stmt.Legible (s : Stmt) : Prop := s.Every Expr.Legible Token.IsName

abbrev Stmt.AllLegible (body : List Stmt) : Prop := Stmt.AllEvery Expr.Legible Token.IsName body

mutual

theorem Stmt.shape_sound : ∀ s : Stmt, s.Legible → s.shape.Sound
  | .expression e, legible => ⟨by decide, Expr.shape_sound legible, trivial⟩
  | .print e, legible => ⟨by decide, Expr.shape_sound legible, trivial⟩
  | .declare name none, legible =>
    ⟨by decide, Token.IsName.isWord legible, trivial⟩
  | .declare name (some e), ⟨target, initial⟩ =>
    ⟨by decide, target.isWord, e.shape_sound initial, trivial⟩
  | .block body, legible =>
    ⟨by decide, Stmt.shapes_sound body legible⟩
  | .branch condition accepted none, ⟨test, first⟩ =>
    ⟨by decide, condition.shape_sound test,
      Stmt.shape_sound accepted first, trivial⟩
  | .branch condition accepted (some rejected), ⟨test, first, second⟩ =>
    ⟨by decide, condition.shape_sound test,
      Stmt.shape_sound accepted first, Stmt.shape_sound rejected second, trivial⟩
  | .loop condition body, ⟨test, inner⟩ =>
    ⟨by decide, condition.shape_sound test,
      Stmt.shape_sound body inner, trivial⟩

theorem Stmt.shapes_sound : ∀ body : List Stmt, Stmt.AllLegible body →
    Shape.AllSound (Stmt.shapes body)
  | [], _ => trivial
  | s :: rest, ⟨first, more⟩ => ⟨Stmt.shape_sound s first, Stmt.shapes_sound rest more⟩

end

end Blockscript

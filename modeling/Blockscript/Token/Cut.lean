import Blockscript.Double.Spelled
import Blockscript.Error

/-!
Cutting the first piece off a source. Every piece is as long as it can be: a
token, one blank, a comment up to its line's end, a string that is never closed,
or a character that begins nothing. Nothing is lost: the text of a piece followed
by the rest is what was cut.
-/
namespace Blockscript

inductive Piece where
  | token (kind : Kind)
  | layout
  | unterminated
  | notNumber
  | unexpected (c : Char)
  deriving DecidableEq, Repr

/-- A piece with what is left behind it, and the line ends that were counted in it. -/
structure Cut where
  piece : Piece
  text : List Char
  rest : List Char
  lines : Nat

namespace Cut

def isBlank (c : Char) : Bool := c == ' ' || c == '\t' || c == '\r' || c == '\n'

def soleKind : Char → Option Kind
  | '(' => some .leftParen
  | ')' => some .rightParen
  | '{' => some .leftBrace
  | '}' => some .rightBrace
  | ',' => some .comma
  | '.' => some .dot
  | '-' => some .minus
  | '+' => some .plus
  | ';' => some .semicolon
  | '*' => some .star
  | _ => none

/-- Operators that a following `=` lengthens: the kind alone, then the kind with it. -/
def pairKinds : Char → Option (Kind × Kind)
  | '!' => some (.bang, .bangEqual)
  | '=' => some (.equal, .equalEqual)
  | '<' => some (.less, .lessEqual)
  | '>' => some (.greater, .greaterEqual)
  | _ => none

def slash : List Char → Cut
  | '/' :: more =>
    ⟨.layout, '/' :: '/' :: more.takeWhile (· != '\n'), more.dropWhile (· != '\n'), 0⟩
  | rest => ⟨.token .slash, ['/'], rest, 0⟩

def quote (rest : List Char) : Cut :=
  let contents := rest.takeWhile (· != '"')
  let lines := contents.count '\n'
  match rest.dropWhile (· != '"') with
  | close :: after =>
    ⟨.token (.string (String.ofList contents)), '"' :: (contents ++ [close]), after, lines⟩
  | [] => ⟨.unterminated, '"' :: contents, [], lines⟩

def numeral (text rest : List Char) : Cut :=
  match Double.ofText? text with
  | some x => ⟨.token (.number x), text, rest, 0⟩
  | none => ⟨.notNumber, text, rest, 0⟩

/-- Digits, with a point only where a digit follows it. -/
def number (first : Char) (rest : List Char) : Cut :=
  let whole := first :: rest.takeWhile Char.isDigit
  match rest.dropWhile Char.isDigit with
  | '.' :: d :: more =>
    if d.isDigit then
      numeral (whole ++ '.' :: d :: more.takeWhile Char.isDigit) (more.dropWhile Char.isDigit)
    else numeral whole ('.' :: d :: more)
  | after => numeral whole after

def word (first : Char) (rest : List Char) : Cut :=
  let text := first :: rest.takeWhile Char.isAlphanum
  ⟨.token (wordKind (String.ofList text)), text, rest.dropWhile Char.isAlphanum, 0⟩

def pair (alone lengthened : Kind) (first : Char) : List Char → Cut
  | '=' :: rest => ⟨.token lengthened, [first, '='], rest, 0⟩
  | rest => ⟨.token alone, [first], rest, 0⟩

def operator (first : Char) (rest : List Char) : Cut :=
  match soleKind first, pairKinds first with
  | some kind, _ => ⟨.token kind, [first], rest, 0⟩
  | none, some (alone, lengthened) => pair alone lengthened first rest
  | none, none => ⟨.unexpected first, [first], rest, 0⟩

def first (c : Char) (rest : List Char) : Cut :=
  if isBlank c then ⟨.layout, [c], rest, if c = '\n' then 1 else 0⟩
  else if c = '/' then slash rest
  else if c = '"' then quote rest
  else if c.isDigit then number c rest
  else if c.isAlpha then word c rest
  else operator c rest

def lineAfter (cut : Cut) (line : Nat) : Nat := line + cut.lines

/-- What a piece is worth to a reader of tokens. A token bears the line it ends in. -/
def outcome (cut : Cut) (line : Nat) : Option (Except Error Token) :=
  match cut.piece with
  | .token kind => some (.ok ⟨kind, String.ofList cut.text, line⟩)
  | .layout => none
  | .unterminated => some (.error (.lexical line .unterminatedString))
  | .notNumber => some (.error (.lexical line (.notNumber (String.ofList cut.text))))
  | .unexpected c => some (.error (.lexical line (.unexpectedCharacter c)))

theorem slash_whole (rest : List Char) : (slash rest).text ++ (slash rest).rest = '/' :: rest := by
  unfold slash
  split <;> simp

theorem quote_whole (rest : List Char) : (quote rest).text ++ (quote rest).rest = '"' :: rest := by
  have parts := List.takeWhile_append_dropWhile (p := (· != '"')) (l := rest)
  unfold quote
  split
  · rename_i close after found
    rw [found] at parts
    simp [parts]
  · rename_i found
    rw [found] at parts
    simpa using parts

theorem numeral_text (text rest : List Char) : (numeral text rest).text = text := by
  unfold numeral
  split <;> rfl

theorem numeral_whole (text rest : List Char) :
    (numeral text rest).text ++ (numeral text rest).rest = text ++ rest := by
  unfold numeral
  split <;> rfl

theorem number_whole (first : Char) (rest : List Char) :
    (number first rest).text ++ (number first rest).rest = first :: rest := by
  have parts := List.takeWhile_append_dropWhile (p := Char.isDigit) (l := rest)
  unfold number
  split
  · rename_i d more found
    rw [found] at parts
    have tail := List.takeWhile_append_dropWhile (p := Char.isDigit) (l := more)
    split
    · simp only [numeral_whole, List.cons_append, List.append_assoc, tail, parts]
    · simp only [numeral_whole, List.cons_append, parts]
  · simp only [numeral_whole, List.cons_append, parts]

theorem word_whole (first : Char) (rest : List Char) :
    (word first rest).text ++ (word first rest).rest = first :: rest := by
  simp [word]

theorem operator_whole (first : Char) (rest : List Char) :
    (operator first rest).text ++ (operator first rest).rest = first :: rest := by
  unfold operator
  split
  · rfl
  · unfold pair
    split <;> rfl
  · rfl

theorem first_whole (c : Char) (rest : List Char) :
    (first c rest).text ++ (first c rest).rest = c :: rest := by
  unfold first
  split
  · rfl
  split
  · rename_i h; rw [h]; exact slash_whole rest
  split
  · rename_i h; rw [h]; exact quote_whole rest
  split
  · exact number_whole c rest
  split
  · exact word_whole c rest
  · exact operator_whole c rest

theorem first_text_ne_nil (c : Char) (rest : List Char) : (first c rest).text ≠ [] := by
  simp only [first, slash, quote, number, word, operator, pair]
  repeat' split
  all_goals simp only [numeral_text, ne_eq, List.cons_ne_nil, not_false_eq_true, List.cons_append]

end Cut

end Blockscript

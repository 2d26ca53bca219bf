import Blockscript.Reading.Expr

/-!
The grammar of programs: which tokens derive which trees. Nothing here reads from left
to right or looks ahead. What holds of all derivations is proved by induction on them.
-/
namespace Blockscript

def Kind.literal? : Kind → Option Value
  | .number x => some (.number x)
  | .string s => some (.string s)
  | .trueWord => some (.bool true)
  | .falseWord => some (.bool false)
  | .nilWord => some .nil
  | _ => none

/-- Brackets, unary operators and assigned values on the path through the most of them. -/
def Expr.nesting : Expr → Nat
  | .literal _ | .var _ => 0
  | .grouping inner => inner.nesting + 1
  | .unary _ operand => operand.nesting + 1
  | .binary left _ right | .logical left _ right => max left.nesting right.nesting
  | .assign _ value => value.nesting + 1

namespace Grammar

inductive Rank where
  | primary | unary | factor | term | comparison | equality | conjunction | disjunction | assignment
  deriving DecidableEq, Repr

namespace Rank

def tighter : Rank → Rank
  | primary | unary => primary
  | factor => unary
  | term => factor
  | comparison => term
  | equality => comparison
  | conjunction => equality
  | disjunction => conjunction
  | assignment => disjunction

def level : Rank → Level
  | factor => ⟨[.star, .slash], .binary⟩
  | term => ⟨[.minus, .plus], .binary⟩
  | comparison => ⟨[.greater, .greaterEqual, .less, .lessEqual], .binary⟩
  | equality => ⟨[.bangEqual, .equalEqual], .binary⟩
  | conjunction => ⟨[.andWord], .logical⟩
  | disjunction => ⟨[.orWord], .logical⟩
  | primary | unary | assignment => ⟨[], .binary⟩

end Rank

/-- Operators of one rank join to the left: only the left operand may be of the same rank.
    Unary operators and assignments nest to the right. -/
inductive Derives : Rank → List Token → Expr → Prop where
  | literal {t : Token} {v : Value} (value : t.kind.literal? = some v) :
      Derives .primary [t] (.literal v)
  | var {t : Token} (name : t.kind = .identifier) : Derives .primary [t] (.var t)
  | grouping {l r : Token} {ts : List Token} {e : Expr} (opens : l.kind = .leftParen)
      (inner : Derives .assignment ts e) (closes : r.kind = .rightParen) :
      Derives .primary (l :: (ts ++ [r])) (.grouping e)
  | unary {op : Token} {ts : List Token} {e : Expr} (known : op.kind ∈ [Kind.bang, Kind.minus])
      (operand : Derives .unary ts e) : Derives .unary (op :: ts) (.unary op e)
  | joined {rank : Rank} {ls rs : List Token} {l r : Expr} {op : Token}
      (left : Derives rank ls l) (known : op.kind ∈ rank.level.operators)
      (right : Derives rank.tighter rs r) :
      Derives rank (ls ++ op :: rs) (rank.level.join l op r)
  | assign {name op : Token} {ts : List Token} {e : Expr} (target : name.kind = .identifier)
      (known : op.kind = .equal) (value : Derives .assignment ts e) :
      Derives .assignment (name :: op :: ts) (.assign name e)
  | looser {rank : Rank} {ts : List Token} {e : Expr} (more : rank ≠ .primary)
      (inner : Derives rank.tighter ts e) : Derives rank ts e

def Whole (ts : List Token) (e : Expr) : Prop := Derives .assignment ts e ∧ e.nesting ≤ 100

inductive Variable : List Token → Stmt → Prop where
  | bare {word name stop : Token} (starts : word.kind = .varWord)
      (target : name.kind = .identifier) (stops : stop.kind = .semicolon) :
      Variable [word, name, stop] (.declare name none)
  | initial {word name op stop : Token} {ts : List Token} {e : Expr}
      (starts : word.kind = .varWord) (target : name.kind = .identifier)
      (known : op.kind = .equal) (value : Whole ts e) (stops : stop.kind = .semicolon) :
      Variable (word :: name :: op :: (ts ++ [stop])) (.declare name (some e))

inductive Simple : List Token → Stmt → Prop where
  | print {word stop : Token} {ts : List Token} {e : Expr} (starts : word.kind = .printWord)
      (value : Whole ts e) (stops : stop.kind = .semicolon) :
      Simple (word :: (ts ++ [stop])) (.print e)
  | expression {stop : Token} {ts : List Token} {e : Expr} (value : Whole ts e)
      (stops : stop.kind = .semicolon) : Simple (ts ++ [stop]) (.expression e)

inductive Condition : List Token → Expr → Prop where
  | bracketed {l r : Token} {ts : List Token} {e : Expr} (opens : l.kind = .leftParen)
      (value : Whole ts e) (closes : r.kind = .rightParen) : Condition (l :: (ts ++ [r])) e

inductive Initial : List Token → Option Stmt → Prop where
  | none {stop : Token} (stops : stop.kind = .semicolon) : Initial [stop] none
  | variable {ts : List Token} {s : Stmt} (declared : Variable ts s) : Initial ts (some s)
  | expression {stop : Token} {ts : List Token} {e : Expr} (value : Whole ts e)
      (stops : stop.kind = .semicolon) : Initial (ts ++ [stop]) (some (.expression e))

/-- The second clause of a `for`. It is true when it is left out. -/
inductive Test : List Token → Expr → Prop where
  | none {stop : Token} (stops : stop.kind = .semicolon) : Test [stop] (.literal (.bool true))
  | expression {stop : Token} {ts : List Token} {e : Expr} (value : Whole ts e)
      (stops : stop.kind = .semicolon) : Test (ts ++ [stop]) e

inductive Step : List Token → Option Expr → Prop where
  | none {r : Token} (closes : r.kind = .rightParen) : Step [r] none
  | expression {r : Token} {ts : List Token} {e : Expr} (value : Whole ts e)
      (closes : r.kind = .rightParen) : Step (ts ++ [r]) (some e)

def followed (body : Stmt) : Option Expr → Stmt
  | none => body
  | some step => .block [body, .expression step]

def preceded (loop : Stmt) : Option Stmt → Stmt
  | none => loop
  | some initial => .block [initial, loop]

mutual

/-- A closed statement does not end in an `if` without an `else`. Only closed statements
    stand before an `else`, so that an `else` belongs to the nearest `if`. -/
inductive Statement : Bool → List Token → Stmt → Prop where
  | simple {closed : Bool} {ts : List Token} {s : Stmt} (only : Simple ts s) :
      Statement closed ts s
  | block {closed : Bool} {l r : Token} {ts : List Token} {body : List Stmt}
      (opens : l.kind = .leftBrace) (inner : Declarations ts body)
      (closes : r.kind = .rightBrace) : Statement closed (l :: (ts ++ [r])) (.block body)
  | whileLoop {closed : Bool} {word : Token} {cs ts : List Token} {c : Expr} {body : Stmt}
      (starts : word.kind = .whileWord) (condition : Condition cs c)
      (inner : Statement closed ts body) : Statement closed (word :: (cs ++ ts)) (.loop c body)
  | forLoop {closed : Bool} {word l : Token} {is cs ss ts : List Token} {initial : Option Stmt}
      {c : Expr} {step : Option Expr} {body : Stmt} (starts : word.kind = .forWord)
      (opens : l.kind = .leftParen) (first : Initial is initial) (condition : Test cs c)
      (last : Step ss step) (inner : Statement closed ts body) :
      Statement closed (word :: l :: (is ++ (cs ++ (ss ++ ts))))
        (preceded (.loop c (followed body step)) initial)
  | ifElse {closed : Bool} {word other : Token} {cs ts us : List Token} {c : Expr}
      {accepted rejected : Stmt} (starts : word.kind = .ifWord) (condition : Condition cs c)
      (first : Statement true ts accepted) (turns : other.kind = .elseWord)
      (second : Statement closed us rejected) :
      Statement closed (word :: (cs ++ (ts ++ other :: us)))
        (.branch c accepted (some rejected))
  | ifOnly {word : Token} {cs ts : List Token} {c : Expr} {accepted : Stmt}
      (starts : word.kind = .ifWord) (condition : Condition cs c)
      (first : Statement false ts accepted) :
      Statement false (word :: (cs ++ ts)) (.branch c accepted none)

/-- Only here, and in front of a `for`, can a variable be declared. -/
inductive Declaration : List Token → Stmt → Prop where
  | variable {ts : List Token} {s : Stmt} (declared : Variable ts s) : Declaration ts s
  | statement {ts : List Token} {s : Stmt} (stated : Statement false ts s) : Declaration ts s

inductive Declarations : List Token → List Stmt → Prop where
  | nil : Declarations [] []
  | cons {ts us : List Token} {s : Stmt} {rest : List Stmt} (first : Declaration ts s)
      (more : Declarations us rest) : Declarations (ts ++ us) (s :: rest)

end

theorem Statement.opened {closed : Bool} {ts : List Token} {s : Stmt} :
    Statement closed ts s → Statement false ts s
  | .simple only => .simple only
  | .block opens inner closes => .block opens inner closes
  | .whileLoop starts condition inner => .whileLoop starts condition inner.opened
  | .forLoop starts opens first condition last inner =>
    .forLoop starts opens first condition last inner.opened
  | .ifElse starts condition first turns second =>
    .ifElse starts condition first turns second.opened
  | .ifOnly starts condition first => .ifOnly starts condition first

theorem Declarations.append {ts us : List Token} {first second : List Stmt} :
    Declarations ts first → Declarations us second → Declarations (ts ++ us) (first ++ second)
  | .nil, h' => h'
  | .cons head more, h' => by
    rw [List.append_assoc, List.cons_append]
    exact .cons head (more.append h')

end Grammar

end Blockscript

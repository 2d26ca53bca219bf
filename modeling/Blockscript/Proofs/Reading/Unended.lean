import Blockscript.Proofs.Reading.Around

/-!
Programs in which one semicolon is missing, behind a statement in a list of declarations. Where
such a semicolon can stand is told by the derivation, so the grammar of these programs has the
rules of the grammar, each with the semicolon in one of its parts.
-/
namespace Blockscript

open Grammar

def Kind.beginsEnded : Kind → Bool
  | .printWord | .varWord => true
  | k => k.inExpression

section

variable {k : Kind}

theorem beginsEnded_of_inExpression (h : k.inExpression = true) : k.beginsEnded = true := by
  cases k <;> first | rfl | cases h

theorem unbraced_of_beginsEnded (h : k.beginsEnded = true) : k.unbraced = true := by
  cases k <;> first | rfl | cases h

theorem endsItem_of_beginsEnded (h : k.beginsEnded = true) : k.endsItem = false := by
  cases k <;> first | rfl | cases h

theorem not_bounding_of_beginsEnded (h : k.beginsEnded = true) :
    k ∉ [Kind.semicolon, .leftBrace, .rightBrace, .endOfFile] := by
  intro among
  simp only [List.mem_cons, List.not_mem_nil, or_false] at among
  rcases among with rfl | rfl | rfl | rfl <;> cases h

end

namespace Unended

inductive Ended : List Token → Token → Prop where
  | print {word stop : Token} {ts : List Token} {e : Expr} (starts : word.kind = .printWord)
      (value : Whole ts e) (stops : stop.kind = .semicolon) : Ended (word :: ts) stop
  | expression {stop : Token} {ts : List Token} {e : Expr} (value : Whole ts e)
      (stops : stop.kind = .semicolon) : Ended ts stop
  | bare {word name stop : Token} (starts : word.kind = .varWord)
      (target : name.kind = .identifier) (stops : stop.kind = .semicolon) :
      Ended [word, name] stop
  | initial {word name op stop : Token} {ts : List Token} {e : Expr}
      (starts : word.kind = .varWord) (target : name.kind = .identifier)
      (known : op.kind = .equal) (value : Whole ts e) (stops : stop.kind = .semicolon) :
      Ended (word :: name :: op :: ts) stop

mutual

/-- The tokens of a statement before and behind the semicolon of one that stands in a list of
    declarations inside. -/
inductive Statement : Bool → List Token → Token → List Token → Prop where
  | block {closed : Bool} {l r stop : Token} {front back : List Token} (opens : l.kind = .leftBrace)
      (inner : Declarations front stop back) (closes : r.kind = .rightBrace) :
      Statement closed (l :: front) stop (back ++ [r])
  | whileLoop {closed : Bool} {word stop : Token} {cs front back : List Token} {c : Expr}
      (starts : word.kind = .whileWord) (condition : Condition cs c)
      (inner : Statement closed front stop back) :
      Statement closed (word :: (cs ++ front)) stop back
  | forLoop {closed : Bool} {word l stop : Token} {is cs ss front back : List Token}
      {initial : Option Stmt} {c : Expr} {step : Option Expr} (starts : word.kind = .forWord)
      (opens : l.kind = .leftParen) (first : Initial is initial) (condition : Test cs c)
      (last : Step ss step) (inner : Statement closed front stop back) :
      Statement closed (word :: l :: (is ++ (cs ++ (ss ++ front)))) stop back
  | accepted {closed : Bool} {word other stop : Token} {cs front back us : List Token} {c : Expr}
      {s : Stmt} (starts : word.kind = .ifWord) (condition : Condition cs c)
      (first : Statement true front stop back) (turns : other.kind = .elseWord)
      (second : Grammar.Statement closed us s) :
      Statement closed (word :: (cs ++ front)) stop (back ++ other :: us)
  | rejected {closed : Bool} {word other stop : Token} {cs ts front back : List Token} {c : Expr}
      {s : Stmt} (starts : word.kind = .ifWord) (condition : Condition cs c)
      (first : Grammar.Statement true ts s) (turns : other.kind = .elseWord)
      (second : Statement closed front stop back) :
      Statement closed (word :: (cs ++ (ts ++ other :: front))) stop back
  | ifOnly {word stop : Token} {cs front back : List Token} {c : Expr}
      (starts : word.kind = .ifWord) (condition : Condition cs c)
      (first : Statement false front stop back) :
      Statement false (word :: (cs ++ front)) stop back

/-- The tokens of declarations before and behind the semicolon of one of them, or of one in a
    block inside them. -/
inductive Declarations : List Token → Token → List Token → Prop where
  | here {ts us vs : List Token} {stop : Token} {before after : List Stmt}
      (earlier : Grammar.Declarations ts before) (ended : Ended us stop)
      (later : Grammar.Declarations vs after) : Declarations (ts ++ us) stop vs
  | inside {ts front back vs : List Token} {stop : Token} {before after : List Stmt}
      (earlier : Grammar.Declarations ts before) (stated : Statement false front stop back)
      (later : Grammar.Declarations vs after) : Declarations (ts ++ front) stop (back ++ vs)

end

theorem Ended.declaration {us : List Token} {stop : Token} (h : Ended us stop) :
    ∃ s, Declaration (us ++ [stop]) s := by
  cases h with
  | print starts value stops => exact ⟨_, .statement (.simple (.print starts value stops))⟩
  | expression value stops => exact ⟨_, .statement (.simple (.expression value stops))⟩
  | bare starts target stops => exact ⟨_, .variable (.bare starts target stops)⟩
  | initial starts target known value stops =>
    exact ⟨_, .variable (.initial starts target known value stops)⟩

mutual

theorem Statement.derived {closed : Bool} {front back : List Token} {stop : Token} :
    Statement closed front stop back → ∃ s, Grammar.Statement closed (front ++ stop :: back) s
  | .block opens inner closes => by
    obtain ⟨body, derived⟩ := inner.derived
    exact ⟨_, by simpa using Grammar.Statement.block opens derived closes⟩
  | .whileLoop starts condition inner => by
    obtain ⟨s, derived⟩ := inner.derived
    exact ⟨_, by simpa using Grammar.Statement.whileLoop starts condition derived⟩
  | .forLoop starts opens first condition last inner => by
    obtain ⟨s, derived⟩ := inner.derived
    exact ⟨_, by simpa using Grammar.Statement.forLoop starts opens first condition last derived⟩
  | .accepted starts condition first turns second => by
    obtain ⟨s, derived⟩ := first.derived
    exact ⟨_, by simpa using Grammar.Statement.ifElse starts condition derived turns second⟩
  | .rejected starts condition first turns second => by
    obtain ⟨s, derived⟩ := second.derived
    exact ⟨_, by simpa using Grammar.Statement.ifElse starts condition first turns derived⟩
  | .ifOnly starts condition first => by
    obtain ⟨s, derived⟩ := first.derived
    exact ⟨_, by simpa using Grammar.Statement.ifOnly starts condition derived⟩

theorem Declarations.derived {front back : List Token} {stop : Token} :
    Declarations front stop back → ∃ body, Grammar.Declarations (front ++ stop :: back) body
  | .here earlier ended later => by
    obtain ⟨s, declared⟩ := ended.declaration
    exact ⟨_, by simpa using earlier.append (.cons declared later)⟩
  | .inside earlier stated later => by
    obtain ⟨s, derived⟩ := stated.derived
    exact ⟨_, by simpa using earlier.append (.cons (.statement derived) later)⟩

end

theorem Ended.kinds {us : List Token} {stop : Token} (h : Ended us stop) :
    ∃ t more, us = t :: more ∧ t.kind.beginsEnded = true ∧
      ∀ t ∈ more, t.kind.inExpression = true := by
  cases h with
  | print starts value => exact ⟨_, _, rfl, by rw [starts]; rfl, derives_kinds value.1⟩
  | expression value =>
    have kinds := derives_kinds value.1
    obtain ⟨t, more, rfl, known, -⟩ := Reader.whole_first value
    exact ⟨t, more, rfl, beginsEnded_of_inExpression known,
      fun t member => kinds t (List.mem_cons_of_mem _ member)⟩
  | bare starts target =>
    refine ⟨_, _, rfl, by rw [starts]; rfl, ?_⟩
    simp [target, Kind.inExpression]
  | initial starts target known value =>
    refine ⟨_, _, rfl, by rw [starts]; rfl, ?_⟩
    simpa [target, known, Kind.inExpression] using derives_kinds value.1

theorem Ended.stops {us : List Token} {stop : Token} (h : Ended us stop) :
    stop.kind = .semicolon := by
  cases h <;> assumption

theorem Ended.balanced {us : List Token} {stop : Token} (h : Ended us stop) : Balanced us := by
  obtain ⟨t, more, rfl, starts, kinds⟩ := h.kinds
  have later : Balanced more :=
    .of_unbraced fun t member => unbraced_of_inExpression (kinds t member)
  exact later.cons (unbraced_of_beginsEnded starts)

mutual

theorem Statement.balanced {closed : Bool} {front back : List Token} {stop : Token} :
    Statement closed front stop back → Balanced (front ++ back)
  | .block opens inner closes => by
    simpa using Balanced.block opens inner.balanced closes
  | .whileLoop starts condition inner => by
    simpa using (condition.balanced.append inner.balanced).cons (by rw [starts]; rfl)
  | .forLoop starts opens first condition last inner => by
    have clauses := first.balanced.append (condition.balanced.append last.balanced)
    have behind := (clauses.append inner.balanced).cons (by rw [opens]; rfl)
    simpa using behind.cons (by rw [starts]; rfl)
  | .accepted starts condition first turns second => by
    have other := second.balanced.cons (by rw [turns]; rfl)
    have branches := first.balanced.append other
    simpa using (condition.balanced.append branches).cons (by rw [starts]; rfl)
  | .rejected starts condition first turns second => by
    have other := second.balanced.cons (by rw [turns]; rfl)
    have branches := first.balanced.append other
    simpa using (condition.balanced.append branches).cons (by rw [starts]; rfl)
  | .ifOnly starts condition first => by
    simpa using (condition.balanced.append first.balanced).cons (by rw [starts]; rfl)

theorem Declarations.balanced {front back : List Token} {stop : Token} :
    Declarations front stop back → Balanced (front ++ back)
  | .here earlier ended later => (earlier.balanced.append ended.balanced).append later.balanced
  | .inside earlier stated later => by
    simpa using earlier.balanced.append (stated.balanced.append later.balanced)

end

theorem Statement.first {closed : Bool} {front back : List Token} {stop : Token}
    (h : Statement closed front stop back) :
    ∃ t more, front = t :: more ∧ t.kind.endsItem = false ∧ t.kind ≠ .varWord := by
  cases h with
  | block opens => exact ⟨_, _, rfl, by simp [opens, Kind.endsItem]⟩
  | whileLoop starts => exact ⟨_, _, rfl, by simp [starts, Kind.endsItem]⟩
  | forLoop starts => exact ⟨_, _, rfl, by simp [starts, Kind.endsItem]⟩
  | accepted starts => exact ⟨_, _, rfl, by simp [starts, Kind.endsItem]⟩
  | rejected starts => exact ⟨_, _, rfl, by simp [starts, Kind.endsItem]⟩
  | ifOnly starts => exact ⟨_, _, rfl, by simp [starts, Kind.endsItem]⟩

end Unended

end Blockscript

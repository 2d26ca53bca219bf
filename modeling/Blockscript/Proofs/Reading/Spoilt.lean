import Blockscript.Proofs.Reading.Soundness
import Mathlib.Data.List.Forall2

/-!
Programs with runs of tokens between their declarations that are none. A run stands where
a declaration could, at any depth. Which places these are is told by the derivation, so
the grammar of spoilt programs has the rules of the grammar and one more.
-/
namespace Blockscript

open Grammar

/-- Tokens up to a semicolon that are no declaration, with no sign before it that another
    one begins and no brace. -/
structure BadRun where
  body : List Token
  stop : Token
  stops : stop.kind = .semicolon
  plain : ∀ t ∈ body, t.kind ∉ [Kind.semicolon, .leftBrace, .rightBrace, .endOfFile]
  inside : ∀ t ∈ body.tail, t.kind.startsStatement = false
  first : ∀ t ∈ body.head?, t.kind ≠ .forWord ∧ t.kind ≠ .elseWord
  malformed : ∀ s, ¬ Declaration (body ++ [stop]) s

namespace BadRun

def tokens (run : BadRun) : List Token := run.body ++ [run.stop]

def Explains (run : BadRun) (e : Error) : Prop :=
  ∃ t ∈ run.tokens, ∃ fault, e = .grammar t fault

end BadRun

namespace Spoilt

mutual

/-- The tokens of a statement, the same with the bad runs between declarations, these runs
    in order, and the tree of the statement. -/
inductive Statement : Bool → List Token → List Token → List BadRun → Stmt → Prop where
  | simple {closed : Bool} {ts : List Token} {s : Stmt} (only : Simple ts s) :
      Statement closed ts ts [] s
  | block {closed : Bool} {l r : Token} {ts us : List Token} {runs : List BadRun}
      {body : List Stmt} (opens : l.kind = .leftBrace) (inner : Declarations ts us runs body)
      (closes : r.kind = .rightBrace) :
      Statement closed (l :: (ts ++ [r])) (l :: (us ++ [r])) runs (.block body)
  | whileLoop {closed : Bool} {word : Token} {cs ts us : List Token} {runs : List BadRun}
      {c : Expr} {body : Stmt} (starts : word.kind = .whileWord) (condition : Condition cs c)
      (inner : Statement closed ts us runs body) :
      Statement closed (word :: (cs ++ ts)) (word :: (cs ++ us)) runs (.loop c body)
  | forLoop {closed : Bool} {word l : Token} {is cs ss ts us : List Token}
      {runs : List BadRun} {initial : Option Stmt} {c : Expr} {step : Option Expr} {body : Stmt}
      (starts : word.kind = .forWord) (opens : l.kind = .leftParen) (first : Initial is initial)
      (condition : Test cs c) (last : Step ss step) (inner : Statement closed ts us runs body) :
      Statement closed (word :: l :: (is ++ (cs ++ (ss ++ ts))))
        (word :: l :: (is ++ (cs ++ (ss ++ us)))) runs
        (preceded (.loop c (followed body step)) initial)
  | ifElse {closed : Bool} {word other : Token} {cs ts us ts' us' : List Token}
      {runs runs' : List BadRun} {c : Expr} {accepted rejected : Stmt}
      (starts : word.kind = .ifWord) (condition : Condition cs c)
      (first : Statement true ts us runs accepted) (turns : other.kind = .elseWord)
      (second : Statement closed ts' us' runs' rejected) :
      Statement closed (word :: (cs ++ (ts ++ other :: ts')))
        (word :: (cs ++ (us ++ other :: us'))) (runs ++ runs')
        (.branch c accepted (some rejected))
  | ifOnly {word : Token} {cs ts us : List Token} {runs : List BadRun} {c : Expr}
      {accepted : Stmt} (starts : word.kind = .ifWord) (condition : Condition cs c)
      (first : Statement false ts us runs accepted) :
      Statement false (word :: (cs ++ ts)) (word :: (cs ++ us)) runs (.branch c accepted none)

inductive Declaration : List Token → List Token → List BadRun → Stmt → Prop where
  | variable {ts : List Token} {s : Stmt} (declared : Variable ts s) : Declaration ts ts [] s
  | statement {ts us : List Token} {runs : List BadRun} {s : Stmt}
      (stated : Statement false ts us runs s) : Declaration ts us runs s

inductive Declarations : List Token → List Token → List BadRun → List Stmt → Prop where
  | nil : Declarations [] [] [] []
  | cons {ts us ts' us' : List Token} {runs runs' : List BadRun} {s : Stmt} {rest : List Stmt}
      (first : Declaration ts us runs s) (more : Declarations ts' us' runs' rest) :
      Declarations (ts ++ ts') (us ++ us') (runs ++ runs') (s :: rest)
  | run {ts us : List Token} {runs : List BadRun} {rest : List Stmt} (bad : BadRun)
      (more : Declarations ts us runs rest) :
      Declarations ts (bad.tokens ++ us) (bad :: runs) rest

end

end Spoilt

namespace Grammar

mutual

theorem Statement.spoilt {closed : Bool} {ts : List Token} {s : Stmt} :
    Statement closed ts s → Spoilt.Statement closed ts ts [] s
  | .simple only => .simple only
  | .block opens inner closes => .block opens inner.spoilt closes
  | .whileLoop starts condition inner => .whileLoop starts condition inner.spoilt
  | .forLoop starts opens first condition last inner =>
    .forLoop starts opens first condition last inner.spoilt
  | .ifElse starts condition first turns second =>
    .ifElse starts condition first.spoilt turns second.spoilt
  | .ifOnly starts condition first => .ifOnly starts condition first.spoilt

theorem Declaration.spoilt {ts : List Token} {s : Stmt} :
    Declaration ts s → Spoilt.Declaration ts ts [] s
  | .variable declared => .variable declared
  | .statement stated => .statement stated.spoilt

theorem Declarations.spoilt {ts : List Token} {body : List Stmt} :
    Declarations ts body → Spoilt.Declarations ts ts [] body
  | .nil => .nil
  | .cons first more => .cons first.spoilt more.spoilt

end

end Grammar

namespace Spoilt

mutual

theorem Statement.clean {closed : Bool} {ts us : List Token} {runs : List BadRun} {s : Stmt} :
    Statement closed ts us runs s → Grammar.Statement closed ts s
  | .simple only => .simple only
  | .block opens inner closes => .block opens inner.clean closes
  | .whileLoop starts condition inner => .whileLoop starts condition inner.clean
  | .forLoop starts opens first condition last inner =>
    .forLoop starts opens first condition last inner.clean
  | .ifElse starts condition first turns second =>
    .ifElse starts condition first.clean turns second.clean
  | .ifOnly starts condition first => .ifOnly starts condition first.clean

theorem Declaration.clean {ts us : List Token} {runs : List BadRun} {s : Stmt} :
    Declaration ts us runs s → Grammar.Declaration ts s
  | .variable declared => .variable declared
  | .statement stated => .statement stated.clean

theorem Declarations.clean {ts us : List Token} {runs : List BadRun} {body : List Stmt} :
    Declarations ts us runs body → Grammar.Declarations ts body
  | .nil => .nil
  | .cons first more => .cons first.clean more.clean
  | .run _ more => more.clean

end

end Spoilt

end Blockscript

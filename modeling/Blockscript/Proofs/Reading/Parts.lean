import Blockscript.Proofs.Reading.Grammar

/-!
The parts of a program: its expressions, each with all that is in it, and the names it declares.
What the tokens of a source guarantee of every expression and every name, they guarantee of
the programs that derive from them.
-/
namespace Blockscript

mutual

def Stmt.Every (E : Expr → Prop) (N : Token → Prop) : Stmt → Prop
  | .expression e | .print e => E e
  | .declare name none => N name
  | .declare name (some e) => N name ∧ E e
  | .block body => Stmt.AllEvery E N body
  | .branch condition accepted none => E condition ∧ accepted.Every E N
  | .branch condition accepted (some rejected) =>
    E condition ∧ accepted.Every E N ∧ rejected.Every E N
  | .loop condition body => E condition ∧ body.Every E N
termination_by structural s => s

def Stmt.AllEvery (E : Expr → Prop) (N : Token → Prop) : List Stmt → Prop
  | [] => True
  | s :: rest => s.Every E N ∧ Stmt.AllEvery E N rest
termination_by structural ss => ss

end

section

variable {E : Expr → Prop} {N : Token → Prop}

mutual

theorem Stmt.every_of_forall (expressions : ∀ e, E e) (names : ∀ t, N t) :
    ∀ s : Stmt, s.Every E N
  | .expression e | .print e => expressions e
  | .declare name none => names name
  | .declare name (some e) => ⟨names name, expressions e⟩
  | .block body => Stmt.allEvery_of_forall expressions names body
  | .branch condition accepted none =>
    ⟨expressions condition, accepted.every_of_forall expressions names⟩
  | .branch condition accepted (some rejected) =>
    ⟨expressions condition, accepted.every_of_forall expressions names,
      rejected.every_of_forall expressions names⟩
  | .loop condition body => ⟨expressions condition, body.every_of_forall expressions names⟩

theorem Stmt.allEvery_of_forall (expressions : ∀ e, E e) (names : ∀ t, N t) :
    ∀ body : List Stmt, Stmt.AllEvery E N body
  | [] => trivial
  | s :: rest =>
    ⟨s.every_of_forall expressions names, Stmt.allEvery_of_forall expressions names rest⟩

end

end

namespace Grammar

/-- Whole expressions and names from tokens of a sort are of the sorts wanted. A condition that
    is left out of a `for` comes from no token. -/
structure Ensures (P : Token → Prop) (E : Expr → Prop) (N : Token → Prop) : Prop where
  whole : ∀ {ts e}, Whole ts e → (∀ t ∈ ts, P t) → E e
  name : ∀ {t}, t.kind = .identifier → P t → N t
  always : E (.literal (.bool true))

namespace Ensures

variable {P : Token → Prop} {E : Expr → Prop} {N : Token → Prop}

theorem simple (h : Ensures P E N) {ts : List Token} {s : Stmt} (only : Simple ts s)
    (known : ∀ t ∈ ts, P t) : s.Every E N := by
  cases only with
  | print starts value stops =>
    apply h.whole value
    intro t member
    exact known t (by simp [member])
  | expression value stops =>
    apply h.whole value
    intro t member
    exact known t (by simp [member])

theorem declares (h : Ensures P E N) {ts : List Token} {s : Stmt} (declared : Variable ts s)
    (known : ∀ t ∈ ts, P t) : s.Every E N := by
  cases declared with
  | bare starts target stops => exact h.name target (known _ (by simp))
  | initial starts target equals value stops =>
    refine ⟨h.name target (known _ (by simp)), h.whole value ?_⟩
    intro t member
    exact known t (by simp [member])

theorem condition (h : Ensures P E N) {ts : List Token} {c : Expr} (bracketed : Condition ts c)
    (known : ∀ t ∈ ts, P t) : E c := by
  cases bracketed with
  | bracketed opens value closes =>
    apply h.whole value
    intro t member
    exact known t (by simp [member])

theorem test (h : Ensures P E N) {ts : List Token} {c : Expr} (clause : Test ts c)
    (known : ∀ t ∈ ts, P t) : E c := by
  cases clause with
  | none stops => exact h.always
  | expression value stops =>
    apply h.whole value
    intro t member
    exact known t (by simp [member])

theorem preceded (h : Ensures P E N) {ts : List Token} {initial : Option Stmt}
    (clause : Initial ts initial) (known : ∀ t ∈ ts, P t) {loop : Stmt} (inner : loop.Every E N) :
    (preceded loop initial).Every E N := by
  cases clause with
  | none stops => exact inner
  | «variable» declared => exact ⟨h.declares declared known, inner, trivial⟩
  | expression value stops => exact ⟨h.simple (.expression value stops) known, inner, trivial⟩

theorem followed (h : Ensures P E N) {ts : List Token} {step : Option Expr} (clause : Step ts step)
    (known : ∀ t ∈ ts, P t) {body : Stmt} (inner : body.Every E N) :
    (followed body step).Every E N := by
  cases clause with
  | none closes => exact inner
  | expression value closes =>
    refine ⟨inner, h.whole value ?_, trivial⟩
    intro t member
    exact known t (by simp [member])

mutual

theorem statement (h : Ensures P E N) {closed : Bool} {ts : List Token} {s : Stmt} :
    Statement closed ts s → (∀ t ∈ ts, P t) → s.Every E N
  | .simple only, known => h.simple only known
  | .block _ inner _, known =>
    h.declarations inner fun t member => known t (by simp [member])
  | .whileLoop _ condition inner, known =>
    ⟨h.condition condition fun t member => known t (by simp [member]),
      h.statement inner fun t member => known t (by simp [member])⟩
  | .forLoop _ _ first condition last inner, known =>
    h.preceded first (fun t member => known t (by simp [member]))
      ⟨h.test condition fun t member => known t (by simp [member]),
        h.followed last (fun t member => known t (by simp [member]))
          (h.statement inner fun t member => known t (by simp [member]))⟩
  | .ifElse _ condition first _ second, known =>
    ⟨h.condition condition fun t member => known t (by simp [member]),
      h.statement first fun t member => known t (by simp [member]),
      h.statement second fun t member => known t (by simp [member])⟩
  | .ifOnly _ condition first, known =>
    ⟨h.condition condition fun t member => known t (by simp [member]),
      h.statement first fun t member => known t (by simp [member])⟩

theorem declaration (h : Ensures P E N) {ts : List Token} {s : Stmt} :
    Declaration ts s → (∀ t ∈ ts, P t) → s.Every E N
  | .variable declared, known => h.declares declared known
  | .statement stated, known => h.statement stated known

theorem declarations (h : Ensures P E N) {ts : List Token} {body : List Stmt} :
    Declarations ts body → (∀ t ∈ ts, P t) → Stmt.AllEvery E N body
  | .nil, _ => trivial
  | .cons first more, known =>
    ⟨h.declaration first fun t member => known t (by simp [member]),
      h.declarations more fun t member => known t (by simp [member])⟩

end

end Ensures

end Grammar

end Blockscript

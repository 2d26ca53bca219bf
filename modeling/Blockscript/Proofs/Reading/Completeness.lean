import Blockscript.Proofs.Reading.BadRuns

/-!
Programs that were derived are read, with bad runs in them as without. The induction is on
the derivation; each kind of statement is a lemma that takes what is inside as read.
-/
namespace Blockscript

open Grammar

def Kind.endsItem : Kind → Bool
  | .elseWord | .rightBrace | .endOfFile => true
  | _ => false

theorem endsItem_of_inExpression {k : Kind} (h : k.inExpression = true) :
    k.endsItem = false ∧ k ≠ .varWord := by
  constructor
  · cases k <;> first | rfl | cases h
  · rintro rfl; cases h

theorem endsItem_eq_true {k : Kind} :
    k.endsItem = true ↔ k = .elseWord ∨ k = .rightBrace ∨ k = .endOfFile := by
  cases k <;> simp [Kind.endsItem]

theorem plain_of_inExpression {k : Kind} (h : k.inExpression = true) :
    k.startsStatement = false ∧ k ≠ .leftBrace := by
  constructor
  · cases k <;> first | rfl | cases h
  · rintro rfl; cases h

theorem elseNext_of_endsItem {t : Token} (h : t.kind.endsItem = false) (rest : List Token) :
    elseNext (t :: rest) = false := by
  simp only [elseNext, List.head?_cons, Option.any_some, decide_eq_false_iff_not]
  intro same
  simp [same, Kind.endsItem] at h

theorem Reader.accept_else_of_none {rest : List Token} (last : elseNext rest = false) :
    accept .elseWord rest = .ok false rest := by
  refine accept_of_ne ?_
  simpa [elseNext, Option.any_eq_false] using last

namespace Grammar

theorem Variable.first {ts : List Token} {s : Stmt} (h : Variable ts s) :
    ∃ t more, ts = t :: more ∧ t.kind = .varWord := by
  cases h with
  | bare starts => exact ⟨_, _, rfl, starts⟩
  | initial starts => exact ⟨_, _, rfl, starts⟩

theorem Simple.first {ts : List Token} {s : Stmt} (h : Simple ts s) :
    ∃ t more, ts = t :: more ∧ t.kind.endsItem = false ∧ t.kind ≠ .varWord := by
  cases h with
  | print starts => exact ⟨_, _, rfl, by simp [starts, Kind.endsItem]⟩
  | expression value =>
    obtain ⟨t, more, rfl, known, _⟩ := Reader.whole_first value
    exact ⟨t, _, rfl, endsItem_of_inExpression known⟩

end Grammar

theorem BadRun.tokens_first (run : BadRun) :
    ∃ t more, run.tokens = t :: more ∧ t.kind.endsItem = false := by
  obtain ⟨body, stop, stops, plain, inside, first, malformed⟩ := run
  cases body with
  | nil => exact ⟨stop, [], rfl, by simp [stops, Kind.endsItem]⟩
  | cons t more =>
    refine ⟨t, more ++ [stop], rfl, ?_⟩
    have other := plain t (by simp)
    obtain ⟨_, notElse⟩ := first t rfl
    rw [Bool.eq_false_iff, Ne, endsItem_eq_true]
    rintro (same | same | same)
    · exact notElse same
    · exact other (by simp [same])
    · exact other (by simp [same])

namespace Spoilt

theorem Statement.first {closed : Bool} {ts us : List Token} {runs : List BadRun} {s : Stmt}
    (h : Statement closed ts us runs s) :
    ∃ t more, us = t :: more ∧ t.kind.endsItem = false ∧ t.kind ≠ .varWord := by
  cases h with
  | simple only => exact only.first
  | block opens => exact ⟨_, _, rfl, by simp [opens, Kind.endsItem]⟩
  | whileLoop starts => exact ⟨_, _, rfl, by simp [starts, Kind.endsItem]⟩
  | forLoop starts => exact ⟨_, _, rfl, by simp [starts, Kind.endsItem]⟩
  | ifElse starts => exact ⟨_, _, rfl, by simp [starts, Kind.endsItem]⟩
  | ifOnly starts => exact ⟨_, _, rfl, by simp [starts, Kind.endsItem]⟩

theorem Declaration.first {ts us : List Token} {runs : List BadRun} {s : Stmt}
    (h : Declaration ts us runs s) : ∃ t more, us = t :: more ∧ t.kind.endsItem = false := by
  cases h with
  | «variable» declared =>
    obtain ⟨t, more, rfl, starts⟩ := declared.first
    exact ⟨t, more, rfl, by rw [starts]; rfl⟩
  | statement stated =>
    obtain ⟨t, more, rfl, known, _⟩ := stated.first
    exact ⟨t, more, rfl, known⟩

theorem Declarations.elseNext {ts us : List Token} {runs : List BadRun} {body : List Stmt}
    (h : Declarations ts us runs body) {rest : List Token} (last : elseNext rest = false) :
    elseNext (us ++ rest) = false := by
  cases h with
  | nil => exact last
  | cons first _ =>
    obtain ⟨t, more, rfl, known⟩ := first.first
    exact elseNext_of_endsItem known _
  | run bad _ =>
    obtain ⟨t, more, same, known⟩ := bad.tokens_first
    rw [same]
    exact elseNext_of_endsItem known _

end Spoilt

namespace PartReader

variable {rest : List Token} {errors : List Error} {s : Stmt}

theorem simple_read {ts : List Token} (h : Simple ts s) (rest : List Token) :
    statement (ts ++ rest) = ⟨.ok s, rest, []⟩ := by
  cases h with
  | @print word stop ts e starts value stops =>
    have read : Reader.printed (ts ++ stop :: rest) = .ok (.print e) rest :=
      Reader.ended_complete value stops rfl rest
    simp only [List.cons_append, List.append_assoc, List.nil_append, statement_cons, starts]
    exact lift_of_ok read
  | @expression stop ts e value stops =>
    have read : Reader.evaluated (ts ++ stop :: rest) = .ok (.expression e) rest :=
      Reader.ended_complete value stops rfl rest
    obtain ⟨t, more, rfl, known, _⟩ := Reader.whole_first value
    have plain : statement (t :: (more ++ stop :: rest)) =
        (Reader.evaluated : PartReader Stmt) (t :: (more ++ stop :: rest)) := by
      refine statement_plain ?_
      rintro _ ⟨rfl⟩
      exact plain_of_inExpression known
    simp only [List.cons_append, List.append_assoc, List.nil_append] at read ⊢
    rw [plain]
    exact lift_of_ok read

theorem block_read {l r : Token} {us : List Token} {inner : List Stmt} (opens : l.kind = .leftBrace)
    (read : body (us ++ r :: rest) = ⟨inner, r :: rest, errors⟩) (closes : r.kind = .rightBrace) :
    statement (l :: (us ++ [r]) ++ rest) = ⟨.ok (.block inner), rest, errors⟩ := by
  simp only [List.cons_append, List.append_assoc, List.nil_append, statement_cons, opens]
  have lifted : (liftM body : PartReader (List Stmt)) (us ++ r :: rest) =
      ⟨.ok inner, r :: rest, errors⟩ := by
    rw [lift_recovering, read]
  have closing : (do
      let _ ← Reader.expect .rightBrace .braceAfterBlock
      return .block inner : PartReader Stmt) (r :: rest) = ⟨.ok (.block inner), rest, []⟩ :=
    bind_of_clean (lift_of_ok (Reader.expect_of_eq closes _ _))
  rw [blockStatement, bind_of_ok lifted, closing, List.append_nil]

variable {cs us : List Token} {word : Token} {c : Expr}

theorem while_read (starts : word.kind = .whileWord) (condition : Condition cs c)
    (read : statement (us ++ rest) = ⟨.ok s, rest, errors⟩) :
    statement (word :: (cs ++ us) ++ rest) = ⟨.ok (.loop c s), rest, errors⟩ := by
  simp only [List.cons_append, List.append_assoc, statement_cons, starts, whileStatement]
  rw [bind_of_clean (lift_of_ok (Reader.condition_complete condition _ _ _))]
  exact bind_pure_of_ok read

theorem for_read {l : Token} {is ss : List Token} {initial : Option Stmt} {step : Option Expr}
    (starts : word.kind = .forWord) (opens : l.kind = .leftParen) (first : Initial is initial)
    (condition : Test cs c) (last : Step ss step)
    (read : statement (us ++ rest) = ⟨.ok s, rest, errors⟩) :
    statement (word :: l :: (is ++ (cs ++ (ss ++ us))) ++ rest) =
      ⟨.ok (preceded (.loop c (followed s step)) initial), rest, errors⟩ := by
  simp only [List.cons_append, List.append_assoc, statement_cons, starts, forStatement]
  rw [bind_of_clean (lift_of_ok (Reader.expect_of_eq opens _ _)),
    bind_of_clean (lift_of_ok (Reader.initialClause_complete first _)),
    bind_of_clean (lift_of_ok (Reader.conditionClause_complete condition _)),
    bind_of_clean (lift_of_ok (Reader.stepClause_complete last _)), ← forLoop_eq]
  exact bind_pure_of_ok read

theorem ifOnly_read (starts : word.kind = .ifWord) (condition : Condition cs c)
    (read : statement (us ++ rest) = ⟨.ok s, rest, errors⟩) (last : elseNext rest = false) :
    statement (word :: (cs ++ us) ++ rest) = ⟨.ok (.branch c s none), rest, errors⟩ := by
  simp only [List.cons_append, List.append_assoc, statement_cons, starts, ifStatement]
  rw [bind_of_clean (lift_of_ok (Reader.condition_complete condition _ _ _)), bind_of_ok read,
    bind_of_clean (lift_of_ok (Reader.accept_else_of_none last))]
  exact congrArg (Recovered.mk _ _) (List.append_nil errors)

theorem ifElse_read {other : Token} {us' : List Token} {errors' : List Error} {s' : Stmt}
    (starts : word.kind = .ifWord) (condition : Condition cs c)
    (read : statement (us ++ other :: (us' ++ rest)) = ⟨.ok s, other :: (us' ++ rest), errors⟩)
    (turns : other.kind = .elseWord) (read' : statement (us' ++ rest) = ⟨.ok s', rest, errors'⟩) :
    statement (word :: (cs ++ (us ++ other :: us')) ++ rest) =
      ⟨.ok (.branch c s (some s')), rest, errors ++ errors'⟩ := by
  have second : (do
      let rejected ← some <$> statement
      return .branch c s rejected : PartReader Stmt) (us' ++ rest) =
      ⟨.ok (.branch c s (some s')), rest, errors'⟩ := by
    rw [map_eq_bind]
    exact bind_pure_of_ok (bind_pure_of_ok read')
  simp only [List.cons_append, List.append_assoc, statement_cons, starts, ifStatement]
  rw [bind_of_clean (lift_of_ok (Reader.condition_complete condition _ _ _)), bind_of_ok read,
    bind_of_clean (lift_of_ok (Reader.accept_of_eq turns _))]
  simp only [↓reduceIte, second]

theorem variable_read {ts : List Token} (h : Variable ts s) (rest : List Token) :
    declaration (ts ++ rest) = ⟨.ok s, rest, []⟩ := by
  obtain ⟨word, more, rfl, starts, read⟩ := Reader.declaration_complete h rest
  simp only [List.cons_append, declaration_cons, starts, ↓reduceIte]
  exact lift_of_ok read

end PartReader

theorem only_brace : ∀ k : Kind, decide (k = .rightBrace) = true → k = .rightBrace :=
  fun _ => of_decide_eq_true

namespace Recovering

variable {closes : Kind → Bool} {tokens rest rest' : List Token} {errors errors' : List Error}

theorem items_end {t : Token} (ends : (t.isEnd || closes t.kind) = true) (rest : List Token) :
    items (recover PartReader.declaration) closes (t :: rest) = ⟨[], t :: rest, []⟩ := by
  rw [items_cons PartReader.declaration_advances]
  simp only [ends, ↓reduceIte]

theorem not_elseNext_end (only : ∀ k, closes k = true → k = .rightBrace) {t : Token}
    (ends : (t.isEnd || closes t.kind) = true) (rest : List Token) :
    elseNext (t :: rest) = false := by
  simp only [elseNext, List.head?_cons, Option.any_some, decide_eq_false_iff_not]
  rcases Bool.or_eq_true_iff.mp ends with ended | closed
  · simp only [Token.isEnd, decide_eq_true_eq] at ended
    simp [ended]
  · simp [only _ closed]

theorem open_of_item (only : ∀ k, closes k = true → k = .rightBrace) {t : Token}
    (other : t.kind.endsItem = false) : ¬ (t.isEnd || closes t.kind) = true := by
  rw [Bool.or_eq_true]
  rintro (ended | closed)
  · simp only [Token.isEnd, decide_eq_true_eq] at ended
    simp [ended, Kind.endsItem] at other
  · simp [only _ closed, Kind.endsItem] at other

theorem items_step (only : ∀ k, closes k = true → k = .rightBrace) {t : Token}
    (other : t.kind.endsItem = false) {item : Option Stmt} {body : List Stmt}
    (first : recover PartReader.declaration (t :: tokens) = ⟨item, rest, errors⟩)
    (more : items (recover PartReader.declaration) closes rest = ⟨body, rest', errors'⟩) :
    items (recover PartReader.declaration) closes (t :: tokens) =
      ⟨item.toList ++ body, rest', errors ++ errors'⟩ := by
  have before := open_of_item only other
  rw [items_cons PartReader.declaration_advances]
  simp only [before, Bool.false_eq_true, ↓reduceIte, first, more]

end Recovering

/-- Statements and errors in front of those that were read on from there. -/
def Recovered.behind (r : Recovered (List Stmt)) (body : List Stmt) (errors : List Error) :
    Recovered (List Stmt) :=
  ⟨body ++ r.value, r.rest, errors ++ r.errors⟩

theorem Recovered.behind_nil (rest : List Token) (body : List Stmt) (errors : List Error) :
    (Recovered.mk [] rest []).behind body errors = ⟨body, rest, errors⟩ := by
  simp only [behind, List.append_nil]

namespace Spoilt

open Recovering (items_step items_end not_elseNext_end)

abbrev Explained (runs : List BadRun) (errors : List Error) : Prop :=
  List.Forall₂ BadRun.Explains runs errors

mutual

theorem Statement.read {closed : Bool} {ts us : List Token} {runs : List BadRun} {s : Stmt} :
    Statement closed ts us runs s → ∀ {rest : List Token},
      (closed = false → elseNext rest = false) →
      ∃ errors, PartReader.statement (us ++ rest) = ⟨.ok s, rest, errors⟩ ∧ Explained runs errors
  | .simple only, rest, _ => ⟨[], PartReader.simple_read only rest, .nil⟩
  | .block (r := r) opens inner closes, rest, _ => by
    have ends : (r.isEnd || decide (r.kind = .rightBrace)) = true := by simp [closes]
    obtain ⟨errors, explained, read⟩ :=
      inner.read (· = .rightBrace) only_brace (not_elseNext_end only_brace ends rest)
    rw [items_end ends, Recovered.behind_nil] at read
    exact ⟨errors, PartReader.block_read opens read closes, explained⟩
  | .whileLoop starts condition inner, rest, last => by
    obtain ⟨errors, read, explained⟩ := inner.read last
    exact ⟨errors, PartReader.while_read starts condition read, explained⟩
  | .forLoop starts opens first condition step inner, rest, last => by
    obtain ⟨errors, read, explained⟩ := inner.read last
    exact ⟨errors, PartReader.for_read starts opens first condition step read, explained⟩
  | .ifElse starts condition first turns second, rest, last => by
    obtain ⟨errors, read, explained⟩ := first.read (by simp)
    obtain ⟨errors', read', explained'⟩ := second.read last
    exact ⟨errors ++ errors', PartReader.ifElse_read starts condition read turns read',
      List.rel_append explained explained'⟩
  | .ifOnly starts condition first, rest, last => by
    obtain ⟨errors, read, explained⟩ := first.read last
    exact ⟨errors, PartReader.ifOnly_read starts condition read (last rfl), explained⟩

theorem Declaration.read {ts us : List Token} {runs : List BadRun} {s : Stmt} :
    Declaration ts us runs s → ∀ {rest : List Token}, elseNext rest = false →
      ∃ errors, PartReader.declaration (us ++ rest) = ⟨.ok s, rest, errors⟩ ∧ Explained runs errors
  | .variable declared, rest, _ => ⟨[], PartReader.variable_read declared rest, .nil⟩
  | .statement stated, rest, last => by
    obtain ⟨errors, read, explained⟩ := stated.read fun _ => last
    obtain ⟨t, more, rfl, _, other⟩ := stated.first
    refine ⟨errors, ?_, explained⟩
    simpa only [List.cons_append, PartReader.declaration_cons, other, ↓reduceIte] using read

theorem Declarations.read {ts us : List Token} {runs : List BadRun} {body : List Stmt} :
    Declarations ts us runs body → ∀ (closes : Kind → Bool),
      (∀ k, closes k = true → k = .rightBrace) → ∀ {rest : List Token}, elseNext rest = false →
      ∃ errors, Explained runs errors ∧
        Recovering.items (recover PartReader.declaration) closes (us ++ rest) =
          (Recovering.items (recover PartReader.declaration) closes rest).behind body errors
  | .nil, closes, only, rest, _ => ⟨[], .nil, rfl⟩
  | .cons first more, closes, only, rest, last => by
    obtain ⟨errors', explained', read'⟩ := more.read closes only last
    obtain ⟨errors, read, explained⟩ := first.read (more.elseNext last)
    obtain ⟨t, us, rfl, known⟩ := first.first
    refine ⟨errors ++ errors', List.rel_append explained explained', ?_⟩
    rw [List.append_assoc, Recovered.behind, List.append_assoc]
    exact items_step only known (Recovering.recover_of_ok read) read'
  | .run bad more, closes, only, rest, last => by
    obtain ⟨errors', explained', read'⟩ := more.read closes only last
    obtain ⟨e, read, explains⟩ := bad.recovered _
    obtain ⟨t, us, same, known⟩ := bad.tokens_first
    refine ⟨e :: errors', .cons explains explained', ?_⟩
    rw [List.append_assoc, same]
    rw [same] at read
    exact items_step only known read read'

end

end Spoilt

theorem not_declaration {ts : List Token} {e : Error}
    (failed : (PartReader.declaration ts).value = .error e) (s : Stmt) : ¬ Declaration ts s := by
  intro derived
  have last : elseNext [] = false := rfl
  obtain ⟨errors, run, _⟩ := derived.spoilt.read last
  rw [List.append_nil] at run
  rw [run] at failed
  cases failed

end Blockscript

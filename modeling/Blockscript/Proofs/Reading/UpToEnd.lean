import Blockscript.Proofs.Reading.Unfolding

/-!
No reader sees past the end of the source. With the tokens behind the end cut off, everything is
read as before, and what is left is what was left before, cut off as well.
-/
namespace Blockscript

variable {α β : Type}

/-- The tokens up to the first end, the end among them. -/
def upToEnd : List Token → List Token
  | [] => []
  | t :: rest => if t.isEnd then [t] else t :: upToEnd rest

section

variable {t : Token} {rest : List Token}

theorem upToEnd_cons (before : t.kind ≠ .endOfFile) (rest : List Token) :
    upToEnd (t :: rest) = t :: upToEnd rest := by
  simp [upToEnd, Token.isEnd, before]

theorem upToEnd_ended (ends : t.kind = .endOfFile) (rest : List Token) :
    upToEnd (t :: rest) = [t] := by
  simp [upToEnd, Token.isEnd, ends]

theorem upToEnd_first (t : Token) (rest : List Token) :
    ∃ more, upToEnd (t :: rest) = t :: more ∧ (t.kind ≠ .endOfFile → more = upToEnd rest) := by
  by_cases ends : t.kind = .endOfFile
  · exact ⟨[], upToEnd_ended ends rest, fun before => absurd ends before⟩
  · exact ⟨upToEnd rest, upToEnd_cons ends rest, fun _ => rfl⟩

theorem upToEnd_length_le (tokens : List Token) : (upToEnd tokens).length ≤ tokens.length := by
  induction tokens with
  | nil => exact Nat.le_refl 0
  | cons t rest ih =>
    unfold upToEnd
    split
    · exact Nat.succ_le_succ (Nat.zero_le _)
    · exact Nat.succ_le_succ ih

end

def cutResult : EStateM.Result Error (List Token) α → EStateM.Result Error (List Token) α
  | .ok value rest => .ok value (upToEnd rest)
  | .error e rest => .error e (upToEnd rest)

namespace Reader

def SeesToEnd (reader : Reader α) : Prop :=
  ∀ tokens, reader (upToEnd tokens) = cutResult (reader tokens)

variable {n : Nat} {reader : Reader α} {next : α → Reader β}

theorem sees_pure (value : α) : SeesToEnd (pure value : Reader α) := fun _ => rfl

theorem SeesToEnd.bind (first : SeesToEnd reader) (second : ∀ value, SeesToEnd (next value)) :
    SeesToEnd (reader >>= next) := by
  intro tokens
  have head := first tokens
  cases run : reader tokens with
  | ok value rest =>
    rw [run] at head
    rw [bind_of_ok run, bind_of_ok head]
    exact second value rest
  | error e rest =>
    rw [run] at head
    rw [bind_of_error run, bind_of_error head]
    rfl

theorem SeesToEnd.map {f : α → β} (h : SeesToEnd reader) : SeesToEnd (f <$> reader) := by
  intro tokens
  simp only [Functor.map, EStateM.map, h tokens]
  cases reader tokens <;> rfl

theorem sees_fail (fault : GrammarFault) : SeesToEnd (fail fault : Reader α) := by
  intro tokens
  cases tokens with
  | nil => rfl
  | cons t rest =>
    obtain ⟨more, cut, -⟩ := upToEnd_first t rest
    simp only [fail, cutResult, cut, errorAt]

theorem sees_nextIs (kind : Kind) : SeesToEnd (nextIs kind) := by
  intro tokens
  cases tokens with
  | nil => rfl
  | cons t rest =>
    obtain ⟨more, cut, -⟩ := upToEnd_first t rest
    simp only [nextIs, cutResult, cut]

theorem sees_expect {kind : Kind} (known : kind ≠ .endOfFile) (fault : GrammarFault) :
    SeesToEnd (expect kind fault) := by
  intro tokens
  cases tokens with
  | nil => rfl
  | cons t rest =>
    by_cases same : t.kind = kind
    · rw [upToEnd_cons (same ▸ known), expect_of_eq same, expect_of_eq same]
      rfl
    · obtain ⟨more, cut, -⟩ := upToEnd_first t rest
      have failed : (fail fault : Reader Token) (upToEnd (t :: rest)) = _ :=
        sees_fail fault (t :: rest)
      rw [cut] at failed ⊢
      simpa only [expect, same, ↓reduceIte] using failed

theorem sees_accept {kind : Kind} (known : kind ≠ .endOfFile) : SeesToEnd (accept kind) := by
  intro tokens
  cases tokens with
  | nil => rfl
  | cons t rest =>
    by_cases same : t.kind = kind
    · rw [upToEnd_cons (same ▸ known), accept_of_eq same, accept_of_eq same]
      rfl
    · obtain ⟨more, cut, -⟩ := upToEnd_first t rest
      simp only [accept, same, ↓reduceIte, cutResult, cut]

theorem sees_chainFrom {level : Level} {operand : Reader Expr}
    (operators : ∀ k ∈ level.operators, k ≠ .endOfFile) (h : SeesToEnd operand)
    (bound : List Token) (left : Expr) : SeesToEnd (chainFrom level operand bound left) := by
  induction bound generalizing left with
  | nil => exact fun _ => rfl
  | cons b bound ih =>
    intro tokens
    cases tokens with
    | nil => rfl
    | cons op rest =>
      by_cases known : op.kind ∈ level.operators
      · rw [upToEnd_cons (operators _ known)]
        simp only [chainFrom, known, ↓reduceIte, h rest]
        cases operand rest with
        | ok right between => exact ih _ between
        | error e between => rfl
      · obtain ⟨more, cut, -⟩ := upToEnd_first op rest
        simp only [chainFrom, known, ↓reduceIte, cutResult, cut]

theorem sees_chain {level : Level} {operand : Reader Expr}
    (operators : ∀ k ∈ level.operators, k ≠ .endOfFile) (takes : TakesExpression 1 operand)
    (h : SeesToEnd operand) : SeesToEnd (chain level operand) := by
  intro tokens
  simp only [chain, h tokens]
  cases operand tokens with
  | ok left rest =>
    have enough := upToEnd_length_le rest
    -- the tokens that are left are fewer, but still enough to bound the steps
    refine (chainFrom_bound takes (Nat.le_refl _) enough left).trans ?_
    exact sees_chainFrom operators h rest left rest
  | error e rest => rfl

theorem level_inExpression {level : Level} (among : level ∈ levels) :
    ∀ k ∈ level.operators, k.inExpression = true := by
  revert level
  decide

theorem takes_joined {operand : Reader Expr} (inside : List Level)
    (among : ∀ level ∈ inside, level ∈ levels) (h : TakesExpression 1 operand) :
    TakesExpression 1 (joined inside operand) := by
  induction inside generalizing operand with
  | nil => exact h
  | cons level more ih =>
    obtain ⟨here, later⟩ := List.forall_mem_cons.mp among
    exact ih later (takes_chain (level_inExpression here) h)

theorem sees_joined {operand : Reader Expr} (inside : List Level)
    (among : ∀ level ∈ inside, level ∈ levels) (takes : TakesExpression 1 operand)
    (h : SeesToEnd operand) : SeesToEnd (joined inside operand) := by
  induction inside generalizing operand with
  | nil => exact h
  | cons level more ih =>
    obtain ⟨here, later⟩ := List.forall_mem_cons.mp among
    have known := level_inExpression here
    have operators : ∀ k ∈ level.operators, k ≠ .endOfFile := by
      rintro k member rfl
      cases known _ member
    exact ih later (takes_chain known takes) (sees_chain operators takes h)

theorem sees_primary {inner : Reader Expr} (h : SeesToEnd inner) : SeesToEnd (primary inner) := by
  intro tokens
  cases tokens with
  | nil => rfl
  | cons t rest =>
    by_cases ends : t.kind = .endOfFile
    · rw [upToEnd_ended ends, primary_cons, primary_cons, ends]
      simp only [Kind.literal?, reduceCtorEq, ↓reduceIte]
      exact (upToEnd_ended ends rest) ▸ sees_fail .expression (t :: rest)
    · rw [upToEnd_cons ends, primary_cons, primary_cons]
      split
      · rfl
      split
      · rfl
      split
      · refine h.bind (fun e => ?_) rest
        exact (sees_expect (by decide) _).bind fun _ => sees_pure _
      · exact upToEnd_cons ends rest ▸ sees_fail .expression (t :: rest)

theorem sees_unary {operand inner : Reader Expr} (h : SeesToEnd operand) (h' : SeesToEnd inner) :
    SeesToEnd (unary operand inner) := by
  intro tokens
  cases tokens with
  | nil => rfl
  | cons op rest =>
    by_cases known : op.kind ∈ unaryOperators
    · have before : op.kind ≠ .endOfFile := by
        intro same
        simp [same, unaryOperators] at known
      rw [upToEnd_cons before]
      simp only [unary, known, ↓reduceIte]
      exact h.map rest
    · have cut := sees_primary h' (op :: rest)
      obtain ⟨more, same, -⟩ := upToEnd_first op rest
      rw [same] at cut ⊢
      simpa only [unary, known, ↓reduceIte] using cut

theorem sees_assignment {target value : Reader Expr} (h : SeesToEnd target)
    (h' : SeesToEnd value) : SeesToEnd (assignment target value) := by
  intro tokens
  unfold assignment
  rw [h tokens]
  cases target tokens with
  | error e rest => rfl
  | ok left rest =>
    cases rest with
    | nil => rfl
    | cons op rest =>
      by_cases same : op.kind = .equal
      · have before : op.kind ≠ .endOfFile := by simp [same]
        simp only [cutResult, upToEnd_cons before, same, ↓reduceIte]
        cases left with
        | var name => exact h'.map rest
        | _ => rfl
      · obtain ⟨more, cut, -⟩ := upToEnd_first op rest
        simp only [cutResult, cut, same, ↓reduceIte]

theorem takes_operand (n : Nat) : TakesExpression 1 (operand (n + 1)) :=
  (operand_nested_reads (n + 1)).1.takes

theorem sees_nested (n : Nat) : SeesToEnd (operand n) ∧ SeesToEnd (nested n) := by
  induction n with
  | zero => exact ⟨sees_fail .nesting, sees_fail .nesting⟩
  | succ n ih =>
    have tightest : SeesToEnd (operand (n + 1)) := sees_unary ih.1 ih.2
    have takes := takes_operand n
    exact ⟨tightest, sees_assignment (sees_joined levels (fun _ => id) takes tightest) ih.2⟩

theorem sees_expression : SeesToEnd expression := (sees_nested _).2

theorem sees_last {kind : Kind} (known : kind ≠ .endOfFile) (fault : GrammarFault) (value : α) :
    SeesToEnd (do let _ ← expect kind fault; return value) :=
  (sees_expect known fault).bind fun _ => sees_pure value

theorem sees_ended {kind : Kind} (known : kind ≠ .endOfFile) (fault : GrammarFault)
    (build : Expr → α) : SeesToEnd (ended kind fault build) :=
  sees_expression.bind fun e => sees_last known fault (build e)

theorem sees_declaration : SeesToEnd declaration := by
  unfold declaration
  refine (sees_expect (by decide) _).bind fun name => ?_
  refine (sees_accept (by decide)).bind fun assigned => ?_
  cases assigned with
  | true => exact sees_expression.map.bind fun initial => sees_last (by decide) _ _
  | false => exact (sees_pure none).bind fun initial => sees_last (by decide) _ _

theorem sees_condition (before after : GrammarFault) : SeesToEnd (condition before after) :=
  (sees_expect (by decide) _).bind fun _ => sees_ended (by decide) after id

theorem sees_initialClause : SeesToEnd initialClause := by
  unfold initialClause
  refine (sees_accept (by decide)).bind fun empty => ?_
  cases empty with
  | true => exact sees_pure none
  | false =>
    refine (sees_accept (by decide)).bind fun declared => ?_
    cases declared with
    | true => exact sees_declaration.bind fun s => sees_pure (some s)
    | false => exact (sees_ended (by decide) _ _).bind fun s => sees_pure (some s)

theorem sees_conditionClause : SeesToEnd conditionClause := by
  unfold conditionClause
  refine (sees_nextIs _).bind fun empty => ?_
  cases empty with
  | true => exact (sees_pure _).bind fun e => sees_last (by decide) _ e
  | false => exact sees_expression.bind fun e => sees_last (by decide) _ e

theorem sees_stepClause : SeesToEnd stepClause := by
  unfold stepClause
  refine (sees_nextIs _).bind fun empty => ?_
  cases empty with
  | true => exact (sees_pure none).bind fun e => sees_last (by decide) _ e
  | false => exact sees_expression.map.bind fun e => sees_last (by decide) _ e

end Reader

def Recovered.cut (r : Recovered α) : Recovered α := ⟨r.value, upToEnd r.rest, r.errors⟩

def Recovering.SeesToEnd (reader : Recovering α) : Prop :=
  ∀ tokens, reader (upToEnd tokens) = (reader tokens).cut

namespace PartReader

def SeesToEnd (reader : PartReader α) : Prop := Recovering.SeesToEnd reader

variable {reader : PartReader α} {next : α → PartReader β}

theorem sees_pure (value : α) : SeesToEnd (pure value : PartReader α) := fun _ => rfl

theorem SeesToEnd.bind (first : SeesToEnd reader) (second : ∀ value, SeesToEnd (next value)) :
    SeesToEnd (reader >>= next) := by
  intro tokens
  have head := first tokens
  rcases run : reader tokens with ⟨e | value, rest, errors⟩
  · rw [run] at head
    rw [bind_of_error run, bind_of_error head]
    rfl
  · rw [run] at head
    rw [bind_of_ok run, bind_of_ok head, second value rest]
    rfl

theorem sees_lift {reader : Reader α} (h : reader.SeesToEnd) :
    SeesToEnd (liftM reader : PartReader α) := by
  intro tokens
  have head := h tokens
  cases run : reader tokens with
  | ok value rest =>
    rw [run] at head
    rw [lift_of_ok run, lift_of_ok head]
    rfl
  | error e rest =>
    rw [run] at head
    rw [lift_of_error run, lift_of_error head]
    rfl

theorem sees_recovering {reader : Recovering α} (h : reader.SeesToEnd) :
    SeesToEnd (liftM reader : PartReader α) := by
  intro tokens
  rw [lift_recovering, lift_recovering, h tokens]
  rfl

variable {inner : PartReader Stmt} {body : Recovering (List Stmt)}

theorem sees_forStatement (h : SeesToEnd inner) : SeesToEnd (forStatement inner) :=
  (sees_lift (Reader.sees_expect (by decide) _)).bind fun _ =>
    (sees_lift Reader.sees_initialClause).bind fun _ =>
    (sees_lift Reader.sees_conditionClause).bind fun _ =>
    (sees_lift Reader.sees_stepClause).bind fun _ => h.bind fun _ => sees_pure _

theorem sees_ifStatement (h : SeesToEnd inner) : SeesToEnd (ifStatement inner) := by
  refine (sees_lift (Reader.sees_condition _ _)).bind fun condition => ?_
  refine h.bind fun accepted => ?_
  refine (sees_lift (Reader.sees_accept (by decide))).bind fun more => ?_
  cases more with
  | true =>
    simp only [↓reduceIte, map_eq_bind]
    exact (h.bind fun s => sees_pure (some s)).bind fun rejected => sees_pure _
  | false => exact (sees_pure none).bind fun rejected => sees_pure _

theorem sees_whileStatement (h : SeesToEnd inner) : SeesToEnd (whileStatement inner) :=
  (sees_lift (Reader.sees_condition _ _)).bind fun _ => h.bind fun _ => sees_pure _

theorem sees_blockStatement (h : body.SeesToEnd) : SeesToEnd (blockStatement body) :=
  (sees_recovering h).bind fun _ =>
    (sees_lift (Reader.sees_expect (by decide) _)).bind fun _ => sees_pure _

theorem sees_statementOf (h : SeesToEnd inner) (h' : body.SeesToEnd) :
    SeesToEnd (statementOf inner body) := by
  have evaluated : SeesToEnd (Reader.evaluated : PartReader Stmt) :=
    sees_lift (Reader.sees_ended (by decide) _ _)
  have printed : SeesToEnd (Reader.printed : PartReader Stmt) :=
    sees_lift (Reader.sees_ended (by decide) _ _)
  intro tokens
  cases tokens with
  | nil => rfl
  | cons t rest =>
    by_cases ends : t.kind = .endOfFile
    · have cut := evaluated (t :: rest)
      rw [upToEnd_ended ends] at cut ⊢
      simpa only [statementOf, ends] using cut
    · have cut := evaluated (t :: rest)
      rw [upToEnd_cons ends] at cut ⊢
      simp only [statementOf]
      split
      · exact sees_forStatement h rest
      · exact sees_ifStatement h rest
      · exact sees_whileStatement h rest
      · exact printed rest
      · exact sees_blockStatement h' rest
      · exact cut

theorem sees_declarationOf (h : SeesToEnd inner) : SeesToEnd (declarationOf inner) := by
  intro tokens
  cases tokens with
  | nil => exact h []
  | cons t rest =>
    by_cases starts : t.kind = .varWord
    · have before : t.kind ≠ .endOfFile := by simp [starts]
      rw [upToEnd_cons before]
      simp only [declarationOf, starts, ↓reduceIte]
      exact sees_lift Reader.sees_declaration rest
    · have cut := h (t :: rest)
      obtain ⟨more, same, -⟩ := upToEnd_first t rest
      rw [same] at cut ⊢
      simpa only [declarationOf, starts, ↓reduceIte] using cut

end PartReader

theorem resume_upToEnd (tokens : List Token) :
    resume (upToEnd tokens) = upToEnd (resume tokens) := by
  induction tokens with
  | nil => rfl
  | cons t rest ih =>
    by_cases ends : t.kind = .endOfFile
    · rw [resume_of_end ends, upToEnd_ended ends, resume_of_end ends]
    · have before : t.isEnd = false := by simpa [Token.isEnd] using ends
      rw [upToEnd_cons ends]
      cases rest with
      | nil => simp [resume_cons, before, upToEnd]
      | cons next more =>
        obtain ⟨behind, cut, -⟩ := upToEnd_first next more
        rw [cut] at ih ⊢
        simp only [resume_cons t, before, List.head?_cons, Option.mem_some_iff, exists_eq_left',
          Bool.false_eq_true, ↓reduceIte]
        split
        · exact cut.symm
        split
        · exact cut.symm
        · exact ih

namespace Recovering

variable {declaration : Recovering (Option Stmt)} {closes : Kind → Bool}

theorem sees_recover {reader : PartReader α} (h : reader.SeesToEnd) :
    SeesToEnd (recover reader) := by
  intro tokens
  have head := h tokens
  rcases run : reader tokens with ⟨e | value, rest, errors⟩
  · rw [run] at head
    rw [recover_of_error run, recover_of_error head, resume_upToEnd]
    rfl
  · rw [run] at head
    rw [recover_of_ok run, recover_of_ok head]
    rfl

theorem sees_itemsWithin (h : SeesToEnd declaration) (bound : List Token) :
    SeesToEnd (itemsWithin declaration closes bound) := by
  induction bound with
  | nil => exact fun _ => rfl
  | cons b bound ih =>
    intro tokens
    cases tokens with
    | nil => rfl
    | cons t rest =>
      obtain ⟨more, cut, -⟩ := upToEnd_first t rest
      have first := h (t :: rest)
      rw [cut] at first
      rw [cut, itemsWithin_cons, itemsWithin_cons]
      split
      · exact congrArg (Recovered.mk [] · []) cut.symm
      · have later := ih (declaration (t :: rest)).rest
        simp only [first, Recovered.cut, later]

theorem sees_items (advances : Advances declaration) (h : SeesToEnd declaration) :
    SeesToEnd (items declaration closes) := by
  intro tokens
  refine (itemsWithin_same (fun _ _ => rfl) advances (Nat.le_refl _) (Nat.le_refl _)
    (upToEnd_length_le tokens)).trans ?_
  exact sees_itemsWithin h tokens tokens

end Recovering

namespace PartReader

theorem sees_statementWithin (bound : List Token) : SeesToEnd (statementWithin bound) := by
  induction bound with
  | nil => exact sees_lift (Reader.sees_ended (by decide) _ _)
  | cons b bound ih =>
    have advances := Recovering.recover_advances (takes_declarationOf (takes_statementWithin bound))
    have declarations := Recovering.sees_recover (sees_declarationOf ih)
    exact sees_statementOf ih (Recovering.sees_items advances declarations)

theorem sees_statement : SeesToEnd statement := by
  intro tokens
  have enough := upToEnd_length_le tokens
  refine (statementWithin_same (Nat.le_refl _) enough _ (Nat.le_refl _)).trans ?_
  exact sees_statementWithin tokens tokens

end PartReader

theorem Program.sees_read : Recovering.SeesToEnd Program.read :=
  Recovering.sees_items PartReader.declaration_advances
    (Recovering.sees_recover (PartReader.sees_declarationOf PartReader.sees_statement))

end Blockscript

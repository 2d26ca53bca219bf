import Blockscript.Proofs.Reading.Expressions

/-!
Readers of statements go forward too, and never past the end. Whatever they note or fail
with is an error of the tokens they were given, and comes in their order. A declaration
takes a token in any case: if it fails without one, going on behind it drops one.
-/
namespace Blockscript

variable {α β : Type}

/-- The error names a token of `tokens`, in the grammar's own words, or tells that they ran out. -/
def Blames (tokens : List Token) (e : Error) : Prop :=
  (∃ t ∈ tokens, ∃ fault, fault.isOwn = true ∧ e = .grammar t fault) ∨
    e = .lexical 0 .endOfInput

/-- On the way from `tokens` to `rest` the errors are come upon in this order: at most one at
    each token that is passed, and any number where the end is next. The end is not passed. -/
inductive Along : List Token → List Token → List Error → Prop where
  | here (rest : List Token) : Along rest rest []
  | past {t : Token} {tokens rest : List Token} {errors : List Error}
      (before : t.kind ≠ .endOfFile) (more : Along tokens rest errors) :
      Along (t :: tokens) rest errors
  | note {t : Token} {tokens rest : List Token} {errors : List Error}
      (before : t.kind ≠ .endOfFile) {fault : GrammarFault} (own : fault.isOwn = true)
      (more : Along tokens rest errors) : Along (t :: tokens) rest (.grammar t fault :: errors)
  | ended {tokens rest : List Token} {errors : List Error}
      (ends : ∀ t ∈ tokens.head?, t.kind = .endOfFile) {fault : GrammarFault}
      (own : fault.isOwn = true) (more : Along tokens rest errors) :
      Along tokens rest (errorAt fault tokens :: errors)

namespace Along

variable {tokens between rest : List Token} {errors errors' : List Error}

theorem append (first : Along tokens between errors) (second : Along between rest errors') :
    Along tokens rest (errors ++ errors') := by
  induction first with
  | here => exact second
  | past before _ ih => exact .past before (ih second)
  | note before own _ ih => exact .note before own (ih second)
  | ended ends own _ ih => exact .ended ends own (ih second)

theorem behind (h : Along tokens rest errors) {before : List Token}
    (known : ∀ t ∈ before, t.kind ≠ .endOfFile) : Along (before ++ tokens) rest errors := by
  induction before with
  | nil => exact h
  | cons t more ih =>
    obtain ⟨first, later⟩ := List.forall_mem_cons.mp known
    exact .past first (ih later)

theorem taken (h : Along tokens rest errors) :
    ∃ used, tokens = used ++ rest ∧ ∀ t ∈ used, t.kind ≠ .endOfFile := by
  induction h with
  | here => exact ⟨[], rfl, by simp⟩
  | @past t _ _ _ before _ ih | @note t _ _ _ before _ _ _ ih =>
    obtain ⟨used, rfl, kinds⟩ := ih
    exact ⟨t :: used, rfl, List.forall_mem_cons.mpr ⟨before, kinds⟩⟩
  | ended _ _ _ ih => exact ih

theorem length_le (h : Along tokens rest errors) : rest.length ≤ tokens.length := by
  obtain ⟨used, rfl, _⟩ := h.taken
  rw [List.length_append]
  omega

theorem blames (h : Along tokens rest errors) : ∀ e ∈ errors, Blames tokens e := by
  have further : ∀ {t : Token} {tokens : List Token} {e : Error},
      Blames tokens e → Blames (t :: tokens) e := by
    rintro t tokens e (⟨u, member, blamed⟩ | ended)
    · exact .inl ⟨u, List.mem_cons_of_mem t member, blamed⟩
    · exact .inr ended
  induction h with
  | here => exact fun e noted => absurd noted List.not_mem_nil
  | past _ _ ih => exact fun e noted => further (ih e noted)
  | note _ own _ ih =>
    refine List.forall_mem_cons.mpr ⟨?_, fun e noted => further (ih e noted)⟩
    exact .inl ⟨_, List.mem_cons_self, _, own, rfl⟩
  | @ended tokens _ _ _ _ own _ ih =>
    refine List.forall_mem_cons.mpr ⟨?_, ih⟩
    cases tokens with
    | nil => exact .inr rfl
    | cons t more => exact .inl ⟨t, List.mem_cons_self, _, own, rfl⟩

end Along

theorem resume_of_end {t : Token} (ends : t.kind = .endOfFile) (rest : List Token) :
    resume (t :: rest) = t :: rest := by
  simp only [resume_cons, Token.isEnd, ends, decide_true, ↓reduceIte]

theorem along_resume_cons {t : Token} (before : t.kind ≠ .endOfFile) (rest : List Token) :
    Along rest (resume (t :: rest)) [] := by
  have known : t.isEnd = false := by simpa [Token.isEnd] using before
  induction rest generalizing t with
  | nil =>
    rw [resume_cons]
    simp only [known, Bool.false_eq_true, ↓reduceIte]
    split
    · exact .here []
    split <;> exact .here []
  | cons next more ih =>
    rw [resume_cons]
    simp only [known, Bool.false_eq_true, ↓reduceIte]
    split
    · exact .here _
    split
    · exact .here _
    by_cases ends : next.kind = .endOfFile
    · rw [resume_of_end ends]
      exact .here _
    · exact .past ends (ih ends (by simpa [Token.isEnd] using ends))

theorem along_resume (tokens : List Token) : Along tokens (resume tokens) [] := by
  cases tokens with
  | nil => exact .here []
  | cons t rest =>
    by_cases ends : t.kind = .endOfFile
    · rw [resume_of_end ends]
      exact .here _
    · exact .past ends (along_resume_cons ends rest)

theorem along_resume_errorAt {fault : GrammarFault} (own : fault.isOwn = true)
    (tokens : List Token) : Along tokens (resume tokens) [errorAt fault tokens] := by
  cases tokens with
  | nil => exact .ended (by simp) own (.here [])
  | cons t rest =>
    by_cases ends : t.kind = .endOfFile
    · rw [resume_of_end ends]
      exact .ended (by simpa using ends) own (.here _)
    · exact .note ends own (along_resume_cons ends rest)

theorem PointsAt.along {used rest : List Token} {e : Error} (h : PointsAt e used rest)
    (known : ∀ t ∈ used, t.kind ≠ .endOfFile) : Along (used ++ rest) (resume rest) [e] := by
  rcases h with ⟨fault, plain, rfl⟩ | ⟨t, fault, plain, last, rfl⟩
  · exact (along_resume_errorAt (GrammarFault.isOwn_of_isPlain plain) rest).behind known
  · obtain ⟨front, rfl⟩ := List.getLast?_eq_some_iff.mp last
    have before : t.kind ≠ .endOfFile := known t (by simp)
    rw [List.append_assoc, List.singleton_append]
    have own := GrammarFault.isOwn_of_isPlain plain
    exact (Along.note before own (along_resume rest)).behind fun u inside =>
      known u (List.mem_append_left [t] inside)

/-- From `tokens`, the reader comes upon its errors one after the other, and takes at least so
    many tokens if it does not fail. If it fails, the error is the last one before it is gone on
    behind it. -/
structure Recovered.Went (least : Nat) (tokens : List Token) (r : Recovered (Except Error α)) :
    Prop where
  along : Along tokens r.rest r.errors
  enough : ∀ value, r.value = .ok value → least + r.rest.length ≤ tokens.length
  failed : ∀ e, r.value = .error e → Along tokens (resume r.rest) (r.errors ++ [e])

namespace PartReader

def Takes (least : Nat) (reader : PartReader α) : Prop :=
  ∀ tokens, (reader tokens).Went least tokens

variable {m n : Nat} {reader reader' : PartReader α} {next next' : α → PartReader β}

theorem went_fewer {tokens : List Token} {r : Recovered (Except Error α)}
    (h : r.Went n tokens) (fewer : m ≤ n) : r.Went m tokens where
  along := h.along
  enough value ok := Nat.le_trans (Nat.add_le_add_right fewer _) (h.enough value ok)
  failed := h.failed

theorem Takes.fewer (h : Takes n reader) (le : m ≤ n) : Takes m reader :=
  fun tokens => went_fewer (h tokens) le

theorem Takes.rest_le (h : Takes n reader) (tokens : List Token) :
    (reader tokens).rest.length ≤ tokens.length :=
  (h tokens).along.length_le

theorem Takes.bind (first : Takes m reader) (second : ∀ value, Takes n (next value)) :
    Takes (m + n) (reader >>= next) := by
  intro tokens
  have went := first tokens
  rcases run : reader tokens with ⟨_ | value, rest, errors⟩
  · rw [bind_of_error run]
    rw [run] at went
    refine ⟨went.along, ?_, ?_⟩
    · intro _ ok; cases ok
    · rintro _ ⟨rfl⟩; exact went.failed _ rfl
  · rw [run] at went
    have later := second value rest
    have passed := went.enough value rfl
    rw [bind_of_ok run]
    refine ⟨went.along.append later.along, ?_, ?_⟩
    · intro value' ok
      have := later.enough value' ok
      simp only at passed ⊢
      omega
    · intro e same
      simp only [List.append_assoc]
      exact went.along.append (later.failed e same)

theorem Takes.bind_zero (first : Takes n reader) (second : ∀ value, Takes 0 (next value)) :
    Takes n (reader >>= next) :=
  first.bind second

theorem Takes.zero_bind (first : Takes 0 reader) (second : ∀ value, Takes n (next value)) :
    Takes n (reader >>= next) :=
  (first.bind second).fewer (by omega)

theorem takes_pure (value : α) : Takes 0 (pure value : PartReader α) := by
  intro tokens
  refine ⟨.here tokens, fun _ _ => Nat.le_of_eq (Nat.zero_add _), ?_⟩
  intro e failed; cases failed

theorem map_eq_bind (f : α → β) (reader : PartReader α) :
    f <$> reader = reader >>= fun value => pure (f value) := by
  funext tokens
  rcases run : reader tokens with ⟨_ | value, rest, errors⟩
  · rw [bind_of_error run]
    simp [Functor.map, ExceptT.map, ExceptT.mk, bind, run, pure]
  · rw [bind_of_ok run]
    simp [Functor.map, ExceptT.map, ExceptT.mk, bind, run, pure, ExceptT.pure]

theorem Takes.map {f : α → β} (h : Takes n reader) : Takes n (f <$> reader) := by
  rw [map_eq_bind]
  exact h.bind fun value => takes_pure (f value)

theorem takes_lift {reader : Reader α} (h : reader.Takes (· ≠ .endOfFile) n) :
    Takes n (liftM reader : PartReader α) := by
  intro tokens
  have went := h tokens
  cases run : reader tokens with
  | ok value rest =>
    rw [run] at went
    obtain ⟨used, rfl, kinds, count⟩ := went
    rw [lift_of_ok run]
    refine ⟨(Along.here rest).behind kinds, ?_, ?_⟩
    · intro _ _
      rw [List.length_append]
      exact Nat.add_le_add_right count _
    · intro e failed; cases failed
  | error e rest =>
    rw [run] at went
    obtain ⟨used, rfl, kinds, points⟩ := went
    rw [lift_of_error run]
    refine ⟨(Along.here rest).behind kinds, ?_, ?_⟩
    · intro _ ok; cases ok
    · rintro _ ⟨rfl⟩; exact points.along kinds

end PartReader

namespace Reader

abbrev TakesBeforeEnd (least : Nat) (reader : Reader α) : Prop :=
  Takes (fun k => k ≠ .endOfFile) least reader

theorem Takes.beforeEnd {n : Nat} {reader : Reader α} (h : TakesExpression n reader) :
    TakesBeforeEnd n reader := by
  refine h.mono (Nat.le_refl n) ?_
  rintro k known rfl
  cases known

theorem takes_expression_beforeEnd : TakesBeforeEnd 1 expression := takes_expression.beforeEnd

theorem takes_expect_beforeEnd {kind : Kind} (known : kind ≠ .endOfFile) {fault : GrammarFault}
    (own : fault.isPlain = true) : TakesBeforeEnd 1 (expect kind fault) :=
  takes_expect (by exact known) own

theorem takes_accept_beforeEnd {kind : Kind} (known : kind ≠ .endOfFile) :
    TakesBeforeEnd 0 (accept kind) :=
  takes_accept (by exact known)

theorem takes_last {kind : Kind} (known : kind ≠ .endOfFile) {fault : GrammarFault}
    (own : fault.isPlain = true) (value : α) :
    TakesBeforeEnd 1 (do let _ ← expect kind fault; return value) :=
  (takes_expect_beforeEnd known own).bind_zero fun _ => takes_pure value

def ended (kind : Kind) (fault : GrammarFault) (build : Expr → α) : Reader α := do
  let e ← expression
  let _ ← expect kind fault
  return build e

theorem takes_ended {kind : Kind} (known : kind ≠ .endOfFile) {fault : GrammarFault}
    (own : fault.isPlain = true) (build : Expr → α) :
    TakesBeforeEnd 1 (ended kind fault build) :=
  takes_expression_beforeEnd.bind_zero fun e =>
    (takes_last known own (build e)).fewer (Nat.zero_le 1)

theorem takes_evaluated : TakesBeforeEnd 1 evaluated := takes_ended (by decide) rfl _

theorem takes_printed : TakesBeforeEnd 1 printed := takes_ended (by decide) rfl _

theorem takes_declaration : TakesBeforeEnd 1 declaration := by
  have closing : ∀ name initial, TakesBeforeEnd 1 (do
      let _ ← expect .semicolon .semicolonAfterVariable
      return Stmt.declare name initial) := fun name initial => takes_last (by decide) rfl _
  unfold declaration
  refine ((takes_expect_beforeEnd (by decide) rfl).fewer (Nat.zero_le 1)).zero_bind fun name => ?_
  refine (takes_accept_beforeEnd (by decide)).zero_bind fun assigned => ?_
  cases assigned with
  | true =>
    exact (takes_expression_beforeEnd.fewer (Nat.zero_le 1)).map.zero_bind (closing name)
  | false => exact (takes_pure none).zero_bind (closing name)

theorem takes_condition {before after : GrammarFault} (own : before.isPlain = true)
    (own' : after.isPlain = true) : TakesExpression 1 (condition before after) := by
  have opening : TakesExpression 1 (expect .leftParen before) := takes_expect (by rfl) own
  have close : TakesExpression 1 (expect .rightParen after) := takes_expect (by rfl) own'
  have closing := fun e : Expr => close.bind_zero fun _ => takes_pure e
  exact opening.bind_zero fun _ => (takes_expression.fewer (Nat.zero_le 1)).zero_bind fun e =>
    (closing e).fewer (Nat.zero_le 1)

theorem takes_condition_beforeEnd {before after : GrammarFault} (own : before.isPlain = true)
    (own' : after.isPlain = true) : TakesBeforeEnd 1 (condition before after) :=
  (takes_condition own own').beforeEnd

theorem takes_initialClause : TakesBeforeEnd 0 initialClause := by
  unfold initialClause
  refine (takes_accept_beforeEnd (by decide)).bind_zero fun empty => ?_
  cases empty with
  | true => exact takes_pure none
  | false =>
    refine (takes_accept_beforeEnd (by decide)).bind_zero fun declared => ?_
    cases declared with
    | true => exact (takes_declaration.bind fun s => takes_pure (some s)).fewer (Nat.zero_le _)
    | false => exact (takes_evaluated.bind fun s => takes_pure (some s)).fewer (Nat.zero_le _)

theorem takes_conditionClause : TakesBeforeEnd 0 conditionClause := by
  have closing : ∀ e : Expr, TakesBeforeEnd 0 (do
      let _ ← expect .semicolon .semicolonAfterCondition
      return e) := fun e => (takes_last (by decide) rfl e).fewer (Nat.zero_le 1)
  unfold conditionClause
  refine (takes_nextIs .semicolon).bind_zero fun empty => ?_
  cases empty with
  | true => exact (takes_pure _).bind closing
  | false => exact (takes_expression_beforeEnd.bind closing).fewer (Nat.zero_le _)

theorem takes_stepClause : TakesBeforeEnd 0 stepClause := by
  have closing : ∀ e : Option Expr, TakesBeforeEnd 0 (do
      let _ ← expect .rightParen .parenAfterClauses
      return e) := fun e => (takes_last (by decide) rfl e).fewer (Nat.zero_le 1)
  unfold stepClause
  refine (takes_nextIs .rightParen).bind_zero fun empty => ?_
  cases empty with
  | true => exact (takes_pure none).bind closing
  | false => exact (takes_expression_beforeEnd.map.bind closing).fewer (Nat.zero_le _)

end Reader

namespace PartReader

variable {n : Nat} {inner : PartReader Stmt}

theorem takes_forStatement (h : Takes 1 inner) : Takes 1 (forStatement inner) :=
  (takes_lift ((Reader.takes_expect_beforeEnd (by decide) rfl).fewer (Nat.zero_le 1))).zero_bind
    fun _ => (takes_lift Reader.takes_initialClause).zero_bind
    fun _ => (takes_lift Reader.takes_conditionClause).zero_bind
    fun _ => (takes_lift Reader.takes_stepClause).zero_bind
    fun _ => h.bind_zero fun _ => takes_pure _

theorem takes_ifStatement (h : Takes 1 inner) : Takes 1 (ifStatement inner) := by
  unfold ifStatement
  refine (takes_lift ((Reader.takes_condition_beforeEnd rfl rfl).fewer (Nat.zero_le 1))).zero_bind
    fun c => ?_
  refine h.bind_zero fun accepted => ?_
  refine (takes_lift (Reader.takes_accept_beforeEnd (by decide))).bind_zero fun more => ?_
  cases more with
  | true => exact (h.fewer (Nat.zero_le 1)).map.bind_zero fun rejected => takes_pure _
  | false => exact (takes_pure none).bind_zero fun rejected => takes_pure _

theorem takes_whileStatement (h : Takes 1 inner) : Takes 1 (whileStatement inner) :=
  (takes_lift ((Reader.takes_condition_beforeEnd rfl rfl).fewer (Nat.zero_le 1))).zero_bind fun _ =>
    h.bind_zero fun _ => takes_pure _

end PartReader

namespace Recovering

def Takes (reader : Recovering α) : Prop :=
  ∀ tokens, Along tokens (reader tokens).rest (reader tokens).errors

theorem Takes.taken {reader : Recovering α} (h : Takes reader) (tokens : List Token) :
    ∃ used, tokens = used ++ (reader tokens).rest ∧ ∀ t ∈ used, t.kind ≠ .endOfFile :=
  (h tokens).taken

theorem Takes.noted {reader : Recovering α} (h : Takes reader) (tokens : List Token) :
    ∀ e ∈ (reader tokens).errors, Blames tokens e :=
  (h tokens).blames

/-- The reader takes a token unless the end is next. -/
def Advances (reader : Recovering α) : Prop :=
  ∀ t rest, t.kind ≠ .endOfFile → (reader (t :: rest)).rest.length < (t :: rest).length

theorem recover_of_ok {reader : PartReader α} {tokens rest : List Token} {value : α}
    {errors : List Error} (h : reader tokens = ⟨.ok value, rest, errors⟩) :
    recover reader tokens = ⟨some value, rest, errors⟩ := by
  simp [recover, ExceptT.run, h]

theorem recover_of_error {reader : PartReader α} {tokens rest : List Token} {e : Error}
    {errors : List Error} (h : reader tokens = ⟨.error e, rest, errors⟩) :
    recover reader tokens = ⟨none, resume rest, errors ++ [e]⟩ := by
  simp [recover, ExceptT.run, h]

theorem takes_recover {n : Nat} {reader : PartReader α} (h : reader.Takes n) :
    Takes (recover reader) := by
  intro tokens
  have went := h tokens
  rcases run : reader tokens with ⟨e | value, rest, errors⟩
  · rw [run] at went
    rw [recover_of_error run]
    exact went.failed e rfl
  · rw [run] at went
    rw [recover_of_ok run]
    exact went.along

theorem recover_advances {reader : PartReader α} (h : reader.Takes 1) :
    Advances (recover reader) := by
  intro t rest before
  have went := h (t :: rest)
  rcases run : reader (t :: rest) with ⟨e | value, rest', errors⟩
  · rw [recover_of_error run]
    rw [run] at went
    obtain ⟨used, split, kinds⟩ := went.along.taken
    cases used with
    | nil =>
      obtain rfl : t :: rest = rest' := split
      exact Nat.lt_succ_of_le (along_resume_cons before rest).length_le
    | cons u used =>
      have lengths := congrArg List.length split
      have := resume_length_le rest'
      simp only [List.length_cons, List.length_append] at lengths ⊢
      omega
  · rw [recover_of_ok run]
    rw [run] at went
    have := went.enough value rfl
    simp only at this ⊢
    omega

theorem itemsWithin_cons (declaration : Recovering (Option Stmt)) (closes : Kind → Bool)
    (b : Token) (bound : List Token) (t : Token) (rest : List Token) :
    itemsWithin declaration closes (b :: bound) (t :: rest) =
      if t.isEnd || closes t.kind then ⟨[], t :: rest, []⟩
      else
        let first := declaration (t :: rest)
        let more := itemsWithin declaration closes bound first.rest
        ⟨first.value.toList ++ more.value, more.rest, first.errors ++ more.errors⟩ := by
  simp only [itemsWithin, bind_apply]
  split
  · rfl
  · simp [pure]

theorem itemsWithin_stops (declaration : Recovering (Option Stmt)) (closes : Kind → Bool)
    (bound : List Token) : itemsWithin declaration closes bound [] = ⟨[], [], []⟩ := by
  cases bound <;> rfl

theorem takes_itemsWithin {declaration : Recovering (Option Stmt)} (h : Takes declaration)
    (closes : Kind → Bool) (bound : List Token) :
    Takes (itemsWithin declaration closes bound) := by
  induction bound with
  | nil => exact fun tokens => .here tokens
  | cons b bound ih =>
    intro tokens
    cases tokens with
    | nil => exact .here []
    | cons t rest =>
      rw [itemsWithin_cons]
      split
      · exact .here _
      · exact (h (t :: rest)).append (ih _)

theorem takes_items {declaration : Recovering (Option Stmt)} (h : Takes declaration)
    {closes : Kind → Bool} : Takes (items declaration closes) :=
  fun tokens => takes_itemsWithin h closes tokens tokens

end Recovering

namespace PartReader

variable {n : Nat} {inner : PartReader Stmt} {body : Recovering (List Stmt)}

theorem takes_recovering {reader : Recovering α} (h : reader.Takes) :
    Takes 0 (liftM reader : PartReader α) := by
  intro tokens
  rw [lift_recovering]
  refine ⟨h tokens, ?_, ?_⟩
  · intro _ _
    rw [Nat.zero_add]
    exact (h tokens).length_le
  · intro e failed; cases failed

theorem takes_closing : Takes 1 (liftM (Reader.expect .rightBrace .braceAfterBlock) :
    PartReader Token) := by
  intro tokens
  cases run : Reader.expect .rightBrace .braceAfterBlock tokens with
  | ok value rest =>
    obtain ⟨rfl, closes⟩ := Reader.expect_eq_ok run
    rw [lift_of_ok run]
    refine ⟨.past (by simp [closes]) (.here rest), ?_, ?_⟩
    · exact fun _ _ => Nat.le_of_eq (Nat.add_comm 1 _)
    · intro e failed; cases failed
  | error e rest =>
    obtain ⟨rfl, rfl⟩ := Reader.expect_eq_error run
    rw [lift_of_error run]
    refine ⟨.here _, ?_, ?_⟩
    · intro _ ok; cases ok
    · rintro _ ⟨rfl⟩; exact along_resume_errorAt rfl _

theorem takes_blockStatement (h : body.Takes) : Takes 1 (blockStatement body) :=
  (takes_recovering h).zero_bind fun _ => takes_closing.bind_zero fun _ => takes_pure _

theorem Takes.cons {reader : PartReader α} (h : Takes n reader) {t : Token}
    (before : t.kind ≠ .endOfFile) (rest : List Token) :
    (reader rest).Went (n + 1) (t :: rest) where
  along := .past before (h rest).along
  enough value ok := by
    have := (h rest).enough value ok
    rw [List.length_cons]
    omega
  failed e same := .past before ((h rest).failed e same)

theorem takes_statementOf (h : Takes 1 inner) (h' : body.Takes) :
    Takes 1 (statementOf inner body) := by
  intro tokens
  cases tokens with
  | nil => exact takes_lift Reader.takes_evaluated []
  | cons t rest =>
    simp only [statementOf]
    split
    · rename_i word
      exact went_fewer ((takes_forStatement h).cons (by simp [word]) rest) (by decide)
    · rename_i word
      exact went_fewer ((takes_ifStatement h).cons (by simp [word]) rest) (by decide)
    · rename_i word
      exact went_fewer ((takes_whileStatement h).cons (by simp [word]) rest) (by decide)
    · rename_i word
      exact went_fewer ((takes_lift Reader.takes_printed).cons (by simp [word]) rest) (by decide)
    · rename_i word
      exact went_fewer ((takes_blockStatement h').cons (by simp [word]) rest) (by decide)
    · exact takes_lift Reader.takes_evaluated _

theorem takes_declarationOf (h : Takes 1 inner) : Takes 1 (declarationOf inner) := by
  intro tokens
  cases tokens with
  | nil => exact h []
  | cons t rest =>
    simp only [declarationOf]
    split
    · rename_i word
      have inside := (takes_lift Reader.takes_declaration).cons (t := t) (by simp [word]) rest
      exact went_fewer inside (by decide)
    · exact h _

theorem takes_statementWithin (bound : List Token) : Takes 1 (statementWithin bound) := by
  induction bound with
  | nil => exact takes_lift Reader.takes_evaluated
  | cons b bound ih =>
    exact takes_statementOf ih
      (Recovering.takes_items (Recovering.takes_recover (takes_declarationOf ih)))

theorem takes_statement : Takes 1 statement := fun tokens => takes_statementWithin tokens tokens

theorem takes_declaration : Takes 1 declaration := takes_declarationOf takes_statement

end PartReader

end Blockscript

import Blockscript.Proofs.Reading.Unended

/-!
Reading where one semicolon is missing. The error is found right behind the statement, so what is
given up is told by the tokens there. It stays the only one, and every block ends at its own
brace, just if what is left then are whole declarations of the same list.
-/
namespace Blockscript

open Grammar

variable {α : Type}

namespace Reader

variable {t : Token} {kind : Kind}

theorem last_of_ne (other : t.kind ≠ kind) (fault : GrammarFault) (value : α) (rest : List Token) :
    (do let _ ← expect kind fault; return value : Reader α) (t :: rest) =
      .error (.grammar t fault) (t :: rest) := by
  have failed : expect kind fault (t :: rest) = .error (.grammar t fault) (t :: rest) := by
    simp [expect, other, fail, errorAt]
  exact bind_of_error failed

variable (apart : t.kind.joins? = none) (other : t.kind ≠ .semicolon) (rest : List Token)

include apart other

theorem ended_missing {ts : List Token} {e : Expr} (value : Whole ts e) (fault : GrammarFault)
    (build : Expr → α) :
    ended .semicolon fault build (ts ++ t :: rest) = .error (.grammar t fault) (t :: rest) := by
  unfold ended
  rw [bind_of_ok (expression_complete value apart rest)]
  exact last_of_ne other fault _ rest

theorem bare_missing {name : Token} (target : name.kind = .identifier) :
    declaration (name :: t :: rest) =
      .error (.grammar t .semicolonAfterVariable) (t :: rest) := by
  have unassigned : t.kind ≠ .equal := by
    intro same
    rw [same] at apart
    cases apart
  unfold declaration
  rw [bind_of_ok (expect_of_eq target _ _), bind_of_ok (accept_of_ne (by simpa using unassigned))]
  simp only [Bool.false_eq_true, ↓reduceIte, pure_bind]
  exact last_of_ne other _ _ rest

theorem initial_missing {name op : Token} {ts : List Token} {e : Expr}
    (target : name.kind = .identifier) (known : op.kind = .equal) (value : Whole ts e) :
    declaration (name :: op :: (ts ++ t :: rest)) =
      .error (.grammar t .semicolonAfterVariable) (t :: rest) := by
  have read := expression_complete value apart rest
  unfold declaration
  rw [bind_of_ok (expect_of_eq target _ _), bind_of_ok (accept_of_eq known _)]
  simp only [↓reduceIte]
  rw [bind_of_ok (map_of_ok read)]
  exact last_of_ne other _ _ rest

end Reader

theorem Grammar.Declaration.begins {ts : List Token} {s : Stmt} (h : Declaration ts s) :
    (∃ t more, ts = t :: more ∧ t.kind.joins? = none ∧ t.kind ≠ .semicolon) ∨
      ∃ ws stop e, ts = ws ++ [stop] ∧ Whole ws e ∧ stop.kind = .semicolon := by
  cases h with
  | «variable» declared =>
    obtain ⟨t, more, rfl, starts⟩ := declared.first
    exact .inl ⟨t, more, rfl, by rw [starts]; rfl, by simp [starts]⟩
  | statement stated =>
    cases stated with
    | simple only =>
      cases only with
      | print starts => exact .inl ⟨_, _, rfl, by rw [starts]; rfl, by simp [starts]⟩
      | expression value stops => exact .inr ⟨_, _, _, rfl, value, stops⟩
    | block opens => exact .inl ⟨_, _, rfl, by rw [opens]; rfl, by simp [opens]⟩
    | whileLoop starts => exact .inl ⟨_, _, rfl, by rw [starts]; rfl, by simp [starts]⟩
    | forLoop starts => exact .inl ⟨_, _, rfl, by rw [starts]; rfl, by simp [starts]⟩
    | ifElse starts => exact .inl ⟨_, _, rfl, by rw [starts]; rfl, by simp [starts]⟩
    | ifOnly starts => exact .inl ⟨_, _, rfl, by rw [starts]; rfl, by simp [starts]⟩

theorem not_bounding {t : Token} {more : List Token} (starts : t.kind.beginsEnded = true)
    (kinds : ∀ t ∈ more, t.kind.inExpression = true) :
    ∀ x ∈ t :: more, x.kind ∉ [Kind.semicolon, .leftBrace, .rightBrace, .endOfFile] := by
  refine List.forall_mem_cons.mpr ⟨not_bounding_of_beginsEnded starts, ?_⟩
  intro x member
  exact not_bounding_of_beginsEnded (beginsEnded_of_inExpression (kinds x member))

def BadRun.ofExpression (t : Token) (more : List Token) (stop : Token)
    (starts : t.kind.beginsEnded = true) (kinds : ∀ t ∈ more, t.kind.inExpression = true)
    (stops : stop.kind = .semicolon) (malformed : ∀ s, ¬ Declaration (t :: more ++ [stop]) s) :
    BadRun where
  body := t :: more
  stop := stop
  stops := stops
  plain := not_bounding starts kinds
  inside t member := (plain_of_inExpression (kinds t member)).1
  first := by
    rintro _ ⟨rfl⟩
    constructor
    · intro word
      rw [word] at starts
      cases starts
    · intro word
      rw [word] at starts
      cases starts
  malformed := malformed

namespace Unended

open PartReader

variable {us : List Token} {stop : Token}

theorem Ended.missing (h : Ended us stop) {t : Token} (apart : t.kind.joins? = none)
    (other : t.kind ≠ .semicolon) (rest : List Token) :
    ∃ e, recover PartReader.declaration (us ++ t :: rest) = ⟨none, resume (t :: rest), [e]⟩ := by
  have failed : ∃ e, PartReader.declaration (us ++ t :: rest) = ⟨.error e, t :: rest, []⟩ := by
    cases h with
    | @print word _ ts _ starts value =>
      have missing : Reader.printed (ts ++ t :: rest) = .error _ _ :=
        Reader.ended_missing apart other rest value .semicolonAfterValue Stmt.print
      rw [List.cons_append, declaration_cons, if_neg (by simp [starts]), statement_cons, starts]
      exact ⟨_, lift_of_error missing⟩
    | expression value =>
      have missing : Reader.evaluated (us ++ t :: rest) = .error _ _ :=
        Reader.ended_missing apart other rest value .semicolonAfterExpression Stmt.expression
      obtain ⟨first, more, rfl, known, -⟩ := Reader.whole_first value
      have plain : statement (first :: (more ++ t :: rest)) =
          (Reader.evaluated : PartReader Stmt) (first :: (more ++ t :: rest)) := by
        refine statement_plain ?_
        rintro _ ⟨rfl⟩
        exact plain_of_inExpression known
      rw [List.cons_append, declaration_cons, if_neg (endsItem_of_inExpression known).2, plain]
      exact ⟨_, lift_of_error missing⟩
    | bare starts target =>
      have missing := Reader.bare_missing apart other rest target
      rw [List.cons_append, declaration_cons, if_pos starts]
      exact ⟨_, lift_of_error missing⟩
    | initial starts target known value =>
      have missing := Reader.initial_missing apart other rest target known value
      rw [List.cons_append, declaration_cons, if_pos starts]
      exact ⟨_, lift_of_error missing⟩
  obtain ⟨e, failed⟩ := failed
  exact ⟨e, Recovering.recover_of_error failed⟩

theorem Ended.allMatched (h : Ended us stop) (rest : List Token) :
    (Call.declaration (us ++ rest)).AllMatched := by
  obtain ⟨t, more, rfl, starts, -⟩ := h.kinds
  have none : (Call.statement (t :: (more ++ rest))).calls = [] := by
    simp only [Call.calls]
    split
    · rename_i word; rw [word] at starts; cases starts
    · rename_i word; rw [word] at starts; cases starts
    · rename_i word; rw [word] at starts; cases starts
    · rename_i word; rw [word] at starts; cases starts
    · rfl
  rw [Call.allMatched_iff]
  refine ⟨trivial, ?_⟩
  intro d made
  simp only [List.cons_append, Call.calls] at made
  split at made
  · cases made
  · obtain rfl : d = Call.statement (t :: (more ++ rest)) := List.mem_singleton.mp made
    rw [Call.allMatched_iff, none]
    exact ⟨trivial, List.forall_mem_nil _⟩

/-- An expression behind the statement may go on with it: to the semicolon of that expression, or
    to an error in front of it. -/
theorem Ended.recovered (h : Ended us stop) {vs : List Token} {after : List Stmt}
    (later : Grammar.Declarations vs after) {last : Token}
    (ends : last.isEnd = true ∨ last.kind = .rightBrace) (rest : List Token) :
    (∃ e, recover PartReader.declaration (us ++ (vs ++ last :: rest)) =
      ⟨none, resume (vs ++ last :: rest), [e]⟩) ∨
    ∃ s vs' after', PartReader.declaration (us ++ (vs ++ last :: rest)) =
      ⟨.ok s, vs' ++ last :: rest, []⟩ ∧ Grammar.Declarations vs' after' := by
  have notElse : elseNext (last :: rest) = false := by
    rcases ends with ended | closed
    · simp [elseNext, of_decide_eq_true ended]
    · simp [elseNext, closed]
  cases later with
  | nil =>
    left
    have plain : last.kind.joins? = none ∧ last.kind ≠ .semicolon := by
      rcases ends with ended | closed
      · rw [of_decide_eq_true ended]; exact ⟨rfl, by simp⟩
      · rw [closed]; exact ⟨rfl, by simp⟩
    exact h.missing plain.1 plain.2 rest
  | @cons ts vs' s more first others =>
    rcases first.begins with ⟨t, ts, rfl, apart, other⟩ | ⟨ws, stop', e, rfl, value, stops⟩
    · left
      obtain ⟨e, gave⟩ := h.missing apart other (ts ++ (vs' ++ last :: rest))
      exact ⟨e, by simpa using gave⟩
    · obtain ⟨t, ts, rfl, starts, kinds⟩ := h.kinds
      have known := derives_kinds value.1
      have inside : ∀ x ∈ ts ++ ws, x.kind.inExpression = true :=
        List.forall_mem_append.mpr ⟨kinds, known⟩
      by_cases joined : ∃ s, Declaration (t :: (ts ++ ws) ++ [stop']) s
      · right
        obtain ⟨s, derived⟩ := joined
        have read := declaration_derived derived (others.spoilt.elseNext notElse)
        exact ⟨s, vs', more, by simpa using read, others⟩
      · left
        have malformed := not_exists.mp joined
        obtain ⟨e, gave, -⟩ :=
          (BadRun.ofExpression t (ts ++ ws) stop' starts inside stops malformed).recovered
            (vs' ++ last :: rest)
        have bounded := fun x member =>
          not_bounding_of_beginsEnded (beginsEnded_of_inExpression (known x member))
        have landed : resume (ws ++ stop' :: (vs' ++ last :: rest)) = vs' ++ last :: rest :=
          BadRun.resume_run stops bounded fun x member =>
            (plain_of_inExpression (known x (List.mem_of_mem_tail member))).1
        refine ⟨e, ?_⟩
        simpa [BadRun.tokens, BadRun.ofExpression, landed] using gave

/-- A list of declarations in which the semicolon of one is missing, what follows the place, and
    what stands outside of the list. -/
inductive Gap (closes : Kind → Bool) : List Token → List Token → List Token → Prop where
  | here {ts us vs : List Token} {stop last : Token} {before after : List Stmt}
      (earlier : Grammar.Declarations ts before) (ended : Ended us stop)
      (later : Grammar.Declarations vs after) (ends : (last.isEnd || closes last.kind) = true)
      (rest : List Token) :
      Gap closes (ts ++ (us ++ (vs ++ last :: rest))) (vs ++ last :: rest) (last :: rest)

section

variable {closes : Kind → Bool} {tokens back outside : List Token}
  (only : ∀ k, closes k = true → k = .rightBrace)

include only

theorem end_or_brace {t : Token} (ends : (t.isEnd || closes t.kind) = true) :
    t.isEnd = true ∨ t.kind = .rightBrace :=
  (Bool.or_eq_true_iff.mp ends).imp_right (only _)

theorem Gap.closing (gap : Gap closes tokens back outside) :
    closing 0 tokens = outside ∧ closing 0 back = outside := by
  cases gap with
  | here earlier ended later ends rest =>
    have last := closing_end (end_or_brace only ends) rest
    rw [earlier.balanced, ended.balanced, later.balanced, last]
    exact ⟨rfl, rfl⟩

/-- Either the statement goes on and all is well, or it costs one error. -/
theorem Gap.outcome (gap : Gap closes tokens back outside) :
    (Call.items closes tokens).Reads outside [] ∨
    ∃ e before, Recovering.items (recover PartReader.declaration) closes tokens =
      (Recovering.items (recover PartReader.declaration) closes (resume back)).behind before [e] ∧
      ((Call.items closes (resume back)).AllMatched → (Call.items closes tokens).AllMatched) := by
  cases gap with
  | @here ts us vs _ last before after earlier ended later ends rest =>
    obtain ⟨t, more, rfl, begins, -⟩ := ended.kinds
    have starts := endsItem_of_beginsEnded begins
    have notElse : elseNext (t :: more ++ (vs ++ last :: rest)) = false :=
      elseNext_of_endsItem starts _
    have around : ∀ rest', (Call.items closes (ts ++ (t :: more ++ (vs ++ last :: rest)))).Around
        rest' (.items closes (t :: more ++ (vs ++ last :: rest))) rest' := fun _ =>
      Call.around_later only earlier notElse
    rcases ended.recovered later (end_or_brace only ends) rest with
      ⟨e, gave⟩ | ⟨s, vs', after', read, later'⟩
    · right
      have step := Recovering.items_step only starts gave rfl
      refine ⟨e, before, ?_, ?_⟩
      · rw [Recovering.items_derived earlier only notElse]
        exact congrArg (fun r => r.behind before []) step
      · intro all
        refine (around _).matched _ ⟨_, step⟩ ?_
        rw [Call.allMatched_iff]
        refine ⟨trivial, ?_⟩
        intro d made
        rw [List.cons_append, Call.calls_items only starts] at made
        rcases List.mem_cons.mp made with rfl | made
        · exact ended.allMatched _
        · obtain rfl := List.mem_singleton.mp made
          rw [List.cons_append] at gave
          rw [gave]
          exact all
    · left
      have inner :
          (Call.items closes (t :: more ++ (vs ++ last :: rest))).Reads (last :: rest) [] :=
        (Call.around_item only starts later' ends).reads [] ⟨s, read⟩
      exact (around _).reads [] inner

end

end Unended

end Blockscript

import Blockscript.Proofs.Reading.Spoilt

/-!
Reading a bad run fails inside it, whatever stands behind it, and reading goes on just
behind its semicolon. Until a reader fails it stays inside expressions, so it has not come
to the semicolon yet.
-/
namespace Blockscript

open Grammar

variable {α β : Type}

namespace Reader

variable {n : Nat} {reader : Reader α} {next : α → Reader β}

/-- If the reader fails, it has taken only what may stand in an expression. -/
def Stays (reader : Reader α) : Prop :=
  ∀ tokens e rest, reader tokens = .error e rest →
    ∃ used, tokens = used ++ rest ∧ (∀ t ∈ used, t.kind.inExpression = true) ∧
      PointsAt e used rest

theorem Takes.stays (h : TakesExpression n reader) : Stays reader := by
  intro tokens e rest run
  have went := h tokens
  rw [run] at went
  exact went

theorem Takes.bind_stays (first : TakesExpression n reader)
    (second : ∀ value, Stays (next value)) : Stays (reader >>= next) := by
  intro tokens e rest run
  have went := first tokens
  cases read : reader tokens with
  | ok value between =>
    rw [read] at went
    rw [bind_of_ok read] at run
    obtain ⟨used, rfl, kinds, _⟩ := went
    obtain ⟨more, rfl, kinds', points⟩ := second value between e rest run
    refine ⟨used ++ more, by rw [List.append_assoc], ?_, pointsAt_append used points⟩
    simpa [or_imp, forall_and] using ⟨kinds, kinds'⟩
  | error e' between =>
    rw [bind_of_error read] at run
    obtain ⟨rfl, rfl⟩ := run
    exact first.stays tokens _ _ read

theorem stays_last (kind : Kind) {fault : GrammarFault} (own : fault.isPlain = true) (value : α) :
    Stays (do let _ ← expect kind fault; return value) := by
  intro tokens e rest run
  cases tokens with
  | nil =>
    obtain ⟨rfl, rfl⟩ := run
    exact ⟨[], rfl, by simp, .inl ⟨fault, own, rfl⟩⟩
  | cons t more =>
    by_cases same : t.kind = kind
    -- nothing can fail behind the last token, so it need not be one of an expression
    · rw [bind_of_ok (expect_of_eq same _ _)] at run
      cases run
    · have failed : expect kind fault (t :: more) =
          .error (errorAt fault (t :: more)) (t :: more) := by
        simp [expect, same, fail]
      rw [bind_of_error failed] at run
      obtain ⟨rfl, rfl⟩ := run
      exact ⟨[], rfl, by simp, .inl ⟨fault, own, rfl⟩⟩

theorem stays_ended (kind : Kind) {fault : GrammarFault} (own : fault.isPlain = true)
    (build : Expr → α) : Stays (ended kind fault build) :=
  takes_expression.bind_stays fun _ => stays_last _ own _

theorem stays_declaration : Stays declaration := by
  have named : TakesExpression 1 (expect .identifier .variableName) := takes_expect (by rfl) rfl
  have assigned : TakesExpression 0 (accept .equal) := takes_accept (by rfl)
  unfold declaration
  refine named.bind_stays fun name => assigned.bind_stays fun assigned => ?_
  cases assigned with
  | true => exact takes_expression.map.bind_stays fun initial => stays_last _ rfl _
  | false => exact (takes_pure none).bind_stays fun initial => stays_last _ rfl _

end Reader

section

variable {left rest : List Token} {stop : Token}

theorem before_semicolon {used between : List Token} (stops : stop.kind = .semicolon)
    (split : left ++ stop :: rest = used ++ between)
    (kinds : ∀ t ∈ used, t.kind.inExpression = true) :
    ∃ after, left = used ++ after ∧ between = after ++ stop :: rest := by
  rcases List.append_eq_append_iff.mp split with ⟨more, rfl, same⟩ | ⟨after, rfl, same⟩
  · cases more with
    | nil => exact ⟨[], by simp, by simpa using same.symm⟩
    | cons t more =>
      obtain ⟨rfl, _⟩ := List.cons.inj same
      have known := kinds stop (by simp)
      simp [stops, Kind.inExpression] at known
  · exact ⟨after, rfl, same⟩

theorem first_semicolon {used between : List Token} {stop' : Token}
    (split : left ++ stop :: rest = used ++ stop' :: between) (stops : stop.kind = .semicolon)
    (stops' : stop'.kind = .semicolon) (plain : ∀ t ∈ left, t.kind ≠ .semicolon)
    (kinds : ∀ t ∈ used, t.kind.inExpression = true) :
    left = used ∧ stop = stop' ∧ rest = between := by
  obtain ⟨after, rfl, same⟩ := before_semicolon stops split kinds
  cases after with
  | nil =>
    obtain ⟨rfl, rfl⟩ := List.cons.inj same
    exact ⟨by simp, rfl, rfl⟩
  | cons t after =>
    obtain ⟨rfl, _⟩ := List.cons.inj same
    exact absurd stops' (plain stop' (by simp))

/-- Reading failed before the semicolon, and the error points there. -/
def GivesUp (left : List Token) (stop : Token) (rest : List Token)
    (r : Recovered (Except Error α)) : Prop :=
  ∃ t ∈ left ++ [stop], ∃ fault after,
    r = ⟨.error (.grammar t fault), after ++ stop :: rest, []⟩ ∧ after <:+ left

theorem GivesUp.bind {reader : PartReader α} {next : α → PartReader β} {tokens : List Token}
    (h : GivesUp left stop rest (reader tokens)) :
    GivesUp left stop rest ((reader >>= next) tokens) := by
  obtain ⟨t, member, fault, after, run, suffix⟩ := h
  exact ⟨t, member, fault, after, PartReader.bind_of_error run, suffix⟩

theorem GivesUp.behind {r : Recovered (Except Error α)} (h : GivesUp left stop rest r)
    (before : List Token) : GivesUp (before ++ left) stop rest r := by
  obtain ⟨t, member, fault, after, same, suffix⟩ := h
  refine ⟨t, ?_, fault, after, same, suffix.trans (List.suffix_append before left)⟩
  rw [List.append_assoc]
  exact List.mem_append_right before member

theorem pointsAt_run {used after : List Token} {e : Error}
    (h : PointsAt e used (after ++ stop :: rest)) :
    ∃ t ∈ (used ++ after) ++ [stop], ∃ fault, e = .grammar t fault := by
  rcases h with ⟨fault, -, same⟩ | ⟨t, fault, -, last, same⟩
  · cases after with
    | nil => exact ⟨stop, by simp, fault, same⟩
    | cons t after => exact ⟨t, by simp, fault, same⟩
  · exact ⟨t, by simp [List.mem_of_getLast? last], fault, same⟩

theorem Reader.Stays.givesUp {reader : Reader α} (h : reader.Stays) {e : Error}
    {between : List Token} (stops : stop.kind = .semicolon)
    (run : reader (left ++ stop :: rest) = .error e between) :
    GivesUp left stop rest ((liftM reader : PartReader α) (left ++ stop :: rest)) := by
  rw [PartReader.lift_of_error run]
  obtain ⟨used, split, kinds, points⟩ := h _ e between run
  obtain ⟨after, rfl, rfl⟩ := before_semicolon stops split kinds
  obtain ⟨t, member, fault, rfl⟩ := pointsAt_run points
  exact ⟨t, member, fault, after, rfl, List.suffix_append used after⟩

variable (stops : stop.kind = .semicolon) (plain : ∀ t ∈ left, t.kind ≠ .semicolon)

include stops plain

theorem ended_run (fault : GrammarFault) (own : fault.isPlain = true) {build : Expr → α} :
    (∃ e, Whole left e) ∨
    GivesUp left stop rest
      ((Reader.ended .semicolon fault build : PartReader α) (left ++ stop :: rest)) := by
  cases run : Reader.ended .semicolon fault build (left ++ stop :: rest) with
  | ok value between =>
    obtain ⟨ts, stop', e, split, whole, stops', rfl⟩ := Reader.ended_sound run
    obtain ⟨rfl, rfl, rfl⟩ := first_semicolon split stops stops' plain (derives_kinds whole.1)
    exact .inl ⟨e, whole⟩
  | error e between => exact .inr ((Reader.stays_ended _ own _).givesUp stops run)

theorem declaration_run {word : Token} (starts : word.kind = .varWord) :
    (∃ s, Variable (word :: (left ++ [stop])) s) ∨
    GivesUp left stop rest ((Reader.declaration : PartReader Stmt) (left ++ stop :: rest)) := by
  cases run : Reader.declaration (left ++ stop :: rest) with
  | ok s between =>
    obtain ⟨ts, split, declared⟩ := Reader.declaration_sound run starts
    left
    cases declared with
    | @bare word name stop' _ target stops' =>
      simp only [List.cons_append, List.nil_append, List.cons.injEq] at split
      have split : left ++ stop :: rest = [name] ++ stop' :: between := split.2
      obtain ⟨rfl, rfl, -⟩ := first_semicolon split stops stops' plain
        (by simp [target, Kind.inExpression])
      exact ⟨_, .bare starts target stops⟩
    | @initial word name op stop' ts e _ target known whole stops' =>
      simp only [List.cons_append, List.append_assoc, List.nil_append, List.cons.injEq] at split
      have split : left ++ stop :: rest = (name :: op :: ts) ++ stop' :: between := split.2
      obtain ⟨rfl, rfl, -⟩ := first_semicolon split stops stops' plain
        (by simpa [target, known, Kind.inExpression] using derives_kinds whole.1)
      exact ⟨_, .initial starts target known whole stops⟩
  | error e between => exact .inr (Reader.stays_declaration.givesUp stops run)

end

theorem condition_kinds {cs : List Token} {c : Expr} (h : Condition cs c) :
    ∀ t ∈ cs, t.kind.inExpression = true := by
  obtain ⟨opens, value, closes⟩ := h
  simpa [opens, closes, Kind.inExpression, or_imp, forall_and] using derives_kinds value.1

section

variable {left rest : List Token} {stop : Token} (stops : stop.kind = .semicolon)
  (plain : ∀ t ∈ left, t.kind ∉ [Kind.semicolon, .leftBrace, .rightBrace, .endOfFile])

include stops plain

theorem plain_statement (inside : ∀ t ∈ left, t.kind.startsStatement = false) :
    (∃ e, Whole left e) ∨
    GivesUp left stop rest (PartReader.statement (left ++ stop :: rest)) := by
  have same : PartReader.statement (left ++ stop :: rest) =
      (Reader.evaluated : PartReader Stmt) (left ++ stop :: rest) := by
    refine PartReader.statement_plain ?_
    cases left with
    | nil => simp [stops, Kind.startsStatement]
    | cons t more =>
      rintro _ ⟨rfl⟩
      exact ⟨inside t (by simp), fun brace => plain t (by simp) (by simp [brace])⟩
  rw [same]
  have semis : ∀ t ∈ left, t.kind ≠ .semicolon := fun t member semi =>
    plain t member (by simp [semi])
  exact ended_run stops semis _ rfl

theorem conditional_run (inside : ∀ t ∈ left, t.kind.startsStatement = false)
    (before after : GrammarFault) (own : before.isPlain = true) (own' : after.isPlain = true)
    {next : Expr → Stmt → PartReader Stmt} :
    (∃ cs ts c e, left = cs ++ ts ∧ Condition cs c ∧ Whole ts e) ∨
    GivesUp left stop rest ((do
      let c ← Reader.condition before after
      let s ← PartReader.statement
      next c s : PartReader Stmt) (left ++ stop :: rest)) := by
  cases run : Reader.condition before after (left ++ stop :: rest) with
  | error e between =>
    exact .inr ((Reader.takes_condition own own').stays.givesUp stops run).bind
  | ok c between =>
    obtain ⟨cs, split, condition⟩ := Reader.condition_sound run
    obtain ⟨ts, rfl, rfl⟩ := before_semicolon stops split (condition_kinds condition)
    rw [PartReader.bind_of_clean (PartReader.lift_of_ok run)]
    rcases plain_statement stops (fun t member => plain t (List.mem_append_right cs member))
      (fun t member => inside t (List.mem_append_right cs member)) with ⟨e, whole⟩ | failed
    · exact .inl ⟨cs, ts, c, e, rfl, condition, whole⟩
    · exact .inr (failed.bind.behind cs)

end

namespace BadRun

theorem resume_run {left rest : List Token} {stop : Token} (stops : stop.kind = .semicolon)
    (plain : ∀ t ∈ left, t.kind ∉ [Kind.semicolon, .leftBrace, .rightBrace, .endOfFile])
    (inside : ∀ t ∈ left.tail, t.kind.startsStatement = false) :
    resume (left ++ stop :: rest) = rest := by
  induction left with
  | nil => simp [resume_cons, Token.isEnd, stops]
  | cons t more ih =>
    have other := plain t (by simp)
    simp only [List.mem_cons, List.not_mem_nil, or_false, not_or] at other
    have again := ih (fun t member => plain t (by simp [member]))
      (fun t member => inside t (List.mem_of_mem_tail member))
    cases more with
    | nil =>
      simp only [List.nil_append] at again
      simp [resume_cons, Token.isEnd, other, stops, Kind.startsStatement]
    | cons next more =>
      have goes := inside next (by simp)
      simp only [List.cons_append] at again ⊢
      rw [resume_cons]
      simp [Token.isEnd, other, goes, again]

variable (run : BadRun)

theorem gives_up (rest : List Token) :
    GivesUp run.body run.stop rest (PartReader.declaration (run.tokens ++ rest)) := by
  obtain ⟨body, stop, stops, plain, inside, first, malformed⟩ := run
  simp only [tokens, List.append_assoc, List.singleton_append]
  cases body with
  | nil =>
    have outcome : (∃ e, Whole [] e) ∨
        GivesUp [] stop rest (PartReader.statement (stop :: rest)) :=
      plain_statement stops plain (by simp)
    rcases outcome with ⟨e, whole⟩ | failed
    · obtain ⟨_, _, same, _⟩ := Reader.whole_first whole
      cases same
    · simpa [PartReader.declaration_cons, stops] using failed
  | cons t more =>
    obtain ⟨notFor, _⟩ := first t rfl
    simp only [List.tail_cons] at inside
    have plain' := fun x member => plain x (List.mem_cons_of_mem t member)
    have semis : ∀ x ∈ t :: more, x.kind ≠ .semicolon := by
      intro x member same
      exact plain x member (by simp [same])
    have semis' := fun x member => semis x (List.mem_cons_of_mem t member)
    simp only [List.cons_append, PartReader.declaration_cons]
    split
    · rename_i starts
      rcases declaration_run stops semis' starts with ⟨s, declared⟩ | failed
      · exact absurd (.variable declared) (malformed s)
      · exact failed.behind [t]
    · rw [PartReader.statement_cons]
      split
      · contradiction
      · rename_i starts
        rcases conditional_run stops plain' inside .parenAfterIf .parenAfterIfCondition rfl rfl with
          ⟨cs, ts, c, e, rfl, condition, whole⟩ | failed
        · have derived : Statement false (t :: (cs ++ (ts ++ [stop])))
              (.branch c (.expression e) none) :=
            .ifOnly starts condition (.simple (.expression whole stops))
          exact absurd (.statement (by simpa using derived)) (malformed _)
        · exact failed.behind [t]
      · rename_i starts
        rcases conditional_run stops plain' inside .parenAfterWhile .parenAfterCondition rfl
          rfl with
          ⟨cs, ts, c, e, rfl, condition, whole⟩ | failed
        · have derived : Statement false (t :: (cs ++ (ts ++ [stop]))) (.loop c (.expression e)) :=
            .whileLoop starts condition (.simple (.expression whole stops))
          exact absurd (.statement (by simpa using derived)) (malformed _)
        · exact failed.behind [t]
      · rename_i starts
        rcases ended_run stops semis' .semicolonAfterValue rfl with ⟨e, whole⟩ | failed
        · exact absurd (.statement (.simple (.print starts whole stops))) (malformed _)
        · exact failed.behind [t]
      · rename_i brace
        exact absurd (by simp [brace]) (plain t (by simp))
      · rcases ended_run stops semis .semicolonAfterExpression rfl with ⟨e, whole⟩ | failed
        · exact absurd (.statement (.simple (.expression whole stops))) (malformed _)
        · exact failed

theorem inside_suffix {after : List Token} (suffix : after <:+ run.body) :
    ∀ t ∈ after.tail, t.kind.startsStatement = false := by
  obtain ⟨dropped, split⟩ := suffix
  intro t member
  refine run.inside t ?_
  rw [← split]
  cases dropped with
  | nil => exact member
  | cons d dropped => exact List.mem_append_right dropped (List.mem_of_mem_tail member)

theorem recovered (rest : List Token) :
    ∃ e, recover PartReader.declaration (run.tokens ++ rest) = ⟨none, rest, [e]⟩ ∧
      run.Explains e := by
  obtain ⟨t, member, fault, after, failed, suffix⟩ := run.gives_up rest
  refine ⟨_, ?_, t, member, fault, rfl⟩
  rw [Recovering.recover_of_error failed]
  have landed : resume (after ++ run.stop :: rest) = rest :=
    resume_run run.stops (fun t member => run.plain t (suffix.mem member))
      (run.inside_suffix suffix)
  rw [landed, List.nil_append]

end BadRun

end Blockscript

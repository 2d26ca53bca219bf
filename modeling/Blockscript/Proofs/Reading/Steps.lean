import Blockscript.Proofs.Reading.Grammar
import Blockscript.Reading.Program

/-!
Readers one step at a time: what a reader made of parts does is told from what the
parts do. Later proofs use these equations and leave the two kinds of readers closed.
-/
namespace Blockscript

variable {α β : Type}

namespace Reader

variable {reader : Reader α} {next : α → Reader β} {tokens rest : List Token}

theorem bind_of_ok {value : α} (h : reader tokens = .ok value rest) :
    (reader >>= next) tokens = next value rest := by
  simp only [bind, EStateM.bind, h]

theorem bind_of_error {e : Error} (h : reader tokens = .error e rest) :
    (reader >>= next) tokens = .error e rest := by
  simp only [bind, EStateM.bind, h]

theorem map_of_ok {f : α → β} {value : α} (h : reader tokens = .ok value rest) :
    (f <$> reader) tokens = .ok (f value) rest := by
  simp only [Functor.map, EStateM.map, h]

theorem bind_eq_ok {value : β} (h : (reader >>= next) tokens = .ok value rest) :
    ∃ first between, reader tokens = .ok first between ∧ next first between = .ok value rest := by
  cases run : reader tokens with
  | ok first between => exact ⟨first, between, rfl, by rwa [bind_of_ok run] at h⟩
  | error e between => simp [bind_of_error run] at h

theorem map_eq_ok {f : α → β} {value : β} (h : (f <$> reader) tokens = .ok value rest) :
    ∃ first, reader tokens = .ok first rest ∧ f first = value := by
  cases run : reader tokens with
  | ok first between =>
    simp only [map_of_ok run, EStateM.Result.ok.injEq] at h
    exact ⟨first, by rw [h.2], h.1⟩
  | error e between => simp [Functor.map, EStateM.map, run] at h

theorem pure_eq_ok {value result : α} (h : (pure value : Reader α) tokens = .ok result rest) :
    value = result ∧ tokens = rest := by
  simpa [pure, EStateM.pure] using h

@[simp] theorem expect_of_eq {kind : Kind} {t : Token} (h : t.kind = kind) (fault : GrammarFault)
    (rest : List Token) : expect kind fault (t :: rest) = .ok t rest := by
  simp [expect, h]

theorem expect_eq_ok {kind : Kind} {fault : GrammarFault} {t : Token}
    (h : expect kind fault tokens = .ok t rest) : tokens = t :: rest ∧ t.kind = kind := by
  cases tokens with
  | nil => simp [expect, fail] at h
  | cons first more =>
    by_cases same : first.kind = kind
    · simp only [expect_of_eq same, EStateM.Result.ok.injEq] at h
      obtain ⟨rfl, rfl⟩ := h
      exact ⟨rfl, same⟩
    · simp [expect, same, fail] at h

theorem expect_eq_error {kind : Kind} {fault : GrammarFault} {e : Error}
    (h : expect kind fault tokens = .error e rest) : tokens = rest ∧ errorAt fault tokens = e := by
  cases tokens with
  | nil =>
    obtain ⟨rfl, rfl⟩ := h
    exact ⟨rfl, rfl⟩
  | cons first more =>
    by_cases same : first.kind = kind
    · simp [expect_of_eq same] at h
    · simp only [expect, same, ↓reduceIte, fail, EStateM.Result.error.injEq] at h
      exact ⟨h.2, h.1⟩

theorem last_of_eq {kind : Kind} {t : Token} (h : t.kind = kind) (fault : GrammarFault) (value : α)
    (rest : List Token) :
    (do let _ ← expect kind fault; return value : Reader α) (t :: rest) = .ok value rest :=
  bind_of_ok (expect_of_eq h fault rest)

theorem last_eq_ok {kind : Kind} {fault : GrammarFault} {value result : α}
    (h : (do let _ ← expect kind fault; return value : Reader α) tokens = .ok result rest) :
    value = result ∧ ∃ t, tokens = t :: rest ∧ t.kind = kind := by
  obtain ⟨t, between, last, h⟩ := bind_eq_ok h
  obtain ⟨same, rfl⟩ := pure_eq_ok h
  exact ⟨same, t, expect_eq_ok last⟩

@[simp] theorem accept_of_eq {kind : Kind} {t : Token} (h : t.kind = kind) (rest : List Token) :
    accept kind (t :: rest) = .ok true rest := by
  simp [accept, h]

theorem accept_of_ne {kind : Kind} (h : ∀ t ∈ tokens.head?, t.kind ≠ kind) :
    accept kind tokens = .ok false tokens := by
  cases tokens with
  | nil => rfl
  | cons t more => simp [accept, h t rfl]

theorem accept_eq_true {kind : Kind} (h : accept kind tokens = .ok true rest) :
    ∃ t, tokens = t :: rest ∧ t.kind = kind := by
  cases tokens with
  | nil => simp [accept] at h
  | cons t more =>
    by_cases same : t.kind = kind
    · simp only [accept_of_eq same, EStateM.Result.ok.injEq, true_and] at h
      exact ⟨t, by rw [h], same⟩
    · simp [accept, same] at h

theorem accept_eq_false {kind : Kind} (h : accept kind tokens = .ok false rest) :
    tokens = rest ∧ ∀ t ∈ tokens.head?, t.kind ≠ kind := by
  cases tokens with
  | nil => simpa [accept] using h
  | cons t more =>
    by_cases same : t.kind = kind
    · simp [accept, same] at h
    · simpa [accept, same] using h

theorem nextIs_of_ne {kind : Kind} {t : Token} (h : t.kind ≠ kind) (rest : List Token) :
    nextIs kind (t :: rest) = .ok false (t :: rest) := by
  simp [nextIs, h]

theorem nextIs_eq_ok {kind : Kind} {answer : Bool} (h : nextIs kind tokens = .ok answer rest) :
    tokens = rest ∧ (answer = true ↔ ∃ t ∈ tokens.head?, t.kind = kind) := by
  cases tokens with
  | nil => simpa [nextIs, and_comm, eq_comm] using h
  | cons t more =>
    simp only [nextIs, EStateM.Result.ok.injEq] at h
    obtain ⟨rfl, rfl⟩ := h
    simp

/-- Without tokens all faults are one error. -/
theorem primary_nil (inner : Reader Expr) : primary inner [] = fail .expression [] := rfl

theorem primary_cons (inner : Reader Expr) (t : Token) (rest : List Token) :
    primary inner (t :: rest) =
      match t.kind.literal? with
      | some value => .ok (.literal value) rest
      | none =>
        if t.kind = .identifier then .ok (.var t) rest
        else if t.kind = .leftParen then
          (do
            let e ← inner
            let _ ← expect .rightParen .parenAfterExpression
            return .grouping e : Reader Expr) rest
        else fail .expression (t :: rest) := by
  obtain ⟨kind, lexeme, line⟩ := t
  cases kind <;> rfl

end Reader

namespace PartReader

variable {reader : PartReader α} {next : α → PartReader β} {tokens rest : List Token}

theorem bind_of_clean {value : α} (h : reader tokens = ⟨.ok value, rest, []⟩) :
    (reader >>= next) tokens = next value rest := by
  rw [bind_of_ok h, List.nil_append]

theorem bind_pure_of_ok {f : α → β} {value : α} {errors : List Error}
    (h : reader tokens = ⟨.ok value, rest, errors⟩) :
    (do return f (← reader) : PartReader β) tokens = ⟨.ok (f value), rest, errors⟩ := by
  rw [bind_of_ok h]
  exact congrArg (Recovered.mk _ _) (List.append_nil errors)

theorem bind_eq_ok {value : β} {errors : List Error}
    (h : (reader >>= next) tokens = ⟨.ok value, rest, errors⟩) :
    ∃ first between before after, reader tokens = ⟨.ok first, between, before⟩ ∧
      next first between = ⟨.ok value, rest, after⟩ ∧ errors = before ++ after := by
  rcases run : reader tokens with ⟨_ | first, between, before⟩
  · simp [bind_of_error run] at h
  · rw [bind_of_ok run] at h
    simp only [Recovered.mk.injEq] at h
    obtain ⟨ok, rfl, rfl⟩ := h
    exact ⟨first, between, before, (next first between).errors, rfl, by rw [← ok], rfl⟩

theorem lift_eq_ok {reader : Reader α} {value : α} {errors : List Error}
    (h : (liftM reader : PartReader α) tokens = ⟨.ok value, rest, errors⟩) :
    reader tokens = .ok value rest ∧ errors = [] := by
  cases run : reader tokens with
  | ok first between =>
    simp only [lift_of_ok run, Recovered.mk.injEq, Except.ok.injEq] at h
    obtain ⟨rfl, rfl, rfl⟩ := h
    exact ⟨rfl, rfl⟩
  | error e between => simp [lift_of_error run] at h

theorem pure_eq_ok {value result : α} {errors : List Error}
    (h : (pure value : PartReader α) tokens = ⟨.ok result, rest, errors⟩) :
    value = result ∧ tokens = rest ∧ errors = [] := by
  change (⟨.ok value, tokens, []⟩ : Recovered (Except Error α)) = _ at h
  simpa [eq_comm] using h

theorem lift_bind_eq_ok {reader : Reader α} {value : β} {errors : List Error}
    (h : ((liftM reader : PartReader α) >>= next) tokens = ⟨.ok value, rest, errors⟩) :
    ∃ first between, reader tokens = .ok first between ∧
      next first between = ⟨.ok value, rest, errors⟩ := by
  obtain ⟨first, between, _, _, lifted, later, rfl⟩ := bind_eq_ok h
  obtain ⟨run, rfl⟩ := lift_eq_ok lifted
  exact ⟨first, between, run, later⟩

theorem bind_pure_eq_ok {f : α → β} {value : β} {errors : List Error}
    (h : (do return f (← reader) : PartReader β) tokens = ⟨.ok value, rest, errors⟩) :
    ∃ first, reader tokens = ⟨.ok first, rest, errors⟩ ∧ f first = value := by
  obtain ⟨first, between, before, _, run, last, rfl⟩ := bind_eq_ok h
  obtain ⟨same, rfl, rfl⟩ := pure_eq_ok last
  exact ⟨first, by rw [run, List.append_nil], same⟩

theorem lift_bind_bind {γ : Type} (head : Reader α) (next : α → Reader β)
    (last : β → PartReader γ) :
    (liftM (head >>= next) : PartReader β) >>= last =
      (liftM head : PartReader α) >>= fun value =>
        (liftM (next value) : PartReader β) >>= last := by
  funext tokens
  cases run : head tokens with
  | error e rest =>
    rw [bind_of_error (lift_of_error run), bind_of_error (lift_of_error (Reader.bind_of_error run))]
  | ok value between =>
    rw [bind_of_clean (lift_of_ok run)]
    have both : (head >>= next) tokens = next value between := Reader.bind_of_ok run
    cases later : next value between with
    | error e rest =>
      rw [bind_of_error (lift_of_error later), bind_of_error (lift_of_error (both.trans later))]
    | ok result rest =>
      rw [bind_of_clean (lift_of_ok later), bind_of_clean (lift_of_ok (both.trans later))]

theorem lift_pure_bind (value : α) (last : α → PartReader β) :
    (liftM (pure value : Reader α) : PartReader α) >>= last = last value := by
  funext tokens
  exact bind_of_clean (lift_of_ok rfl)

theorem lift_recovering (reader : Recovering α) (tokens : List Token) :
    (liftM reader : PartReader α) tokens =
      ⟨.ok (reader tokens).value, (reader tokens).rest, (reader tokens).errors⟩ := by
  simp [liftM, monadLift, MonadLift.monadLift, ExceptT.lift, ExceptT.mk, Functor.map, Function.comp]

end PartReader

end Blockscript

import Blockscript.Proofs.Reading.Steps

/-!
Where readers go. A reader takes tokens from the front and puts none back, and its error
points at the next token or at the last one taken, in the grammar's own words. Nothing here says
what was read.
-/
namespace Blockscript

variable {α β : Type}

/-- The fault is not one that a host program worded, nor that of an end which is taken. -/
def GrammarFault.isOwn : GrammarFault → Bool
  | .worded _ | .endOfFile => false
  | _ => true

def GrammarFault.isPlain (fault : GrammarFault) : Bool :=
  fault.isOwn && decide (fault ≠ .braceAfterBlock)

theorem GrammarFault.isOwn_of_isPlain {fault : GrammarFault} (plain : fault.isPlain = true) :
    fault.isOwn = true :=
  (Bool.and_eq_true_iff.mp plain).1

theorem GrammarFault.ne_brace_of_isPlain {fault : GrammarFault} (plain : fault.isPlain = true) :
    fault ≠ .braceAfterBlock :=
  of_decide_eq_true (Bool.and_eq_true_iff.mp plain).2

/-- An error found behind the tokens `used`, in front of `rest`. -/
def PointsAt (e : Error) (used rest : List Token) : Prop :=
  (∃ fault, fault.isPlain = true ∧ e = errorAt fault rest) ∨
    ∃ t fault, fault.isPlain = true ∧ used.getLast? = some t ∧ e = .grammar t fault

theorem pointsAt_append {e : Error} {used rest : List Token} (before : List Token)
    (h : PointsAt e used rest) : PointsAt e (before ++ used) rest := by
  rcases h with ⟨fault, own, same⟩ | ⟨t, fault, own, last, same⟩
  · exact .inl ⟨fault, own, same⟩
  · exact .inr ⟨t, fault, own, by simp [last], same⟩

def Kind.inExpression : Kind → Bool
  | .leftParen | .rightParen | .minus | .plus | .slash | .star | .bang | .bangEqual | .equal
  | .equalEqual | .greater | .greaterEqual | .less | .lessEqual | .identifier | .string _
  | .number _ | .andWord | .orWord | .trueWord | .falseWord | .nilWord => true
  | _ => false

theorem inExpression_of_literal {k : Kind} {v : Value} (h : k.literal? = some v) :
    k.inExpression = true := by
  cases k <;> first | rfl | cases h

namespace Reader

/-- From `tokens` to the result, only allowed tokens were taken, and at least so many
    of them if nothing failed. -/
def Went (allowed : Kind → Prop) (least : Nat) (tokens : List Token) :
    EStateM.Result Error (List Token) α → Prop
  | .ok _ rest =>
    ∃ used, tokens = used ++ rest ∧ (∀ t ∈ used, allowed t.kind) ∧ least ≤ used.length
  | .error e rest =>
    ∃ used, tokens = used ++ rest ∧ (∀ t ∈ used, allowed t.kind) ∧ PointsAt e used rest

def Takes (allowed : Kind → Prop) (least : Nat) (reader : Reader α) : Prop :=
  ∀ tokens, Went allowed least tokens (reader tokens)

variable {allowed more : Kind → Prop} {m n : Nat}

theorem Went.behind {before tokens : List Token} {result : EStateM.Result Error (List Token) α}
    (h : Went allowed n tokens result) (known : ∀ t ∈ before, allowed t.kind) :
    Went allowed (before.length + n) (before ++ tokens) result := by
  cases result with
  | ok value rest =>
    obtain ⟨used, split, kinds, count⟩ := h
    refine ⟨before ++ used, by rw [split, List.append_assoc], ?_, ?_⟩
    · simpa [or_imp, forall_and] using ⟨known, kinds⟩
    · rw [List.length_append]; omega
  | error e rest =>
    obtain ⟨used, split, kinds, points⟩ := h
    refine ⟨before ++ used, by rw [split, List.append_assoc], ?_, pointsAt_append before points⟩
    simpa [or_imp, forall_and] using ⟨known, kinds⟩

theorem Went.mono {tokens : List Token} {result : EStateM.Result Error (List Token) α}
    (h : Went allowed n tokens result) (fewer : m ≤ n) (wider : ∀ k, allowed k → more k) :
    Went more m tokens result := by
  cases result with
  | ok value rest =>
    obtain ⟨used, split, kinds, count⟩ := h
    exact ⟨used, split, fun t ht => wider _ (kinds t ht), by omega⟩
  | error e rest =>
    obtain ⟨used, split, kinds, points⟩ := h
    exact ⟨used, split, fun t ht => wider _ (kinds t ht), points⟩

theorem Went.fewer {tokens : List Token} {result : EStateM.Result Error (List Token) α}
    (h : Went allowed n tokens result) (le : m ≤ n) : Went allowed m tokens result :=
  h.mono le fun _ known => known

theorem Takes.fewer {reader : Reader α} (h : Takes allowed n reader) (le : m ≤ n) :
    Takes allowed m reader :=
  fun tokens => (h tokens).fewer le

theorem Takes.mono {reader : Reader α} (h : Takes allowed n reader) (fewer : m ≤ n)
    (wider : ∀ k, allowed k → more k) : Takes more m reader :=
  fun tokens => (h tokens).mono fewer wider

theorem Takes.bind {reader : Reader α} {next : α → Reader β} (first : Takes allowed m reader)
    (second : ∀ value, Takes allowed n (next value)) :
    Takes allowed (m + n) (reader >>= next) := by
  intro tokens
  have went := first tokens
  cases run : reader tokens with
  | ok a between =>
    rw [run] at went
    obtain ⟨used, split, kinds, count⟩ := went
    rw [bind_of_ok run, split]
    exact ((second a between).behind kinds).fewer (by omega)
  | error e between =>
    rw [run] at went
    rw [bind_of_error run]
    exact went

theorem Takes.bind_zero {reader : Reader α} {next : α → Reader β} (first : Takes allowed n reader)
    (second : ∀ value, Takes allowed 0 (next value)) : Takes allowed n (reader >>= next) :=
  first.bind second

theorem Takes.zero_bind {reader : Reader α} {next : α → Reader β} (first : Takes allowed 0 reader)
    (second : ∀ value, Takes allowed n (next value)) : Takes allowed n (reader >>= next) :=
  (first.bind second).fewer (by omega)

theorem takes_pure (value : α) : Takes allowed 0 (pure value : Reader α) :=
  fun _ => ⟨[], rfl, by simp, Nat.le_refl 0⟩

theorem went_fail {fault : GrammarFault} (own : fault.isPlain = true) (tokens : List Token) :
    Went allowed n tokens (fail fault tokens : EStateM.Result Error (List Token) α) :=
  ⟨[], rfl, by simp, .inl ⟨fault, own, rfl⟩⟩

theorem Takes.map {reader : Reader α} {f : α → β} (h : Takes allowed n reader) :
    Takes allowed n (f <$> reader) := by
  intro tokens
  have went := h tokens
  simp only [Functor.map, EStateM.map]
  cases run : reader tokens with
  | ok a between => rw [run] at went; exact went
  | error e between => rw [run] at went; exact went

theorem takes_expect {kind : Kind} (known : allowed kind) {fault : GrammarFault}
    (own : fault.isPlain = true) : Takes allowed 1 (expect kind fault) := by
  intro tokens
  cases tokens with
  | nil => exact went_fail own []
  | cons t rest =>
    by_cases same : t.kind = kind
    · rw [expect_of_eq same]
      exact ⟨[t], rfl, by simpa [same] using known, Nat.le_refl 1⟩
    · simpa [expect, same] using went_fail own (t :: rest)

theorem takes_accept {kind : Kind} (known : allowed kind) : Takes allowed 0 (accept kind) := by
  intro tokens
  cases tokens with
  | nil => exact ⟨[], rfl, by simp, Nat.le_refl 0⟩
  | cons t rest =>
    by_cases same : t.kind = kind
    · rw [accept_of_eq same]
      exact ⟨[t], rfl, by simpa [same] using known, Nat.zero_le 1⟩
    · simp only [accept, same, ↓reduceIte]
      exact ⟨[], rfl, by simp, Nat.le_refl 0⟩

theorem takes_nextIs (kind : Kind) : Takes allowed 0 (nextIs kind) := by
  intro tokens
  cases tokens with
  | nil => exact ⟨[], rfl, by simp, Nat.le_refl 0⟩
  | cons t rest => exact ⟨[], rfl, by simp, Nat.le_refl 0⟩

abbrev TakesExpression (least : Nat) (reader : Reader α) : Prop :=
  Takes (fun k => k.inExpression = true) least reader

theorem takes_chainFrom {level : Level} {operand : Reader Expr}
    (operators : ∀ k ∈ level.operators, k.inExpression = true)
    (h : TakesExpression n operand) (bound : List Token) (left : Expr) :
    TakesExpression 0 (chainFrom level operand bound left) := by
  induction bound generalizing left with
  | nil => exact fun tokens => ⟨[], rfl, by simp, Nat.le_refl 0⟩
  | cons b bound ih =>
    intro tokens
    cases tokens with
    | nil => exact ⟨[], rfl, by simp, Nat.le_refl 0⟩
    | cons op rest =>
      simp only [chainFrom]
      split
      · rename_i known
        have went := h rest
        have opKnown : ∀ t ∈ [op], t.kind.inExpression = true := by simpa using operators _ known
        cases run : operand rest with
        | ok right between =>
          rw [run] at went
          obtain ⟨used, split, kinds, _⟩ := went
          have joined := ((ih (level.join left op right) between).behind kinds).behind opKnown
          rw [← split] at joined
          exact joined.fewer (Nat.zero_le _)
        | error e between =>
          rw [run] at went
          exact went.behind opKnown
      · exact ⟨[], rfl, by simp, Nat.le_refl 0⟩

theorem takes_chain {level : Level} {operand : Reader Expr}
    (operators : ∀ k ∈ level.operators, k.inExpression = true)
    (h : TakesExpression n operand) : TakesExpression n (chain level operand) := by
  intro tokens
  have went := h tokens
  simp only [chain]
  cases run : operand tokens with
  | ok left rest =>
    rw [run] at went
    obtain ⟨used, split, kinds, count⟩ := went
    rw [split]
    exact ((takes_chainFrom operators h rest left rest).behind kinds).fewer (by omega)
  | error e rest =>
    rw [run] at went
    exact went

theorem takes_primary {inner : Reader Expr} (h : TakesExpression 0 inner) :
    TakesExpression 1 (primary inner) := by
  intro tokens
  cases tokens with
  | nil =>
    rw [primary_nil]
    exact went_fail rfl []
  | cons t rest =>
    rw [primary_cons]
    split
    · rename_i value literal
      exact ⟨[t], rfl, by simpa using inExpression_of_literal literal, Nat.le_refl 1⟩
    split
    · rename_i name
      exact ⟨[t], rfl, by simp [name, Kind.inExpression], Nat.le_refl 1⟩
    split
    · rename_i opens
      have close : TakesExpression 1 (expect .rightParen .parenAfterExpression) :=
        takes_expect (by rfl) rfl
      have closing := fun e => close.bind fun _ => takes_pure (Expr.grouping e)
      have known : ∀ x ∈ [t], x.kind.inExpression = true := by simp [opens, Kind.inExpression]
      exact ((h.bind closing rest).behind known).fewer (by simp)
    · exact went_fail rfl _

theorem takes_unary {operand inner : Reader Expr} (first : TakesExpression 0 operand)
    (second : TakesExpression 0 inner) : TakesExpression 1 (unary operand inner) := by
  intro tokens
  cases tokens with
  | nil => exact takes_primary second []
  | cons op rest =>
    simp only [unary]
    split
    · rename_i known
      have opKnown : ∀ t ∈ [op], t.kind.inExpression = true := by
        rcases (by simpa [unaryOperators] using known) with same | same <;>
          simp [same, Kind.inExpression]
      exact ((first.map rest).behind opKnown).fewer (by simp)
    · exact takes_primary second _

theorem takes_assignment {target value : Reader Expr} (first : TakesExpression 1 target)
    (second : TakesExpression 0 value) : TakesExpression 1 (assignment target value) := by
  intro tokens
  have went := first tokens
  unfold assignment
  cases run : target tokens with
  | error e rest => rw [run] at went; exact went
  | ok left rest =>
    rw [run] at went
    cases rest with
    | nil => exact went
    | cons op rest =>
      by_cases same : op.kind = .equal
      · obtain ⟨used, split, kinds, count⟩ := went
        have taken : tokens = (used ++ [op]) ++ rest := by rw [split]; simp
        have known : ∀ t ∈ used ++ [op], t.kind.inExpression = true := by
          simpa [or_imp, forall_and, same, Kind.inExpression] using kinds
        simp only [same, ↓reduceIte]
        split
        · rw [taken]
          exact ((second.map rest).behind known).fewer (by simp)
        · exact ⟨used ++ [op], taken, known, .inr ⟨op, .assignmentTarget, rfl, by simp, rfl⟩⟩
      · simpa only [same, ↓reduceIte] using went

end Reader

end Blockscript

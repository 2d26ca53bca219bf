import Blockscript.Proofs.Reading.Footprint

/-!
Reading expressions against their grammar. What is read was derived, with no more
nestings than there were left; what is derived is read, whatever comes after it, unless
the next token goes on with the expression.
-/
namespace Blockscript

open Grammar

/-- The rank at which a token goes on with an expression before it. -/
def Kind.joins? : Kind → Option Rank
  | .star | .slash => some .factor
  | .minus | .plus => some .term
  | .greater | .greaterEqual | .less | .lessEqual => some .comparison
  | .bangEqual | .equalEqual => some .equality
  | .andWord => some .conjunction
  | .orWord => some .disjunction
  | .equal => some .assignment
  | _ => none

theorem inExpression_of_joins {k : Kind} {r : Rank} (h : k.joins? = some r) :
    k.inExpression = true := by
  cases k <;> first | rfl | cases h

namespace Grammar

def Rank.StopsAt (rank : Rank) (rest : List Token) : Prop :=
  ∀ t ∈ rest.head?, ∀ r, t.kind.joins? = some r → rank.ctorIdx < r.ctorIdx

theorem joins_of_operator {rank : Rank} {k : Kind} (known : k ∈ rank.level.operators) :
    k.joins? = some rank := by
  cases rank with
  | primary | unary | assignment => simp [Rank.level] at known
  | conjunction | disjunction =>
    simp only [Rank.level, List.mem_singleton] at known
    rw [known]; rfl
  | factor | term | equality =>
    simp only [Rank.level, List.mem_cons, List.not_mem_nil, or_false] at known
    rcases known with same | same <;> rw [same] <;> rfl
  | comparison =>
    simp only [Rank.level, List.mem_cons, List.not_mem_nil, or_false] at known
    rcases known with same | same | same | same <;> rw [same] <;> rfl

theorem tighter_lt {rank : Rank} (more : rank ≠ .primary) :
    rank.tighter.ctorIdx < rank.ctorIdx := by
  cases rank with
  | primary => contradiction
  | _ => decide

theorem Rank.StopsAt.tighter {rank : Rank} {rest : List Token} (h : rank.StopsAt rest) :
    rank.tighter.StopsAt rest := by
  intro t first r joins
  have lt := h t first r joins
  have le : rank.tighter.ctorIdx ≤ rank.ctorIdx := by cases rank <;> decide
  omega

theorem tighter_stopsAt_operator {rank : Rank} {op : Token}
    (known : op.kind ∈ rank.level.operators) (rest : List Token) :
    rank.tighter.StopsAt (op :: rest) := by
  intro t first r joins
  obtain rfl : op = t := by simpa using first
  have more : rank ≠ .primary := by rintro rfl; simp [Rank.level] at known
  rw [joins_of_operator known, Option.some.injEq] at joins
  exact joins ▸ tighter_lt more

theorem not_operator_of_stopsAt {rank : Rank} {op : Token} {rest : List Token}
    (h : rank.StopsAt (op :: rest)) : op.kind ∉ rank.level.operators := by
  intro known
  exact Nat.lt_irrefl _ (h op rfl rank (joins_of_operator known))

theorem stopsAt_of_joins_none {t : Token} (h : t.kind.joins? = none) (rank : Rank)
    (rest : List Token) : rank.StopsAt (t :: rest) := by
  intro t' first r joins
  obtain rfl : t = t' := by simpa using first
  simp [h] at joins

theorem join_nesting (rank : Rank) (l : Expr) (op : Token) (r : Expr) :
    (rank.level.join l op r).nesting = max l.nesting r.nesting := by
  cases rank <;> rfl

theorem join_ne_var (rank : Rank) (l : Expr) (op : Token) (r : Expr) (name : Token) :
    rank.level.join l op r ≠ .var name := by
  cases rank <;> simp [Rank.level]

theorem derives_var {rank : Rank} {ts : List Token} {name : Token}
    (h : Derives rank ts (.var name)) : ts = [name] ∧ name.kind = .identifier := by
  generalize same : Expr.var name = e at h
  induction h with
  | literal => simp at same
  | var known =>
    obtain rfl := Expr.var.inj same
    exact ⟨rfl, known⟩
  | grouping => simp at same
  | unary => simp at same
  | joined => exact absurd same.symm (join_ne_var _ _ _ _ _)
  | assign => simp at same
  | looser _ _ ih => exact ih same

theorem derives_kinds {rank : Rank} {ts : List Token} {e : Expr} (h : Derives rank ts e) :
    ∀ t ∈ ts, t.kind.inExpression = true := by
  induction h with
  | literal value => simpa using inExpression_of_literal value
  | var known => simp [known, Kind.inExpression]
  | grouping opens inner closes ih =>
    simpa [opens, closes, Kind.inExpression, or_imp, forall_and] using ih
  | @unary op ts e known operand ih =>
    have opKnown : op.kind.inExpression = true := by
      rcases (by simpa using known) with same | same <;> simp [same, Kind.inExpression]
    simpa [opKnown] using ih
  | @joined rank ls rs l r op left known right ihl ihr =>
    have opKnown := inExpression_of_joins (joins_of_operator known)
    simpa [opKnown, or_imp, forall_and] using ⟨ihl, ihr⟩
  | assign target known value ih =>
    simpa [target, known, Kind.inExpression] using ih
  | looser _ _ ih => exact ih

theorem derives_first {rank : Rank} {ts : List Token} {e : Expr} (h : Derives rank ts e) :
    ∃ t more, ts = t :: more ∧ t.kind ≠ .rightParen := by
  induction h with
  | @literal t v value =>
    refine ⟨t, [], rfl, ?_⟩
    intro same
    simp [same, Kind.literal?] at value
  | @var t name => exact ⟨t, [], rfl, by simp [name]⟩
  | @grouping l r ts e opens _ _ _ => exact ⟨l, ts ++ [r], rfl, by simp [opens]⟩
  | @unary op ts e known _ _ =>
    refine ⟨op, ts, rfl, ?_⟩
    intro same
    simp [same] at known
  | @joined _ ls rs _ _ op _ _ _ ihl _ =>
    obtain ⟨t, more, rfl, other⟩ := ihl
    exact ⟨t, more ++ op :: rs, rfl, other⟩
  | @assign name op ts e target _ _ _ => exact ⟨name, op :: ts, rfl, by simp [target]⟩
  | looser _ _ ih => exact ih

theorem derives_name {name : Token} (known : name.kind = .identifier) (rank : Rank) :
    Derives rank [name] (.var name) := by
  have primary : Derives .primary [name] (.var name) := .var known
  have unary : Derives .unary [name] (.var name) := .looser (by decide) primary
  have factor : Derives .factor [name] (.var name) := .looser (by decide) unary
  have term : Derives .term [name] (.var name) := .looser (by decide) factor
  have comparison : Derives .comparison [name] (.var name) := .looser (by decide) term
  have equality : Derives .equality [name] (.var name) := .looser (by decide) comparison
  have conjunction : Derives .conjunction [name] (.var name) := .looser (by decide) equality
  have disjunction : Derives .disjunction [name] (.var name) := .looser (by decide) conjunction
  cases rank with
  | assignment => exact .looser (by decide) disjunction
  | _ => assumption

theorem primary_first {ts : List Token} {e : Expr} (h : Derives .primary ts e) :
    ∃ t more, ts = t :: more ∧ t.kind ∉ unaryOperators := by
  cases h with
  | @literal t v value =>
    refine ⟨t, [], rfl, ?_⟩
    intro known
    rcases (by simpa [unaryOperators] using known) with same | same <;>
      simp [same, Kind.literal?] at value
  | @var t name => exact ⟨t, [], rfl, by simp [name, unaryOperators]⟩
  | @grouping l r ts e opens _ _ => exact ⟨l, ts ++ [r], rfl, by simp [opens, unaryOperators]⟩
  | joined left known right => simp [Rank.level] at known
  | looser more _ => contradiction

end Grammar

namespace Reader

/-- The reader reads just what derives, with fewer nestings than the limit. It finds the
    end of an expression by the next token alone. -/
structure Reads (rank : Rank) (limit : Nat) (reader : Reader Expr) : Prop where
  takes : TakesExpression 1 reader
  sound : ∀ {tokens e rest}, reader tokens = .ok e rest →
    ∃ ts, tokens = ts ++ rest ∧ Derives rank ts e ∧ e.nesting < limit
  complete : ∀ {ts e}, Derives rank ts e → e.nesting < limit → ∀ {rest}, rank.StopsAt rest →
    reader (ts ++ rest) = .ok e rest

variable {rank : Rank} {limit : Nat} {tight inner value target : Reader Expr}

theorem primary_sound (h : Reads .assignment limit inner) {tokens rest : List Token} {e : Expr}
    (run : primary inner tokens = .ok e rest) :
    ∃ ts, tokens = ts ++ rest ∧ Derives .primary ts e ∧ e.nesting < limit + 1 := by
  cases tokens with
  | nil =>
    rw [primary_nil] at run
    cases run
  | cons t more =>
    rw [primary_cons] at run
    split at run
    · rename_i v literal
      obtain ⟨rfl, rfl⟩ := run
      exact ⟨[t], rfl, .literal literal, Nat.succ_pos _⟩
    split at run
    · rename_i name
      obtain ⟨rfl, rfl⟩ := run
      exact ⟨[t], rfl, .var name, Nat.succ_pos _⟩
    split at run
    · rename_i opens
      obtain ⟨e', between, read, run⟩ := bind_eq_ok run
      obtain ⟨r, between', close, run⟩ := bind_eq_ok run
      obtain ⟨rfl, rfl⟩ := pure_eq_ok run
      obtain ⟨rfl, closes⟩ := expect_eq_ok close
      obtain ⟨ts, rfl, derived, shallow⟩ := h.sound read
      exact ⟨t :: (ts ++ [r]), by simp, .grouping opens derived closes, Nat.succ_lt_succ shallow⟩
    · simp [fail] at run

theorem primary_complete (h : Reads .assignment limit inner) {ts : List Token} {e : Expr}
    (derived : Derives .primary ts e) (shallow : e.nesting < limit + 1) (rest : List Token) :
    primary inner (ts ++ rest) = .ok e rest := by
  cases derived with
  | literal value => rw [List.singleton_append, primary_cons, value]
  | @var t name => simp [primary_cons, name, Kind.literal?]
  | @grouping l r ts e opens inside closes =>
    have read := h.complete inside (Nat.lt_of_succ_lt_succ shallow)
      (stopsAt_of_joins_none (t := r) (by rw [closes]; rfl) .assignment rest)
    simp only [List.cons_append, List.append_assoc, List.nil_append, primary_cons, opens,
      Kind.literal?, reduceCtorEq, ↓reduceIte]
    rw [bind_of_ok read, bind_of_ok (expect_of_eq closes _ _)]
    rfl
  | joined left known right => simp [Rank.level] at known
  | looser more _ => contradiction

theorem unary_reads (first : Reads .unary limit tight) (second : Reads .assignment limit inner) :
    Reads .unary (limit + 1) (unary tight inner) where
  takes := takes_unary (first.takes.fewer (Nat.zero_le 1)) (second.takes.fewer (Nat.zero_le 1))
  sound {tokens e rest} run := by
    have asPrimary : primary inner tokens = .ok e rest → ∃ ts, tokens = ts ++ rest ∧
        Derives .unary ts e ∧ e.nesting < limit + 1 := by
      intro run
      obtain ⟨ts, split, derived, shallow⟩ := primary_sound second run
      exact ⟨ts, split, .looser (by decide) derived, shallow⟩
    cases tokens with
    | nil => exact asPrimary run
    | cons op more =>
      simp only [unary] at run
      split at run
      · rename_i known
        obtain ⟨e', read, rfl⟩ := map_eq_ok run
        obtain ⟨ts, rfl, derived, shallow⟩ := first.sound read
        exact ⟨op :: ts, rfl, .unary known derived, Nat.succ_lt_succ shallow⟩
      · exact asPrimary run
  complete {ts e} derived shallow rest stops := by
    cases derived with
    | @unary op ts e known inside =>
      have read := first.complete inside (Nat.lt_of_succ_lt_succ shallow) stops
      have member : op.kind ∈ unaryOperators := known
      simp only [List.cons_append, unary, member, ↓reduceIte]
      exact map_of_ok read
    | joined left known right => simp [Rank.level] at known
    | looser more inside =>
      have read := primary_complete second inside shallow rest
      obtain ⟨t, more, rfl, other⟩ := primary_first inside
      simpa only [List.cons_append, unary, other, ↓reduceIte] using read

theorem chainFrom_bound {level : Level} (h : TakesExpression 1 tight) {bound bound' : List Token}
    {tokens : List Token} (enough : tokens.length ≤ bound.length)
    (enough' : tokens.length ≤ bound'.length) (l : Expr) :
    chainFrom level tight bound l tokens = chainFrom level tight bound' l tokens := by
  induction bound generalizing bound' tokens l with
  | nil =>
    obtain rfl : tokens = [] := List.length_eq_zero_iff.mp (Nat.le_zero.mp enough)
    cases bound' <;> rfl
  | cons b bound ih =>
    cases tokens with
    | nil => cases bound' <;> rfl
    | cons op more =>
      cases bound' with
      | nil => simp at enough'
      | cons b' bound' =>
        simp only [chainFrom]
        split
        · have went := h more
          cases read : tight more with
          | error e between => rfl
          | ok r between =>
            rw [read] at went
            obtain ⟨used, rfl, _, _⟩ := went
            simp only [List.length_cons, List.length_append] at enough enough'
            exact ih (by omega) (by omega) _
        · rfl

theorem chainFrom_sound (h : Reads rank.tighter limit tight) {bound : List Token}
    {ls tokens rest : List Token} {l e : Expr} (left : Derives rank ls l)
    (shallow : l.nesting < limit)
    (run : chainFrom rank.level tight bound l tokens = .ok e rest) :
    ∃ ts, tokens = ts ++ rest ∧ Derives rank (ls ++ ts) e ∧ e.nesting < limit := by
  induction bound generalizing ls l tokens with
  | nil =>
    obtain ⟨rfl, rfl⟩ := run
    exact ⟨[], rfl, by simpa using left, shallow⟩
  | cons b bound ih =>
    cases tokens with
    | nil =>
      obtain ⟨rfl, rfl⟩ := run
      exact ⟨[], rfl, by simpa using left, shallow⟩
    | cons op more =>
      simp only [chainFrom] at run
      split at run
      · rename_i known
        cases read : tight more with
        | error e' between => simp [read] at run
        | ok r between =>
          rw [read] at run
          obtain ⟨rs, rfl, right, shallow'⟩ := h.sound read
          have both : (rank.level.join l op r).nesting < limit := by rw [join_nesting]; omega
          obtain ⟨ts, rfl, derived, done⟩ := ih (.joined left known right) both run
          exact ⟨op :: (rs ++ ts), by simp, by simpa using derived, done⟩
      · obtain ⟨rfl, rfl⟩ := run
        exact ⟨[], rfl, by simpa using left, shallow⟩

/-- The operands of a chain are read from the left, as they derive: by induction on the
    tokens of the left operand, with any operators still to come behind it. -/
theorem chain_complete (joins : rank.level.operators ≠ []) (h : Reads rank.tighter limit tight)
    {ts : List Token} {e : Expr} (derived : Derives rank ts e) (shallow : e.nesting < limit)
    {rest : List Token} (stops : rank.tighter.StopsAt rest) :
    chain rank.level tight (ts ++ rest) = chainFrom rank.level tight rest e rest := by
  induction size : ts.length using Nat.strongRecOn generalizing ts e rest with
  | ind k ih =>
    cases derived with
    | @joined _ ls rs l r op left known right =>
      rw [join_nesting] at shallow
      have before : ls.length < k := by rw [← size]; simp
      have start := ih _ before left (by omega) (tighter_stopsAt_operator known (rs ++ rest)) rfl
      have operand := h.complete right (by omega) stops
      rw [List.append_assoc, List.cons_append, start]
      simp only [chainFrom, known, ↓reduceIte, operand]
      exact chainFrom_bound h.takes (by simp) (Nat.le_refl _) _
    | looser _ inside =>
      have read := h.complete inside shallow stops
      simp only [chain, read]
    | literal | var | grouping | unary | assign => simp [Rank.level] at joins

theorem chain_reads (joins : rank.level.operators ≠ []) (h : Reads rank.tighter limit tight) :
    Reads rank limit (chain rank.level tight) where
  takes := takes_chain (fun _ known => inExpression_of_joins (joins_of_operator known)) h.takes
  sound {tokens e rest} run := by
    have more : rank ≠ .primary := by rintro rfl; simp [Rank.level] at joins
    simp only [chain] at run
    cases read : tight tokens with
    | error e' between => simp [read] at run
    | ok l between =>
      rw [read] at run
      obtain ⟨ls, rfl, left, shallow⟩ := h.sound read
      obtain ⟨ts, rfl, derived, done⟩ := chainFrom_sound h (.looser more left) shallow run
      exact ⟨ls ++ ts, by simp, derived, done⟩
  complete {ts e} derived shallow rest stops := by
    rw [chain_complete joins h derived shallow stops.tighter]
    cases rest with
    | nil => rfl
    | cons op rest => simp only [chainFrom, not_operator_of_stopsAt stops, ↓reduceIte]

theorem joined_reads (h : Reads .unary limit tight) :
    Reads .disjunction limit (joined levels tight) := by
  have factor : Reads .factor limit _ := chain_reads (by simp [Rank.level]) h
  have term : Reads .term limit _ := chain_reads (by simp [Rank.level]) factor
  have comparison : Reads .comparison limit _ := chain_reads (by simp [Rank.level]) term
  have equality : Reads .equality limit _ := chain_reads (by simp [Rank.level]) comparison
  have conjunction : Reads .conjunction limit _ := chain_reads (by simp [Rank.level]) equality
  have disjunction : Reads .disjunction limit _ := chain_reads (by simp [Rank.level]) conjunction
  exact disjunction

theorem assignment_reads (first : Reads .disjunction (limit + 1) target)
    (second : Reads .assignment limit value) :
    Reads .assignment (limit + 1) (assignment target value) where
  takes := takes_assignment first.takes (second.takes.fewer (Nat.zero_le 1))
  sound {tokens e rest} run := by
    unfold assignment at run
    cases read : target tokens with
    | error e' between => simp [read] at run
    | ok l between =>
      rw [read] at run
      obtain ⟨ls, rfl, left, shallow⟩ := first.sound read
      cases between with
      | nil =>
        obtain ⟨rfl, rfl⟩ := run
        exact ⟨ls, rfl, .looser (by decide) left, shallow⟩
      | cons op more =>
        by_cases same : op.kind = .equal
        · simp only [same, ↓reduceIte] at run
          split at run
          · obtain ⟨e', read', rfl⟩ := map_eq_ok run
            obtain ⟨rfl, target⟩ := derives_var left
            obtain ⟨ts, rfl, derived, shallow'⟩ := second.sound read'
            exact ⟨_ :: op :: ts, rfl, .assign target same derived, Nat.succ_lt_succ shallow'⟩
          · simp at run
        · simp only [same, ↓reduceIte] at run
          obtain ⟨rfl, rfl⟩ := run
          exact ⟨ls, rfl, .looser (by decide) left, shallow⟩
  complete {ts e} derived shallow rest stops := by
    cases derived with
    | @assign name op ts e known same inside =>
      have operatorStops : Rank.disjunction.StopsAt (op :: (ts ++ rest)) := by
        intro t first r joins
        obtain rfl : op = t := by simpa using first
        rw [same] at joins
        obtain rfl : Rank.assignment = r := by simpa [Kind.joins?] using joins
        decide
      have name := first.complete (derives_name known .disjunction) (Nat.succ_pos _) operatorStops
      have read := second.complete inside (Nat.lt_of_succ_lt_succ shallow) stops
      simp only [List.singleton_append] at name
      simp only [List.cons_append, assignment, name, same, ↓reduceIte]
      exact map_of_ok read
    | joined left known right => simp [Rank.level] at known
    | looser more inside =>
      have read := first.complete inside shallow stops.tighter
      simp only [assignment, read]
      cases rest with
      | nil => rfl
      | cons op rest =>
        have other : op.kind ≠ .equal := by
          intro same
          exact Nat.lt_irrefl _ (stops op rfl .assignment (by rw [same]; rfl))
        simp only [other, ↓reduceIte]

theorem fail_reads : Reads rank 0 (fail .nesting) where
  takes := went_fail rfl
  sound run := by simp [fail] at run
  complete _ shallow := absurd shallow (Nat.not_lt_zero _)

theorem operand_nested_reads (n : Nat) :
    Reads .unary n (operand n) ∧ Reads .assignment n (nested n) := by
  induction n with
  | zero => exact ⟨fail_reads, fail_reads⟩
  | succ n ih =>
    have unary := unary_reads ih.1 ih.2
    constructor
    · rw [operand]; exact unary
    · rw [nested]; exact assignment_reads (joined_reads unary) ih.2

theorem takes_expression : TakesExpression 1 expression := (operand_nested_reads _).2.takes

theorem expression_sound {tokens rest : List Token} {e : Expr}
    (run : expression tokens = .ok e rest) : ∃ ts, tokens = ts ++ rest ∧ Whole ts e := by
  obtain ⟨ts, split, derived, shallow⟩ := (operand_nested_reads _).2.sound run
  exact ⟨ts, split, derived, Nat.le_of_lt_succ shallow⟩

theorem expression_complete {ts : List Token} {e : Expr} (h : Whole ts e) {t : Token}
    (stops : t.kind.joins? = none) (rest : List Token) :
    expression (ts ++ t :: rest) = .ok e (t :: rest) :=
  (operand_nested_reads _).2.complete h.1 (Nat.lt_succ_of_le h.2) (stopsAt_of_joins_none stops _ _)

end Reader

end Blockscript

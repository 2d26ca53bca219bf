import Blockscript.Proofs.Reading.Unfolding

/-!
Reading statements without errors against their grammar. What is read was derived, by
induction on the number of tokens. Whether a statement has to be closed is told by what
comes after it.
-/
namespace Blockscript

open Grammar

def elseNext (rest : List Token) : Bool := rest.head?.any fun t => decide (t.kind = .elseWord)

namespace Reader

variable {tokens rest : List Token}

theorem declaration_sound {s : Stmt} (run : declaration tokens = .ok s rest) {word : Token}
    (starts : word.kind = .varWord) : ∃ ts, word :: tokens = ts ++ rest ∧ Variable ts s := by
  unfold declaration at run
  obtain ⟨name, _, named, run⟩ := bind_eq_ok run
  obtain ⟨assigned, _, choice, run⟩ := bind_eq_ok run
  cases assigned with
  | true =>
    simp only [↓reduceIte] at run
    obtain ⟨initial, _, read, run⟩ := bind_eq_ok run
    obtain ⟨rfl, stop, rfl, stops⟩ := last_eq_ok run
    obtain ⟨rfl, target⟩ := expect_eq_ok named
    obtain ⟨op, rfl, known⟩ := accept_eq_true choice
    obtain ⟨e, value, rfl⟩ := map_eq_ok read
    obtain ⟨ts, rfl, whole⟩ := expression_sound value
    exact ⟨word :: name :: op :: (ts ++ [stop]), by simp, .initial starts target known whole stops⟩
  | false =>
    simp only [Bool.false_eq_true, ↓reduceIte] at run
    obtain ⟨initial, _, read, run⟩ := bind_eq_ok run
    obtain ⟨rfl, stop, rfl, stops⟩ := last_eq_ok run
    obtain ⟨rfl, rfl⟩ := pure_eq_ok read
    obtain ⟨rfl, target⟩ := expect_eq_ok named
    obtain ⟨rfl, _⟩ := accept_eq_false choice
    exact ⟨[word, name, stop], rfl, .bare starts target stops⟩

theorem declaration_complete {ts : List Token} {s : Stmt} (h : Variable ts s) (rest : List Token) :
    ∃ word more, ts = word :: more ∧ word.kind = .varWord ∧
      declaration (more ++ rest) = .ok s rest := by
  unfold declaration
  cases h with
  | @bare word name stop starts target stops =>
    refine ⟨word, [name, stop], rfl, starts, ?_⟩
    simp only [List.cons_append, List.nil_append]
    rw [bind_of_ok (expect_of_eq target _ _), bind_of_ok (accept_of_ne (by simp [stops]))]
    simp only [Bool.false_eq_true, ↓reduceIte, pure_bind]
    exact last_of_eq stops _ _ rest
  | @initial word name op stop ts e starts target known value stops =>
    refine ⟨word, name :: op :: (ts ++ [stop]), rfl, starts, ?_⟩
    simp only [List.cons_append, List.append_assoc, List.nil_append]
    have read := expression_complete value (by rw [stops]; rfl) rest
    rw [bind_of_ok (expect_of_eq target _ _), bind_of_ok (accept_of_eq known _)]
    simp only [↓reduceIte]
    rw [bind_of_ok (map_of_ok read)]
    exact last_of_eq stops _ _ rest

section

variable {kind : Kind} {fault : GrammarFault} {α : Type} {build : Expr → α}

theorem ended_sound {value : α} (run : ended kind fault build tokens = .ok value rest) :
    ∃ ts stop e, tokens = ts ++ stop :: rest ∧ Whole ts e ∧ stop.kind = kind ∧ build e = value := by
  obtain ⟨e, _, read, run⟩ := bind_eq_ok run
  obtain ⟨same, stop, rfl, stops⟩ := last_eq_ok run
  obtain ⟨ts, rfl, whole⟩ := expression_sound read
  exact ⟨ts, stop, e, rfl, whole, stops, same⟩

theorem ended_complete {ts : List Token} {e : Expr} {stop : Token} (value : Whole ts e)
    (stops : stop.kind = kind) (ends : kind.joins? = none) (rest : List Token) :
    ended kind fault build (ts ++ stop :: rest) = .ok (build e) rest := by
  unfold ended
  rw [bind_of_ok (expression_complete value (stops ▸ ends) rest)]
  exact last_of_eq stops _ _ rest

end

theorem condition_sound {before after : GrammarFault} {c : Expr}
    (run : condition before after tokens = .ok c rest) :
    ∃ ts, tokens = ts ++ rest ∧ Condition ts c := by
  obtain ⟨l, _, opening, run⟩ := bind_eq_ok run
  have run : ended .rightParen after id _ = .ok c rest := run
  obtain ⟨ts, r, e, rfl, whole, closes, rfl⟩ := ended_sound run
  obtain ⟨rfl, opens⟩ := expect_eq_ok opening
  exact ⟨l :: (ts ++ [r]), by simp, .bracketed opens whole closes⟩

theorem condition_complete {ts : List Token} {c : Expr} (h : Condition ts c)
    (before after : GrammarFault) (rest : List Token) :
    condition before after (ts ++ rest) = .ok c rest := by
  cases h with
  | @bracketed l r ts e opens value closes =>
    simp only [List.cons_append, List.append_assoc, List.nil_append]
    have closing : ended .rightParen after id (ts ++ r :: rest) = .ok c rest :=
      ended_complete value closes rfl rest
    unfold condition
    rw [bind_of_ok (expect_of_eq opens _ _)]
    exact closing

theorem initialClause_sound {initial : Option Stmt}
    (run : initialClause tokens = .ok initial rest) :
    ∃ ts, tokens = ts ++ rest ∧ Initial ts initial := by
  unfold initialClause at run
  obtain ⟨empty, _, choice, run⟩ := bind_eq_ok run
  cases empty with
  | true =>
    obtain ⟨rfl, rfl⟩ := pure_eq_ok run
    obtain ⟨stop, rfl, stops⟩ := accept_eq_true choice
    exact ⟨[stop], rfl, .none stops⟩
  | false =>
    simp only [Bool.false_eq_true, ↓reduceIte] at run
    obtain ⟨rfl, _⟩ := accept_eq_false choice
    obtain ⟨declared, _, choice, run⟩ := bind_eq_ok run
    cases declared with
    | true =>
      simp only [↓reduceIte] at run
      obtain ⟨s, _, read, run⟩ := bind_eq_ok run
      obtain ⟨rfl, rfl⟩ := pure_eq_ok run
      obtain ⟨word, rfl, starts⟩ := accept_eq_true choice
      obtain ⟨ts, split, declared⟩ := declaration_sound read starts
      exact ⟨ts, split, .variable declared⟩
    | false =>
      simp only [Bool.false_eq_true, ↓reduceIte] at run
      obtain ⟨s, _, read, run⟩ := bind_eq_ok run
      obtain ⟨rfl, rfl⟩ := pure_eq_ok run
      obtain ⟨rfl, _⟩ := accept_eq_false choice
      obtain ⟨ts, stop, e, rfl, whole, stops, rfl⟩ := ended_sound read
      exact ⟨ts ++ [stop], by simp, .expression whole stops⟩

theorem whole_first {ts : List Token} {e : Expr} (h : Whole ts e) :
    ∃ t more, ts = t :: more ∧ t.kind.inExpression = true ∧ t.kind ≠ .rightParen := by
  obtain ⟨t, more, rfl, other⟩ := derives_first h.1
  exact ⟨t, more, rfl, derives_kinds h.1 t (by simp), other⟩

theorem initialClause_complete {ts : List Token} {initial : Option Stmt} (h : Initial ts initial)
    (rest : List Token) : initialClause (ts ++ rest) = .ok initial rest := by
  unfold initialClause
  cases h with
  | none stops =>
    rw [List.singleton_append, bind_of_ok (accept_of_eq stops _)]
    rfl
  | «variable» declared =>
    obtain ⟨word, more, rfl, starts, read⟩ := declaration_complete declared rest
    rw [List.cons_append, bind_of_ok (accept_of_ne (by simp [starts]))]
    simp only [Bool.false_eq_true, ↓reduceIte]
    rw [bind_of_ok (accept_of_eq starts _)]
    simp only [↓reduceIte]
    rw [bind_of_ok read]
    rfl
  | @expression stop ts e value stops =>
    have read : evaluated (ts ++ stop :: rest) = .ok (.expression e) rest :=
      ended_complete value stops rfl rest
    obtain ⟨t, more, rfl, known, _⟩ := whole_first value
    simp only [List.cons_append, List.append_assoc, List.nil_append] at read ⊢
    rw [bind_of_ok (accept_of_ne (by rintro _ ⟨rfl⟩ same; simp [same, Kind.inExpression] at known))]
    simp only [Bool.false_eq_true, ↓reduceIte]
    rw [bind_of_ok (accept_of_ne (by rintro _ ⟨rfl⟩ same; simp [same, Kind.inExpression] at known))]
    simp only [Bool.false_eq_true, ↓reduceIte]
    rw [bind_of_ok read]
    rfl

theorem conditionClause_sound {c : Expr} (run : conditionClause tokens = .ok c rest) :
    ∃ ts, tokens = ts ++ rest ∧ Test ts c := by
  unfold conditionClause at run
  obtain ⟨empty, _, choice, run⟩ := bind_eq_ok run
  obtain ⟨rfl, same⟩ := nextIs_eq_ok choice
  cases empty with
  | true =>
    simp only [↓reduceIte] at run
    obtain ⟨_, _, read, run⟩ := bind_eq_ok run
    obtain ⟨rfl, stop, rfl, stops⟩ := last_eq_ok run
    obtain ⟨rfl, rfl⟩ := pure_eq_ok read
    exact ⟨[stop], rfl, .none stops⟩
  | false =>
    simp only [Bool.false_eq_true, ↓reduceIte] at run
    have run : ended .semicolon .semicolonAfterCondition id tokens = .ok c rest := run
    obtain ⟨ts, stop, e, rfl, whole, stops, rfl⟩ := ended_sound run
    exact ⟨ts ++ [stop], by simp, .expression whole stops⟩

theorem conditionClause_complete {ts : List Token} {c : Expr} (h : Test ts c)
    (rest : List Token) : conditionClause (ts ++ rest) = .ok c rest := by
  unfold conditionClause
  cases h with
  | @none stop stops =>
    have empty : nextIs .semicolon (stop :: rest) = .ok true (stop :: rest) := by
      simp [nextIs, stops]
    rw [List.singleton_append, bind_of_ok empty]
    simp only [↓reduceIte, pure_bind]
    exact last_of_eq stops _ _ rest
  | @expression stop ts e value stops =>
    have read : ended .semicolon .semicolonAfterCondition id (ts ++ stop :: rest) = .ok c rest :=
      ended_complete value stops rfl rest
    obtain ⟨t, more, rfl, known, _⟩ := whole_first value
    have other : t.kind ≠ .semicolon := by
      intro same
      simp [same, Kind.inExpression] at known
    simp only [List.cons_append, List.append_assoc, List.nil_append] at read ⊢
    rw [bind_of_ok (nextIs_of_ne other _)]
    simp only [Bool.false_eq_true, ↓reduceIte]
    exact read

theorem stepClause_sound {step : Option Expr} (run : stepClause tokens = .ok step rest) :
    ∃ ts, tokens = ts ++ rest ∧ Step ts step := by
  unfold stepClause at run
  obtain ⟨empty, _, choice, run⟩ := bind_eq_ok run
  obtain ⟨rfl, same⟩ := nextIs_eq_ok choice
  cases empty with
  | true =>
    simp only [↓reduceIte] at run
    obtain ⟨_, _, read, run⟩ := bind_eq_ok run
    obtain ⟨rfl, r, rfl, closes⟩ := last_eq_ok run
    obtain ⟨rfl, rfl⟩ := pure_eq_ok read
    exact ⟨[r], rfl, .none closes⟩
  | false =>
    simp only [Bool.false_eq_true, ↓reduceIte] at run
    obtain ⟨_, _, read, run⟩ := bind_eq_ok run
    obtain ⟨rfl, r, rfl, closes⟩ := last_eq_ok run
    obtain ⟨e, value, rfl⟩ := map_eq_ok read
    obtain ⟨ts, rfl, whole⟩ := expression_sound value
    exact ⟨ts ++ [r], by simp, .expression whole closes⟩

theorem stepClause_complete {ts : List Token} {step : Option Expr} (h : Step ts step)
    (rest : List Token) : stepClause (ts ++ rest) = .ok step rest := by
  unfold stepClause
  cases h with
  | @none r closes =>
    have empty : nextIs .rightParen (r :: rest) = .ok true (r :: rest) := by
      simp [nextIs, closes]
    rw [List.singleton_append, bind_of_ok empty]
    simp only [↓reduceIte, pure_bind]
    exact last_of_eq closes _ _ rest
  | @expression r ts e value closes =>
    have read := expression_complete value (by rw [closes]; rfl) rest
    obtain ⟨t, more, rfl, _, other⟩ := whole_first value
    simp only [List.cons_append, List.append_assoc, List.nil_append] at read ⊢
    rw [bind_of_ok (nextIs_of_ne other _)]
    simp only [Bool.false_eq_true, ↓reduceIte]
    rw [bind_of_ok (map_of_ok read)]
    exact last_of_eq closes _ _ rest

end Reader

end Blockscript

import Blockscript.Proofs.Reading.Forward

/-!
Reading statements without bounds. A reader inside another gets fewer tokens than it, so
no bound is ever met, and the readers satisfy the equations one would write without them.
-/
namespace Blockscript

variable {α β : Type}

/-- The readers do the same with up to `n` tokens. -/
def SameUpTo (n : Nat) {γ : Type} (p q : List Token → γ) : Prop :=
  ∀ tokens, tokens.length ≤ n → p tokens = q tokens

namespace PartReader

variable {k n : Nat} {inner inner' : PartReader Stmt} {body body' : Recovering (List Stmt)}

theorem sameUpTo_bind {p q : PartReader α} {f g : α → PartReader β} (same : SameUpTo n p q)
    (h : Takes k p) (next : ∀ value, SameUpTo n (f value) (g value)) :
    SameUpTo n (p >>= f) (q >>= g) := by
  intro tokens enough
  have shorter := h.rest_le tokens
  rcases run : p tokens with ⟨e | value, rest, errors⟩
  · have run' : q tokens = ⟨.error e, rest, errors⟩ := by rw [← same tokens enough, run]
    rw [bind_of_error run, bind_of_error run']
  · have run' : q tokens = ⟨.ok value, rest, errors⟩ := by rw [← same tokens enough, run]
    rw [run] at shorter
    rw [bind_of_ok run, bind_of_ok run', next value rest (Nat.le_trans shorter enough)]

theorem sameUpTo_refl (p : PartReader α) : SameUpTo n p p := fun _ _ => rfl

theorem sameUpTo_lift {reader : Reader α} (h : reader.TakesBeforeEnd k)
    {f g : α → PartReader β} (next : ∀ value, SameUpTo n (f value) (g value)) :
    SameUpTo n ((liftM reader : PartReader α) >>= f) ((liftM reader : PartReader α) >>= g) :=
  sameUpTo_bind (sameUpTo_refl _) (takes_lift h) next

theorem sameUpTo_forStatement (same : SameUpTo n inner inner') (h : Takes k inner) :
    SameUpTo n (forStatement inner) (forStatement inner') :=
  sameUpTo_lift (Reader.takes_expect_beforeEnd (by decide) rfl) fun _ =>
    sameUpTo_lift Reader.takes_initialClause fun _ =>
    sameUpTo_lift Reader.takes_conditionClause fun _ =>
    sameUpTo_lift Reader.takes_stepClause fun _ =>
    sameUpTo_bind same h fun _ => sameUpTo_refl _

theorem sameUpTo_ifStatement (same : SameUpTo n inner inner') (h : Takes k inner) :
    SameUpTo n (ifStatement inner) (ifStatement inner') := by
  refine sameUpTo_lift (Reader.takes_condition_beforeEnd rfl rfl) fun condition => ?_
  refine sameUpTo_bind same h fun accepted => ?_
  refine sameUpTo_lift (Reader.takes_accept_beforeEnd (by decide)) fun more => ?_
  cases more with
  | true =>
    simp only [↓reduceIte, map_eq_bind]
    exact sameUpTo_bind (sameUpTo_bind same h fun _ => sameUpTo_refl _)
      (h.bind fun _ => takes_pure _) fun _ => sameUpTo_refl _
  | false => exact sameUpTo_refl _

theorem sameUpTo_whileStatement (same : SameUpTo n inner inner') (h : Takes k inner) :
    SameUpTo n (whileStatement inner) (whileStatement inner') :=
  sameUpTo_lift (Reader.takes_condition_beforeEnd rfl rfl) fun _ =>
    sameUpTo_bind same h fun _ => sameUpTo_refl _

theorem sameUpTo_blockStatement (same : SameUpTo n body body') (h : body.Takes) :
    SameUpTo n (blockStatement body) (blockStatement body') := by
  have lifted : SameUpTo n (liftM body : PartReader (List Stmt))
      (liftM body' : PartReader (List Stmt)) := by
    intro tokens enough
    rw [lift_recovering, lift_recovering, same tokens enough]
  exact sameUpTo_bind lifted (takes_recovering h) fun _ => sameUpTo_refl _

theorem sameUpTo_statementOf (same : SameUpTo n inner inner') (same' : SameUpTo n body body')
    (h : Takes k inner) (h' : body.Takes) :
    SameUpTo (n + 1) (statementOf inner body) (statementOf inner' body') := by
  intro tokens enough
  cases tokens with
  | nil => rfl
  | cons t rest =>
    -- the parts of a statement stand behind its first word
    have fewer : rest.length ≤ n := Nat.le_of_succ_le_succ enough
    simp only [statementOf]
    split
    · exact sameUpTo_forStatement same h rest fewer
    · exact sameUpTo_ifStatement same h rest fewer
    · exact sameUpTo_whileStatement same h rest fewer
    · rfl
    · exact sameUpTo_blockStatement same' h' rest fewer
    · rfl

theorem sameUpTo_declarationOf (same : SameUpTo n inner inner') :
    SameUpTo n (declarationOf inner) (declarationOf inner') := by
  intro tokens enough
  cases tokens with
  | nil => exact same [] (Nat.zero_le n)
  | cons t rest =>
    simp only [declarationOf]
    split
    · rfl
    · exact same _ enough

theorem sameUpTo_recover {p q : PartReader α} (same : SameUpTo n p q) :
    SameUpTo n (recover p) (recover q) := by
  intro tokens enough
  rcases run : p tokens with ⟨e | value, rest, errors⟩
  · have run' : q tokens = ⟨.error e, rest, errors⟩ := by rw [← same tokens enough, run]
    rw [Recovering.recover_of_error run, Recovering.recover_of_error run']
  · have run' : q tokens = ⟨.ok value, rest, errors⟩ := by rw [← same tokens enough, run]
    rw [Recovering.recover_of_ok run, Recovering.recover_of_ok run']

end PartReader

namespace Recovering

variable {n : Nat} {declaration declaration' : Recovering (Option Stmt)} {closes : Kind → Bool}

theorem not_end_of_open {t : Token} (opens : ¬ (t.isEnd || closes t.kind) = true) :
    t.kind ≠ .endOfFile := by
  intro ended
  simp [Token.isEnd, ended] at opens

theorem itemsWithin_same (same : SameUpTo n declaration declaration') (h : Advances declaration)
    {bound bound' tokens : List Token} (enough : tokens.length ≤ n)
    (within_ : tokens.length ≤ bound.length) (within' : tokens.length ≤ bound'.length) :
    itemsWithin declaration closes bound tokens =
      itemsWithin declaration' closes bound' tokens := by
  induction bound generalizing bound' tokens with
  | nil =>
    obtain rfl : tokens = [] := List.length_eq_zero_iff.mp (Nat.le_zero.mp within_)
    rw [itemsWithin_stops, itemsWithin_stops]
  | cons b bound ih =>
    cases tokens with
    | nil => rw [itemsWithin_stops, itemsWithin_stops]
    | cons t rest =>
      cases bound' with
      | nil => simp at within'
      | cons b' bound' =>
        rw [itemsWithin_cons, itemsWithin_cons]
        split
        · rfl
        · rename_i opens
          have shorter := h t rest (not_end_of_open opens)
          have agree := same (t :: rest) enough
          rw [agree] at shorter
          simp only [List.length_cons] at enough within_ within' shorter
          have more : itemsWithin declaration closes bound (declaration' (t :: rest)).rest =
              itemsWithin declaration' closes bound' (declaration' (t :: rest)).rest :=
            ih (by omega) (by omega) (by omega)
          simp only [agree, more]

theorem items_same (same : SameUpTo n declaration declaration') (h : Advances declaration) :
    SameUpTo n (items declaration closes) (items declaration' closes) :=
  fun _ enough => itemsWithin_same same h enough (Nat.le_refl _) (Nat.le_refl _)

theorem items_cons (h : Advances declaration) (t : Token) (rest : List Token) :
    items declaration closes (t :: rest) =
      if t.isEnd || closes t.kind then ⟨[], t :: rest, []⟩
      else
        let first := declaration (t :: rest)
        let more := items declaration closes first.rest
        ⟨first.value.toList ++ more.value, more.rest, first.errors ++ more.errors⟩ := by
  rw [items, itemsWithin_cons]
  split
  · rfl
  · rename_i opens
    have shorter := h t rest (not_end_of_open opens)
    have more : itemsWithin declaration closes rest (declaration (t :: rest)).rest =
        items declaration closes (declaration (t :: rest)).rest :=
      itemsWithin_same (fun _ _ => rfl) h (Nat.le_refl _) (Nat.le_of_lt_succ shorter)
        (Nat.le_refl _)
    simp only [more]

end Recovering

namespace PartReader

def body : Recovering (List Stmt) :=
  Recovering.items (recover declaration) (· = .rightBrace)

theorem declaration_advances : Recovering.Advances (recover declaration) :=
  Recovering.recover_advances takes_declaration

theorem sameUpTo_step {n : Nat} {inner inner' : PartReader Stmt} (same : SameUpTo n inner inner')
    (h : Takes 1 inner) {closes : Kind → Bool} :
    SameUpTo (n + 1)
      (statementOf inner (Recovering.items (recover (declarationOf inner)) closes))
      (statementOf inner' (Recovering.items (recover (declarationOf inner')) closes)) := by
  have takes := takes_declarationOf h
  have declarations := sameUpTo_recover (sameUpTo_declarationOf same)
  exact sameUpTo_statementOf same
    (Recovering.items_same declarations (Recovering.recover_advances takes)) h
    (Recovering.takes_items (Recovering.takes_recover takes))

theorem statementWithin_same {n : Nat} {bound bound' : List Token} (enough : n ≤ bound.length)
    (enough' : n ≤ bound'.length) :
    SameUpTo n (statementWithin bound) (statementWithin bound') := by
  induction n generalizing bound bound' with
  | zero =>
    intro tokens few
    obtain rfl : tokens = [] := List.length_eq_zero_iff.mp (Nat.le_zero.mp few)
    cases bound <;> cases bound' <;> rfl
  | succ n ih =>
    cases bound with
    | nil => simp at enough
    | cons b bound =>
      cases bound' with
      | nil => simp at enough'
      | cons b' bound' =>
        have inner := ih (Nat.le_of_succ_le_succ enough) (Nat.le_of_succ_le_succ enough')
        exact sameUpTo_step inner (takes_statementWithin bound)

/-- A statement is read by its first word, and what is inside it as a statement or as the
    declarations of a block. -/
theorem statement_eq : statement = statementOf statement body := by
  funext tokens
  cases tokens with
  | nil => rfl
  | cons t rest =>
    have inner : SameUpTo rest.length (statementWithin rest) statement :=
      fun tokens few => statementWithin_same few (Nat.le_refl _) tokens (Nat.le_refl _)
    exact sameUpTo_step inner (takes_statementWithin rest) (t :: rest) (Nat.le_refl _)

end PartReader

end Blockscript

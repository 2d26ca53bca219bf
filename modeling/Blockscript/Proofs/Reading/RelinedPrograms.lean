import Blockscript.Proofs.Reading.Relined

/-!
Reading programs from tokens that bear other lines. What is given up and where reading goes on
behind it does not depend on lines either.
-/
namespace Blockscript

variable {α β : Type}

def Recovered.relined (g : Nat → Nat) (f : α → α) (r : Recovered α) : Recovered α :=
  ⟨f r.value, r.rest.map (Token.relined g), r.errors.map (Error.relined g)⟩

def Recovering.Relines (g : Nat → Nat) (f : α → α) (reader reader' : Recovering α) : Prop :=
  ∀ tokens, reader' (tokens.map (Token.relined g)) = (reader tokens).relined g f

namespace PartReader

variable {g : Nat → Nat} {f : α → α} {f' : β → β}

def relinedExcept (g : Nat → Nat) (f : α → α) : Except Error α → Except Error α
  | .ok value => .ok (f value)
  | .error e => .error (e.relined g)

def Relines (g : Nat → Nat) (f : α → α) (reader reader' : PartReader α) : Prop :=
  Recovering.Relines g (relinedExcept g f) reader reader'

theorem relines_pure (f : α → α) (value : α) : Relines g f (pure value) (pure (f value)) :=
  fun _ => rfl

theorem Relines.bind {reader reader' : PartReader α} {next next' : α → PartReader β}
    (first : Relines g f reader reader')
    (second : ∀ value, Relines g f' (next value) (next' (f value))) :
    Relines g f' (reader >>= next) (reader' >>= next') := by
  intro tokens
  have head := first tokens
  rcases run : reader tokens with ⟨e | value, rest, errors⟩
  · rw [run] at head
    rw [bind_of_error run, bind_of_error head]
    rfl
  · rw [run] at head
    rw [bind_of_ok run, bind_of_ok head, second value rest]
    simp only [Recovered.relined, List.map_append]

theorem relines_lift {reader reader' : Reader α} (h : Reader.Relines g f reader reader') :
    Relines g f (liftM reader) (liftM reader') := by
  intro tokens
  have head := h tokens
  cases run : reader tokens with
  | ok value rest =>
    rw [run] at head
    rw [lift_of_ok run, lift_of_ok head]
    rfl
  | error e rest =>
    rw [run] at head
    rw [lift_of_error run, lift_of_error head]
    rfl

theorem relines_recovering {reader reader' : Recovering α}
    (h : Recovering.Relines g f reader reader') :
    Relines g f (liftM reader) (liftM reader') := by
  intro tokens
  rw [lift_recovering, lift_recovering, h tokens]
  rfl

abbrev RelinesStmt (g : Nat → Nat) (reader reader' : PartReader Stmt) : Prop :=
  Relines g (Stmt.relined g) reader reader'

variable {inner inner' : PartReader Stmt} {body body' : Recovering (List Stmt)}

theorem relines_forStatement (zero : g 0 = 0) (h : RelinesStmt g inner inner') :
    RelinesStmt g (forStatement inner) (forStatement inner') := by
  refine (relines_lift (Reader.relines_expect zero _ _)).bind fun _ => ?_
  refine (relines_lift (Reader.relines_initialClause zero)).bind fun initial => ?_
  refine (relines_lift (Reader.relines_conditionClause zero)).bind fun condition => ?_
  refine (relines_lift (Reader.relines_stepClause zero)).bind fun step => ?_
  refine h.bind fun body => ?_
  rw [← Stmt.relined_forLoop]
  exact relines_pure _ _

theorem relines_ifStatement (zero : g 0 = 0) (h : RelinesStmt g inner inner') :
    RelinesStmt g (ifStatement inner) (ifStatement inner') := by
  have whole : ∀ (condition : Expr) (accepted : Stmt) (rejected : Option Stmt),
      Relines g (Stmt.relined g) (pure (.branch condition accepted rejected))
        (pure (.branch (condition.relined g) (accepted.relined g)
          (rejected.map (Stmt.relined g)))) := by
    intro condition accepted rejected
    rw [← Stmt.relined_branch]
    exact relines_pure _ _
  refine (relines_lift (Reader.relines_condition zero _ _)).bind fun condition => ?_
  refine h.bind fun accepted => ?_
  refine (relines_lift (Reader.relines_accept _)).bind fun more => ?_
  cases more with
  | true =>
    simp only [id_eq, ↓reduceIte, map_eq_bind]
    have rejected : Relines g (Option.map (Stmt.relined g)) (inner >>= fun s => pure (some s))
        (inner' >>= fun s => pure (some s)) := h.bind fun s => relines_pure _ (some s)
    exact rejected.bind (whole condition accepted)
  | false =>
    exact (relines_pure (Option.map (Stmt.relined g)) none).bind (whole condition accepted)

theorem relines_whileStatement (zero : g 0 = 0) (h : RelinesStmt g inner inner') :
    RelinesStmt g (whileStatement inner) (whileStatement inner') :=
  (relines_lift (Reader.relines_condition zero _ _)).bind fun condition =>
    h.bind fun body => relines_pure _ (Stmt.loop condition body)

theorem relines_blockStatement (zero : g 0 = 0)
    (h : Recovering.Relines g (Stmt.allRelined g) body body') :
    RelinesStmt g (blockStatement body) (blockStatement body') :=
  (relines_recovering h).bind fun body =>
    (relines_lift (Reader.relines_expect zero _ _)).bind fun _ => relines_pure _ (Stmt.block body)

theorem relines_statementOf (zero : g 0 = 0) (h : RelinesStmt g inner inner')
    (h' : Recovering.Relines g (Stmt.allRelined g) body body') :
    RelinesStmt g (statementOf inner body) (statementOf inner' body') := by
  have evaluated := relines_lift (Reader.relines_evaluated zero)
  intro tokens
  cases tokens with
  | nil => exact evaluated []
  | cons t rest =>
    simp only [List.map_cons, statementOf, Token.kind_relined]
    split
    · exact relines_forStatement zero h rest
    · exact relines_ifStatement zero h rest
    · exact relines_whileStatement zero h rest
    · exact relines_lift (Reader.relines_printed zero) rest
    · exact relines_blockStatement zero h' rest
    · exact evaluated (t :: rest)

theorem relines_declarationOf (zero : g 0 = 0) (h : RelinesStmt g inner inner') :
    RelinesStmt g (declarationOf inner) (declarationOf inner') := by
  intro tokens
  cases tokens with
  | nil => exact h []
  | cons t rest =>
    simp only [List.map_cons, declarationOf, Token.kind_relined]
    split
    · exact relines_lift (Reader.relines_declaration zero) rest
    · exact h (t :: rest)

end PartReader

theorem resume_relined (g : Nat → Nat) (tokens : List Token) :
    resume (tokens.map (Token.relined g)) = (resume tokens).map (Token.relined g) := by
  induction tokens with
  | nil => rfl
  | cons t rest ih =>
    have starts : (∃ u ∈ (rest.map (Token.relined g)).head?, u.kind.startsStatement = true) ↔
        ∃ u ∈ rest.head?, u.kind.startsStatement = true := by
      cases rest <;> simp
    simp only [List.map_cons, resume_cons, Token.kind_relined, Token.isEnd_relined, starts, ih]
    split
    · rfl
    split
    · rfl
    split <;> rfl

namespace Recovering

variable {g : Nat → Nat} {f : α → α}

variable {declaration declaration' : Recovering (Option Stmt)}

theorem relines_recover {reader reader' : PartReader α}
    (h : PartReader.Relines g f reader reader') :
    Relines g (Option.map f) (recover reader) (recover reader') := by
  intro tokens
  have head := h tokens
  rcases run : reader tokens with ⟨e | value, rest, errors⟩
  · rw [run] at head
    rw [recover_of_error run, recover_of_error head, resume_relined]
    simp [Recovered.relined]
  · rw [run] at head
    rw [recover_of_ok run, recover_of_ok head]
    rfl

theorem relines_itemsWithin
    (h : Relines g (Option.map (Stmt.relined g)) declaration declaration')
    (closes : Kind → Bool) (bound : List Token) :
    Relines g (Stmt.allRelined g) (itemsWithin declaration closes bound)
      (itemsWithin declaration' closes (bound.map (Token.relined g))) := by
  induction bound with
  | nil => exact fun _ => rfl
  | cons b bound ih =>
    intro tokens
    cases tokens with
    | nil => rfl
    | cons t rest =>
      have first := h (t :: rest)
      rw [List.map_cons] at first
      rw [List.map_cons, List.map_cons, itemsWithin_cons, itemsWithin_cons,
        Token.kind_relined, Token.isEnd_relined]
      split
      · rfl
      · have more := ih (declaration (t :: rest)).rest
        simp only [first, Recovered.relined, more, Stmt.allRelined_eq, List.map_append,
          Option.toList_map]

theorem relines_items (h : Relines g (Option.map (Stmt.relined g)) declaration declaration')
    (closes : Kind → Bool) :
    Relines g (Stmt.allRelined g) (items declaration closes) (items declaration' closes) :=
  fun tokens => relines_itemsWithin h closes tokens tokens

end Recovering

variable {g : Nat → Nat}

theorem PartReader.relines_statementWithin (zero : g 0 = 0) (bound : List Token) :
    RelinesStmt g (statementWithin bound) (statementWithin (bound.map (Token.relined g))) := by
  induction bound with
  | nil => exact relines_lift (Reader.relines_evaluated zero)
  | cons b bound ih =>
    have declarations := Recovering.relines_recover (relines_declarationOf zero ih)
    exact relines_statementOf zero ih (Recovering.relines_items declarations _)

theorem PartReader.relines_declarationRead (zero : g 0 = 0) :
    RelinesStmt g declaration declaration :=
  relines_declarationOf zero fun tokens => relines_statementWithin zero tokens tokens

/-- A program and its errors are those of the same tokens in other lines, with these lines. -/
theorem Program.relines_read (zero : g 0 = 0) :
    Recovering.Relines g (Stmt.allRelined g) Program.read Program.read :=
  Recovering.relines_items (Recovering.relines_recover (PartReader.relines_declarationRead zero)) _

end Blockscript

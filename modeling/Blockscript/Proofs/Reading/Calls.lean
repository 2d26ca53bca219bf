import Blockscript.Proofs.Reading.Programs

/-!
The calls that the readers of declarations make. Every call is made on tokens that are left, and
those made in its course are made behind it or by a reader further inside, so they form a tree.
-/
namespace Blockscript

variable {α : Type}

theorem Along.quiet {tokens rest : List Token} {errors : List Error}
    (h : Along tokens rest errors) : Along tokens rest [] := by
  obtain ⟨used, rfl, kinds⟩ := h.taken
  exact (Along.here rest).behind kinds

theorem Reader.Takes.along {reader : Reader α} {n : Nat} (h : reader.TakesBeforeEnd n)
    {tokens rest : List Token} {value : α} (run : reader tokens = .ok value rest) :
    Along tokens rest [] := by
  have went := h tokens
  rw [run] at went
  obtain ⟨used, rfl, kinds, -⟩ := went
  exact (Along.here rest).behind kinds

namespace PartReader

/-- A call of a reader, with the tokens that are left then. -/
inductive Call where
  /-- What is left of a loop over declarations. -/
  | items (closes : Kind → Bool) (tokens : List Token)
  | declaration (tokens : List Token)
  | statement (tokens : List Token)
  /-- A block behind its opening brace. -/
  | block (tokens : List Token)

def forClauses : Reader (Option Stmt × Expr × Option Expr) := do
  let _ ← Reader.expect .leftParen .parenAfterFor
  let initial ← Reader.initialClause
  let condition ← Reader.conditionClause
  let step ← Reader.stepClause
  return (initial, condition, step)

theorem forStatement_eq (inner : PartReader Stmt) :
    forStatement inner = do
      let clauses ← (liftM forClauses : PartReader (Option Stmt × Expr × Option Expr))
      return Stmt.forLoop clauses.1 clauses.2.1 clauses.2.2 (← inner) := by
  simp only [forStatement, forClauses, lift_bind_bind, lift_pure_bind]

theorem takes_forClauses : forClauses.TakesBeforeEnd 0 :=
  ((Reader.takes_expect_beforeEnd (by decide) rfl).fewer (Nat.zero_le 1)).zero_bind fun _ =>
    Reader.takes_initialClause.zero_bind fun _ =>
    Reader.takes_conditionClause.zero_bind fun _ =>
    Reader.takes_stepClause.zero_bind fun _ => Reader.takes_pure _

namespace Call

def tokens : Call → List Token
  | items _ tokens | declaration tokens | statement tokens | block tokens => tokens

def behind (head : Reader α) (tokens : List Token) : List Call :=
  match head tokens with
  | .ok _ rest => [statement rest]
  | .error .. => []

def otherwise (tokens : List Token) : List Call :=
  match PartReader.statement tokens with
  | ⟨.ok _, rest, _⟩ =>
    match Reader.accept .elseWord rest with
    | .ok true more => [statement more]
    | _ => []
  | ⟨.error _, _, _⟩ => []

def branches (tokens : List Token) : List Call :=
  match Reader.condition .parenAfterIf .parenAfterIfCondition tokens with
  | .ok _ rest => statement rest :: otherwise rest
  | .error .. => []

def calls : Call → List Call
  | items closes (t :: rest) =>
    if t.isEnd || closes t.kind then []
    else
      [declaration (t :: rest), items closes (recover PartReader.declaration (t :: rest)).rest]
  | declaration (t :: rest) => if t.kind = .varWord then [] else [statement (t :: rest)]
  | statement (t :: rest) =>
    match t.kind with
    | .forWord => behind forClauses rest
    | .ifWord => branches rest
    | .whileWord => behind (Reader.condition .parenAfterWhile .parenAfterCondition) rest
    | .leftBrace => [block rest]
    | _ => []
  | block tokens => [items (· = .rightBrace) tokens]
  | items _ [] | statement [] => []
  | declaration [] => [statement []]

/-- Further inside stands the reader that is called without a token taken. -/
def rank : Call → Nat
  | block _ => 3
  | items .. => 2
  | declaration _ => 1
  | statement _ => 0

def size (c : Call) : Nat := 4 * c.tokens.length + c.rank

structure Leads (c d : Call) : Prop where
  along : Along c.tokens d.tokens []
  inside : d.tokens.length = c.tokens.length → d.rank < c.rank

theorem rank_le (c : Call) : c.rank ≤ 3 := by
  cases c <;> simp [rank]

theorem Leads.size_lt {c d : Call} (h : Leads c d) : d.size < c.size := by
  have fewer := h.along.length_le
  have deep := d.rank_le
  unfold size
  rcases Nat.lt_or_eq_of_le fewer with less | same
  · omega
  · have := h.inside same
    omega

section

variable {tokens : List Token} {d : Call}

theorem along_behind {head : Reader α} {n : Nat} (takes : head.TakesBeforeEnd n)
    (made : d ∈ behind head tokens) : Along tokens d.tokens [] := by
  unfold behind at made
  cases run : head tokens with
  | ok value rest =>
    rw [run] at made
    obtain rfl : d = statement rest := List.mem_singleton.mp made
    exact takes.along run
  | error e rest =>
    rw [run] at made
    cases made

theorem along_otherwise (made : d ∈ otherwise tokens) : Along tokens d.tokens [] := by
  unfold otherwise at made
  have went := (takes_statement tokens).along.quiet
  rcases run : PartReader.statement tokens with ⟨e | s, rest, errors⟩
  · rw [run] at made
    cases made
  · rw [run] at made went
    cases turn : Reader.accept .elseWord rest with
    | ok more behind =>
      simp only [turn] at made
      cases more with
      | true =>
        obtain rfl : d = statement behind := List.mem_singleton.mp made
        exact went.append ((Reader.takes_accept_beforeEnd (by decide)).along turn)
      | false => cases made
    | error e behind =>
      simp only [turn] at made
      cases made

theorem along_branches (made : d ∈ branches tokens) : Along tokens d.tokens [] := by
  unfold branches at made
  cases run : Reader.condition .parenAfterIf .parenAfterIfCondition tokens with
  | ok c rest =>
    have head := (Reader.takes_condition_beforeEnd rfl rfl).along run
    rw [run] at made
    rcases List.mem_cons.mp made with rfl | made
    · exact head
    · exact head.append (along_otherwise made)
  | error e rest =>
    rw [run] at made
    cases made

theorem leads_of_mem_calls {c : Call} (made : d ∈ c.calls) : Leads c d := by
  cases c with
  | block tokens =>
    obtain rfl : d = items _ tokens := List.mem_singleton.mp made
    exact ⟨.here tokens, fun _ => Nat.lt_succ_self 2⟩
  | items closes tokens =>
    cases tokens with
    | nil => cases made
    | cons t rest =>
      simp only [calls] at made
      split at made
      · cases made
      · rename_i opens
        have went := (Recovering.takes_recover takes_declaration (t :: rest)).quiet
        have fewer := declaration_advances t rest (Recovering.not_end_of_open opens)
        rcases List.mem_cons.mp made with rfl | made
        · exact ⟨.here _, fun _ => Nat.lt_succ_self 1⟩
        · obtain rfl : d = items closes _ := List.mem_singleton.mp made
          exact ⟨went, fun same => absurd same (Nat.ne_of_lt fewer)⟩
  | declaration tokens =>
    cases tokens with
    | nil =>
      obtain rfl : d = statement [] := List.mem_singleton.mp made
      exact ⟨.here [], fun _ => Nat.lt_succ_self 0⟩
    | cons t rest =>
      simp only [calls] at made
      split at made
      · cases made
      · obtain rfl : d = statement (t :: rest) := List.mem_singleton.mp made
        exact ⟨.here _, fun _ => Nat.lt_succ_self 0⟩
  | statement tokens =>
    cases tokens with
    | nil => cases made
    | cons t rest =>
      have behindWord : ∀ {d : Call}, t.kind ≠ .endOfFile → Along rest d.tokens [] →
          Leads (statement (t :: rest)) d := fun before along =>
        ⟨.past before along, fun same => absurd (same ▸ along.length_le) (Nat.not_succ_le_self _)⟩
      simp only [calls] at made
      split at made
      · rename_i word
        exact behindWord (by simp [word]) (along_behind takes_forClauses made)
      · rename_i word
        exact behindWord (by simp [word]) (along_branches made)
      · rename_i word
        exact behindWord (by simp [word])
          (along_behind (Reader.takes_condition_beforeEnd rfl rfl) made)
      · rename_i word
        obtain rfl : d = block rest := List.mem_singleton.mp made
        exact behindWord (by simp [word]) (.here rest)
      · cases made

end

def all (c : Call) : List Call :=
  c :: c.calls.attach.flatMap fun d => d.1.all
termination_by c.size
decreasing_by exact (leads_of_mem_calls d.2).size_lt

theorem all_eq (c : Call) : c.all = c :: c.calls.flatMap all := by
  rw [all, List.flatMap_subtype fun _ _ => rfl, List.unattach_attach]

end Call

end PartReader

end Blockscript

import Blockscript.Proofs.Reading.Calls
import Blockscript.Proofs.Reading.Order

/-!
Errors at the end of the source. Every block that comes there without its closing brace costs one,
and one more thing may be cut off. The errors before these point at tokens in front of the end, one
behind the other.
-/
namespace Blockscript

variable {α β : Type} {stop : Token} {after : List Token} {m n : Nat}

/-- One error at the end for what is cut off there, if anything is, and one for each of `n`
    blocks. -/
def errorsAtEnd (stop : Token) (cut : Option GrammarFault) (n : Nat) : List Error :=
  (cut.toList ++ List.replicate n GrammarFault.braceAfterBlock).map (.grammar stop)

theorem errorsAtEnd_succ (stop : Token) (cut : Option GrammarFault) (n : Nat) :
    errorsAtEnd stop cut (n + 1) = errorsAtEnd stop cut n ++ [.grammar stop .braceAfterBlock] := by
  simp [errorsAtEnd, List.replicate_succ']

/-- The errors on the way to `rest`, where `n` blocks are open. Only at the end is something else
    cut off. -/
inductive LeftOpen (stop : Token) (after : List Token) : List Token → List Error → Nat → Prop where
  | early {rest : List Token} {errors : List Error} (before : ∀ e ∈ errors, e.BeforeEnd) :
      LeftOpen stop after rest errors 0
  | late {earlier : List Error} (before : ∀ e ∈ earlier, e.BeforeEnd) {cut : Option GrammarFault}
      (other : cut ≠ some .braceAfterBlock) (n : Nat) :
      LeftOpen stop after (stop :: after) (earlier ++ errorsAtEnd stop cut n) n

namespace LeftOpen

variable {between rest : List Token} {errors errors' : List Error}

theorem behind (h : LeftOpen stop after rest errors' n) (before : ∀ e ∈ errors, e.BeforeEnd) :
    LeftOpen stop after rest (errors ++ errors') n := by
  cases h with
  | early before' => exact .early (List.forall_mem_append.mpr ⟨before, before'⟩)
  | late before' other =>
    rw [← List.append_assoc]
    exact .late (List.forall_mem_append.mpr ⟨before, before'⟩) other n

theorem append (first : LeftOpen stop after between errors m)
    (second : LeftOpen stop after rest errors' n)
    (beyond : between = stop :: after → rest = between ∧ errors' = [] ∧ n = 0) :
    LeftOpen stop after rest (errors ++ errors') (m + n) := by
  cases first with
  | early before => rw [Nat.zero_add]; exact second.behind before
  | late before other =>
    obtain ⟨rfl, rfl, rfl⟩ := beyond rfl
    rw [List.append_nil]
    exact .late before other m

theorem brace (h : LeftOpen stop after rest errors n) :
    LeftOpen stop after (stop :: after) (errors ++ [.grammar stop .braceAfterBlock]) (n + 1) := by
  cases h with
  | early before =>
    have other : none ≠ some GrammarFault.braceAfterBlock := by simp
    exact .late before other 1
  | late before other =>
    rw [List.append_assoc, ← errorsAtEnd_succ]
    exact .late before other (n + 1)

theorem resumed (h : LeftOpen stop after rest errors n) (ends : stop.kind = .endOfFile) :
    LeftOpen stop after (resume rest) errors n := by
  cases h with
  | early before => exact .early before
  | late before other =>
    rw [resume_of_end ends]
    exact .late before other n

theorem beforeEnd {t : Token} (h : LeftOpen stop after (t :: rest) errors n)
    (ends : stop.kind = .endOfFile) (before : t.kind ≠ .endOfFile) :
    n = 0 ∧ ∀ e ∈ errors, e.BeforeEnd := by
  cases h with
  | early known => exact ⟨rfl, known⟩
  | late => exact absurd ends before

theorem pointsAt {e : Error} {used : List Token} (h : PointsAt e used rest)
    (kinds : ∀ t ∈ used, t.kind ≠ .endOfFile) (towards : Along rest (stop :: after) []) :
    LeftOpen stop after rest [e] 0 := by
  have early : ∀ {t : Token} {fault}, t.kind ≠ .endOfFile →
      LeftOpen stop after rest [.grammar t fault] 0 := fun {t fault} before =>
    .early (List.forall_mem_singleton.mpr ⟨t, fault, rfl, by simpa [Token.isEnd] using before⟩)
  rcases h with ⟨fault, plain, rfl⟩ | ⟨t, fault, -, last, rfl⟩
  · cases towards with
    | here =>
      have other : some fault ≠ some .braceAfterBlock := fun same =>
        GrammarFault.ne_brace_of_isPlain plain (Option.some.inj same)
      exact .late (List.forall_mem_nil _) other 0
    | past before _ => exact early before
  · exact early (kinds t (List.mem_of_getLast? last))

theorem split (h : LeftOpen stop after rest errors n) :
    ∃ earlier cut, errors = earlier ++ errorsAtEnd stop cut n ∧ (∀ e ∈ earlier, e.BeforeEnd) ∧
      cut ≠ some .braceAfterBlock := by
  cases h with
  | early before => exact ⟨errors, none, (List.append_nil errors).symm, before, by simp⟩
  | late before other => exact ⟨_, _, rfl, before, other⟩

end LeftOpen

inductive Recovered.Leaves (stop : Token) (after : List Token) :
    Recovered (Except Error α) → Nat → Prop where
  | ok {value : α} {rest : List Token} {errors : List Error} (before : ∀ e ∈ errors, e.BeforeEnd) :
      Leaves stop after ⟨.ok value, rest, errors⟩ 0
  | error {e : Error} {rest : List Token} {errors : List Error} {n : Nat}
      (noted : LeftOpen stop after rest (errors ++ [e]) n) :
      Leaves stop after ⟨.error e, rest, errors⟩ n

theorem Recovered.Leaves.behind {r : Recovered (Except Error α)} {errors : List Error}
    (h : r.Leaves stop after n) (before : ∀ e ∈ errors, e.BeforeEnd) :
    Leaves stop after ⟨r.value, r.rest, errors ++ r.errors⟩ n := by
  cases h with
  | ok before' => exact .ok (List.forall_mem_append.mpr ⟨before, before'⟩)
  | error noted =>
    refine .error ?_
    rw [List.append_assoc]
    exact noted.behind before

namespace PartReader

def Call.isOpen : Call → Bool
  | .block tokens => (body tokens).rest.head?.any (·.isEnd)
  | _ => false

/-- So many blocks called in the course of a call are open where the source ends. -/
def Call.openBlocks (c : Call) : Nat := c.all.countP isOpen

def Call.openIn (calls : List Call) : Nat := (calls.flatMap all).countP isOpen

theorem Call.openIn_nil : openIn [] = 0 := rfl

theorem Call.openIn_cons (c : Call) (more : List Call) :
    openIn (c :: more) = c.openBlocks + openIn more :=
  List.countP_append

theorem Call.openIn_singleton (c : Call) : openIn [c] = c.openBlocks := openIn_cons c []

theorem Call.openBlocks_eq (c : Call) :
    c.openBlocks = openIn c.calls + if c.isOpen then 1 else 0 := by
  rw [openBlocks, all_eq, List.countP_cons]
  rfl

theorem Call.openBlocks_through {c : Call} (through : c.isOpen = false) :
    c.openBlocks = openIn c.calls := by
  rw [openBlocks_eq, through]
  rfl

def Call.Leaves (stop : Token) (after : List Token) : Call → Prop
  | .items closes tokens =>
    LeftOpen stop after (Recovering.items (recover PartReader.declaration) closes tokens).rest
      (Recovering.items (recover PartReader.declaration) closes tokens).errors
      (Call.items closes tokens).openBlocks
  | .declaration tokens =>
    (PartReader.declaration tokens).Leaves stop after (Call.declaration tokens).openBlocks
  | .statement tokens =>
    (PartReader.statement tokens).Leaves stop after (Call.statement tokens).openBlocks
  | .block tokens => (blockStatement body tokens).Leaves stop after (Call.block tokens).openBlocks

section

variable {tokens : List Token} (ends : stop.kind = .endOfFile)
  (towards : Along tokens (stop :: after) [])

include ends towards

theorem leaves_lift {reader : Reader α} (takes : reader.TakesBeforeEnd m) :
    ((liftM reader : PartReader α) tokens).Leaves stop after 0 := by
  have went := takes tokens
  cases run : reader tokens with
  | ok value rest =>
    rw [lift_of_ok run]
    exact .ok (List.forall_mem_nil _)
  | error e rest =>
    rw [run] at went
    obtain ⟨used, rfl, kinds, points⟩ := went
    rw [lift_of_error run]
    exact .error (.pointsAt points kinds (((Along.here rest).behind kinds).towards ends towards))

omit ends towards in
theorem leaves_bind {reader : PartReader α} {next : α → PartReader β}
    (first : (reader tokens).Leaves stop after m)
    (failed : ∀ e rest errors, reader tokens = ⟨.error e, rest, errors⟩ → n = 0)
    (later : ∀ value rest errors, reader tokens = ⟨.ok value, rest, errors⟩ →
      (next value rest).Leaves stop after n) :
    ((reader >>= next) tokens).Leaves stop after (m + n) := by
  rcases run : reader tokens with ⟨e | value, rest, errors⟩
  · rw [run] at first
    rw [bind_of_error run, failed e rest errors run]
    cases first with
    | error noted => exact .error noted
  · rw [run] at first
    rw [bind_of_ok run]
    cases first with
    | ok before =>
      rw [Nat.zero_add]
      exact (later value rest errors run).behind before

theorem leaves_lift_bind {head : Reader α} {next : α → PartReader β}
    (takes : head.TakesBeforeEnd m) (failed : ∀ e rest, head tokens = .error e rest → n = 0)
    (later : ∀ value rest, head tokens = .ok value rest → Along rest (stop :: after) [] →
      (next value rest).Leaves stop after n) :
    (((liftM head : PartReader α) >>= next) tokens).Leaves stop after n := by
  rw [← Nat.zero_add n]
  refine leaves_bind (leaves_lift ends towards takes) ?_ ?_
  · intro e rest errors lifted
    cases run : head tokens with
    | ok value rest => simp [lift_of_ok run] at lifted
    | error e rest => exact failed e rest run
  · intro value rest errors lifted
    obtain ⟨run, -⟩ := lift_eq_ok lifted
    exact later value rest run ((takes.along run).towards ends towards)

omit ends towards in
theorem leaves_return {reader : PartReader α} {f : α → β}
    (h : (reader tokens).Leaves stop after n) :
    ((do return f (← reader) : PartReader β) tokens).Leaves stop after n :=
  leaves_bind h (fun _ _ _ _ => rfl) fun _ _ _ _ => .ok (List.forall_mem_nil _)

theorem leaves_behind {head : Reader α} {f : α → Stmt → Stmt} (takes : head.TakesBeforeEnd m)
    (inner : ∀ d ∈ Call.behind head tokens, d.Leaves stop after) :
    ((do
      let first ← (liftM head : PartReader α)
      return f first (← statement) : PartReader Stmt) tokens).Leaves stop after
      (Call.openIn (Call.behind head tokens)) := by
  refine leaves_lift_bind ends towards takes ?_ ?_
  · intro e rest run
    simp [Call.behind, run, Call.openIn_nil]
  · intro value rest run _
    have calls : Call.behind head tokens = [.statement rest] := by simp [Call.behind, run]
    rw [calls] at inner ⊢
    rw [Call.openIn_singleton]
    exact leaves_return (inner _ List.mem_cons_self)

theorem leaves_otherwise {between : List Token} {accepted : Stmt} {errors : List Error}
    (taken : statement tokens = ⟨.ok accepted, between, errors⟩) {build : Option Stmt → Stmt}
    (inner : ∀ d ∈ Call.otherwise tokens, d.Leaves stop after) :
    ((do
      let rejected ← if ← Reader.accept .elseWord then some <$> statement else pure none
      return build rejected : PartReader Stmt) between).Leaves stop after
      (Call.openIn (Call.otherwise tokens)) := by
  have went := (takes_statement tokens).along
  rw [taken] at went
  refine leaves_lift_bind ends (went.towards ends towards)
    (Reader.takes_accept_beforeEnd (by decide)) ?_ ?_
  · intro e rest turn
    simp [Call.otherwise, taken, turn, Call.openIn_nil]
  intro more rest turn _
  cases more with
  | true =>
    have calls : Call.otherwise tokens = [.statement rest] := by simp [Call.otherwise, taken, turn]
    rw [calls] at inner ⊢
    simp only [↓reduceIte, map_eq_bind, Call.openIn_singleton]
    exact leaves_return (leaves_return (inner _ List.mem_cons_self))
  | false =>
    have calls : Call.otherwise tokens = [] := by simp [Call.otherwise, taken, turn]
    rw [calls]
    exact .ok (List.forall_mem_nil _)

theorem leaves_branches (inner : ∀ d ∈ Call.branches tokens, d.Leaves stop after) :
    (ifStatement statement tokens).Leaves stop after
      (Call.openIn (Call.branches tokens)) := by
  refine leaves_lift_bind ends towards (Reader.takes_condition_beforeEnd rfl rfl) ?_ ?_
  · intro e rest run
    simp [Call.branches, run, Call.openIn_nil]
  intro c rest run towards
  have calls : Call.branches tokens = .statement rest :: Call.otherwise rest := by
    simp [Call.branches, run]
  rw [calls] at inner ⊢
  obtain ⟨first, others⟩ := List.forall_mem_cons.mp inner
  rw [Call.openIn_cons]
  refine leaves_bind first ?_ ?_
  · intro e between errors failed
    simp [Call.otherwise, failed, Call.openIn_nil]
  · intro accepted between errors taken
    exact leaves_otherwise ends towards taken others

end

section

variable (ends : stop.kind = .endOfFile)

include ends

theorem leaves_statement {t : Token} {rest : List Token}
    (towards : Along (t :: rest) (stop :: after) [])
    (inner : ∀ d ∈ (Call.statement (t :: rest)).calls, d.Leaves stop after) :
    (Call.statement (t :: rest)).Leaves stop after := by
  have behind : t.kind ≠ .endOfFile → Along rest (stop :: after) [] := fun before =>
    (Along.past before (.here rest)).towards ends towards
  rw [Call.Leaves, Call.openBlocks_through rfl, statement_cons]
  simp only [Call.calls] at inner ⊢
  split
  · rename_i word
    simp only [word] at inner ⊢
    rw [forStatement_eq]
    exact leaves_behind ends (behind (by simp [word])) takes_forClauses inner
  · rename_i word
    simp only [word] at inner ⊢
    exact leaves_branches ends (behind (by simp [word])) inner
  · rename_i word
    simp only [word] at inner ⊢
    exact leaves_behind ends (behind (by simp [word]))
      (Reader.takes_condition_beforeEnd rfl rfl) inner
  · rename_i word
    simp only [word]
    exact leaves_lift ends (behind (by simp [word])) Reader.takes_printed
  · rename_i word
    simp only [word] at inner ⊢
    rw [Call.openIn_singleton]
    exact inner _ List.mem_cons_self
  · simp only [*]
    exact leaves_lift ends towards Reader.takes_evaluated

theorem leaves_declaration {t : Token} {rest : List Token}
    (towards : Along (t :: rest) (stop :: after) [])
    (inner : ∀ d ∈ (Call.declaration (t :: rest)).calls, d.Leaves stop after) :
    (Call.declaration (t :: rest)).Leaves stop after := by
  rw [Call.Leaves, Call.openBlocks_through rfl, declaration_cons]
  simp only [Call.calls] at inner ⊢
  split
  · rename_i word
    have before : t.kind ≠ .endOfFile := by simp [word]
    exact leaves_lift ends ((Along.past before (.here rest)).towards ends towards)
      Reader.takes_declaration
  · rename_i other
    rw [if_neg other] at inner
    rw [Call.openIn_singleton]
    exact inner _ List.mem_cons_self

theorem leftOpen_recover {reader : PartReader α} {tokens : List Token}
    (h : (reader tokens).Leaves stop after n) :
    LeftOpen stop after (recover reader tokens).rest (recover reader tokens).errors n := by
  rcases run : reader tokens with ⟨e | value, rest, errors⟩
  · rw [run] at h
    rw [Recovering.recover_of_error run]
    cases h with
    | error noted => exact noted.resumed ends
  · rw [run] at h
    rw [Recovering.recover_of_ok run]
    cases h with
    | ok before => exact .early before

theorem leaves_items {closes : Kind → Bool} {t : Token} {rest : List Token}
    (inner : ∀ d ∈ (Call.items closes (t :: rest)).calls, d.Leaves stop after) :
    (Call.items closes (t :: rest)).Leaves stop after := by
  rw [Call.Leaves, Call.openBlocks_through rfl, Recovering.items_cons declaration_advances]
  simp only [Call.calls] at inner ⊢
  split
  · exact .early (List.forall_mem_nil _)
  · rename_i opens
    rw [if_neg opens] at inner
    obtain ⟨first, others⟩ := List.forall_mem_cons.mp inner
    have first : (declaration (t :: rest)).Leaves stop after _ := first
    have others := List.forall_mem_singleton.mp others
    rw [Call.openIn_cons, Call.openIn_singleton]
    -- If the declaration was cut off by the end, the loop is over.
    refine (leftOpen_recover ends first).append others fun atEnd => ?_
    rw [atEnd]
    have closed : (stop.isEnd || closes stop.kind) = true := by simp [Token.isEnd, ends]
    rw [Recovering.items_end closed, Call.openBlocks_through rfl]
    exact ⟨rfl, rfl, by simp [Call.calls, closed, Call.openIn_nil]⟩

theorem leaves_block {tokens : List Token} (towards : Along tokens (stop :: after) [])
    (inner : ∀ d ∈ (Call.block tokens).calls, d.Leaves stop after) :
    (Call.block tokens).Leaves stop after := by
  have takes : body.Takes := Recovering.takes_items (Recovering.takes_recover takes_declaration)
  have went : Along (body tokens).rest (stop :: after) [] := (takes tokens).towards ends towards
  have noted : LeftOpen stop after (body tokens).rest (body tokens).errors _ :=
    inner _ List.mem_cons_self
  have opened : (Call.block tokens).openBlocks = _ := Call.openBlocks_eq _
  rw [Call.calls, Call.openIn_singleton] at opened
  rw [Call.Leaves, opened]
  rcases run : body tokens with ⟨items, rest, errors⟩
  rw [run] at noted went
  have lifted : (liftM body : PartReader (List Stmt)) tokens = ⟨.ok items, rest, errors⟩ := by
    rw [lift_recovering, run]
  rw [blockStatement, bind_of_ok lifted]
  cases went with
  | here =>
    have missing : Reader.expect .rightBrace .braceAfterBlock (stop :: after) =
        .error (.grammar stop .braceAfterBlock) (stop :: after) := by
      simp [Reader.expect, Reader.fail, errorAt, ends]
    have isOpen : (Call.block tokens).isOpen = true := by
      simp [Call.isOpen, run, Token.isEnd, ends]
    rw [bind_of_error (lift_of_error missing), isOpen]
    refine .error ?_
    rw [List.append_nil]
    exact noted.brace
  | @past t _ rest _ before _ =>
    have stops := Recovering.items_rest (· = .rightBrace) tokens (congrArg (·.rest) run)
    have closes : t.kind = .rightBrace := by simpa [Token.isEnd, before] using stops
    have isOpen : (Call.block tokens).isOpen = false := by
      simp [Call.isOpen, run, Token.isEnd, before]
    obtain ⟨none, early⟩ := noted.beforeEnd ends before
    rw [isOpen, none, bind_of_clean (lift_of_ok (Reader.expect_of_eq closes _ _))]
    exact Recovered.Leaves.behind (.ok (List.forall_mem_nil _)) early

theorem Call.leaves (c : Call) (towards : Along c.tokens (stop :: after) []) :
    c.Leaves stop after := by
  -- the calls that a call makes are smaller, and leave open what is left open in their course
  induction size : c.size using Nat.strongRecOn generalizing c with
  | ind k ih =>
    have inner : ∀ d ∈ c.calls, d.Leaves stop after := fun d made =>
      have leads := leads_of_mem_calls made
      ih _ (size ▸ leads.size_lt) d (leads.along.towards ends towards) rfl
    cases c with
    | block tokens => exact leaves_block ends towards inner
    | items closes tokens =>
      cases tokens with
      | nil => cases towards
      | cons t rest => exact leaves_items ends inner
    | declaration tokens =>
      cases tokens with
      | nil => cases towards
      | cons t rest => exact leaves_declaration ends towards inner
    | statement tokens =>
      cases tokens with
      | nil => cases towards
      | cons t rest => exact leaves_statement ends towards inner

end

end PartReader

def Program.openBlocks (tokens : List Token) : Nat :=
  (PartReader.Call.items (fun _ => false) tokens).openBlocks

theorem errorsAtEnd_located (ts : List Token) (stop : Token) (after : List Token)
    (cut : Option GrammarFault) (n : Nat) :
    List.Forall₂ (Error.At (ts ++ stop :: after))
      (List.replicate (cut.toList.length + n) ts.length) (errorsAtEnd stop cut n) := by
  have last : (ts ++ stop :: after)[ts.length]? = some stop := by simp
  have count : cut.toList.length + n =
      (cut.toList ++ List.replicate n GrammarFault.braceAfterBlock).length := by simp
  rw [errorsAtEnd, count, ← List.map_const', List.forall₂_map_left_iff,
    List.forall₂_map_right_iff, List.forall₂_same]
  exact fun fault _ => ⟨stop, fault, last, rfl⟩

/-- Errors are told one behind the other, and never two at one place in front of the end. At the end
    there is one for each block that is open there, and before these at most one, which is of
    something else. -/
theorem Program.read_strictlyInOrder {ts : List Token} (before : ∀ t ∈ ts, t.isEnd = false)
    (ends : stop.isEnd = true) (after : List Token) :
    ∃ (places : List Nat) (cut : Option GrammarFault),
      places.Pairwise (· < ·) ∧ (∀ place ∈ places, place < ts.length) ∧
      List.Forall₂ (Error.At (ts ++ stop :: after))
        (places ++
          List.replicate (cut.toList.length + openBlocks (ts ++ stop :: after)) ts.length)
        (read (ts ++ stop :: after)).errors ∧
      (read (ts ++ stop :: after)).errors.drop places.length =
        errorsAtEnd stop cut (openBlocks (ts ++ stop :: after)) ∧
      cut ≠ some .braceAfterBlock := by
  have stops : stop.kind = .endOfFile := of_decide_eq_true ends
  have kinds : ∀ t ∈ ts, t.kind ≠ .endOfFile := by simpa [Token.isEnd] using before
  have noted : LeftOpen stop after (read (ts ++ stop :: after)).rest
      (read (ts ++ stop :: after)).errors (openBlocks (ts ++ stop :: after)) :=
    PartReader.Call.leaves stops (.items _ _) ((Along.here _).behind kinds)
  have along := read_takes (ts ++ stop :: after)
  obtain ⟨earlier, cut, split, early, other⟩ := noted.split
  rw [split] at along ⊢
  obtain ⟨between, way⟩ := along.upTo
  obtain ⟨places, apart, located⟩ := (way.inOrder_front ends before early).strict before
  obtain ⟨inside, located'⟩ := (List.forall₂_and_left _ _).mp
    (located.imp fun place e at_ => at_.append (stop :: after))
  refine ⟨places, cut, apart, inside, ?_, ?_, other⟩
  · exact List.rel_append located' (errorsAtEnd_located ts stop after cut _)
  · rw [located.length_eq, List.drop_left]

def Program.unclosed : List Token :=
  [⟨.rightParen, ")", 1⟩, ⟨.semicolon, ";", 1⟩, ⟨.leftBrace, "\x7b", 1⟩, ⟨.identifier, "x", 1⟩]

/-- After the bracket there are two errors at the end, where `x` lacks its semicolon and one block
    its closing brace. -/
theorem Program.read_strictlyInOrder_unclosed :
    ∃ (places : List Nat) (cut : Option GrammarFault),
      places.Pairwise (· < ·) ∧ (∀ place ∈ places, place < 4) ∧
      List.Forall₂ (Error.At (unclosed ++ [⟨.endOfFile, "", 1⟩]))
        (places ++ List.replicate (cut.toList.length + 1) 4)
        (read (unclosed ++ [⟨.endOfFile, "", 1⟩])).errors ∧
      (read (unclosed ++ [⟨.endOfFile, "", 1⟩])).errors.drop places.length =
        errorsAtEnd ⟨.endOfFile, "", 1⟩ cut 1 ∧
      cut ≠ some .braceAfterBlock := by
  have opened : openBlocks (unclosed ++ [⟨.endOfFile, "", 1⟩]) = 1 := by
    have first : (recover PartReader.declaration (unclosed ++ [⟨.endOfFile, "", 1⟩])).rest =
        [⟨.leftBrace, "\x7b", 1⟩, ⟨.identifier, "x", 1⟩, ⟨.endOfFile, "", 1⟩] := rfl
    have second : (recover PartReader.declaration
        [⟨.leftBrace, "\x7b", 1⟩, ⟨.identifier, "x", 1⟩, ⟨.endOfFile, "", 1⟩]).rest =
        [⟨.endOfFile, "", 1⟩] := rfl
    have inner : (recover PartReader.declaration
        [⟨.identifier, "x", 1⟩, ⟨.endOfFile, "", 1⟩]).rest = [⟨.endOfFile, "", 1⟩] := rfl
    have left : (PartReader.body [⟨.identifier, "x", 1⟩, ⟨.endOfFile, "", 1⟩]).rest =
        [⟨.endOfFile, "", 1⟩] := rfl
    simp only [unclosed, List.cons_append, List.nil_append] at first ⊢
    simp [openBlocks, PartReader.Call.openBlocks_eq, PartReader.Call.openIn_cons,
      PartReader.Call.openIn_nil, PartReader.Call.calls, PartReader.Call.isOpen, Token.isEnd,
      first, second, inner, left]
  have ends : Token.isEnd ⟨.endOfFile, "", 1⟩ = true := rfl
  have ordered := @read_strictlyInOrder _ unclosed (by decide) ends []
  rw [opened] at ordered
  exact ordered

end Blockscript

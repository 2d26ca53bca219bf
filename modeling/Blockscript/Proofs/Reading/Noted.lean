import Blockscript.Proofs.Reading.Braces
import Blockscript.Proofs.Reading.Calls

/-!
The errors of a call. Those of the calls made in its course are among them; and where there are
none, all blocks that are called end at the braces that close them.
-/
namespace Blockscript

variable {α β : Type}

/-- All errors of a reader: those it noted, and the one it failed with. -/
def Recovered.noted (r : Recovered (Except Error α)) : List Error :=
  match r.value with
  | .ok _ => r.errors
  | .error e => r.errors ++ [e]

namespace PartReader

variable {tokens rest : List Token}

section

variable {reader : PartReader α} {next : α → PartReader β} {noted : List Error}

theorem noted_first (among : noted.Sublist (reader tokens).noted) :
    noted.Sublist ((reader >>= next) tokens).noted := by
  rcases run : reader tokens with ⟨e | value, between, errors⟩
  · rw [run] at among
    rw [bind_of_error run]
    exact among
  · rw [run] at among
    rw [bind_of_ok run]
    have front : noted.Sublist (errors ++ (next value between).errors) :=
      List.Sublist.trans among (List.sublist_append_left errors _)
    unfold Recovered.noted
    dsimp only
    split
    · exact front
    · exact front.trans (List.sublist_append_left _ _)

theorem noted_next {value : α} {errors : List Error}
    (run : reader tokens = ⟨.ok value, rest, errors⟩)
    (among : noted.Sublist (next value rest).noted) :
    noted.Sublist ((reader >>= next) tokens).noted := by
  refine among.trans ?_
  rw [bind_of_ok run]
  unfold Recovered.noted
  dsimp only
  split
  · exact List.sublist_append_right errors _
  · rw [List.append_assoc]
    exact List.sublist_append_right errors _

end

namespace Call

def noted : Call → List Error
  | items closes tokens => (Recovering.items (recover PartReader.declaration) closes tokens).errors
  | declaration tokens => (PartReader.declaration tokens).noted
  | statement tokens => (PartReader.statement tokens).noted
  | block tokens => (blockStatement body tokens).noted

variable {c d : Call}

theorem noted_behind {head : Reader α} {f : α → Stmt → Stmt} (made : d ∈ behind head tokens) :
    d.noted.Sublist ((do
      let first ← (liftM head : PartReader α)
      return f first (← PartReader.statement) : PartReader Stmt) tokens).noted := by
  unfold behind at made
  cases run : head tokens with
  | ok value between =>
    rw [run] at made
    obtain rfl : d = statement between := List.mem_singleton.mp made
    exact noted_next (lift_of_ok run) (noted_first (List.Sublist.refl _))
  | error e between =>
    rw [run] at made
    cases made

theorem noted_otherwise {accepted : Stmt} {between : List Token} {errors : List Error}
    (taken : PartReader.statement tokens = ⟨.ok accepted, between, errors⟩)
    {build : Option Stmt → Stmt} (made : d ∈ otherwise tokens) :
    d.noted.Sublist ((do
      let rejected ←
        if ← Reader.accept .elseWord then some <$> PartReader.statement else pure none
      return build rejected : PartReader Stmt) between).noted := by
  simp only [otherwise, taken] at made
  cases turn : Reader.accept .elseWord between with
  | error e more =>
    rw [turn] at made
    cases made
  | ok follows more =>
    rw [turn] at made
    cases follows with
    | false => cases made
    | true =>
      obtain rfl : d = statement more := List.mem_singleton.mp made
      refine noted_next (lift_of_ok turn) ?_
      simp only [↓reduceIte, map_eq_bind]
      exact noted_first (noted_first (List.Sublist.refl _))

theorem noted_branches (made : d ∈ branches tokens) :
    d.noted.Sublist (ifStatement PartReader.statement tokens).noted := by
  unfold branches at made
  cases run : Reader.condition .parenAfterIf .parenAfterIfCondition tokens with
  | error e between =>
    rw [run] at made
    cases made
  | ok c between =>
    rw [run] at made
    refine noted_next (lift_of_ok run) ?_
    rcases List.mem_cons.mp made with rfl | made
    · exact noted_first (List.Sublist.refl _)
    · rcases taken : PartReader.statement between with ⟨e | accepted, after, errors⟩
      · simp [otherwise, taken] at made
      · exact noted_next taken (noted_otherwise taken made)

theorem noted_statement {t : Token} (made : d ∈ (statement (t :: rest)).calls) :
    d.noted.Sublist (statement (t :: rest)).noted := by
  rw [noted, statement_cons]
  simp only [calls] at made
  split
  · rename_i word
    simp only [word] at made
    rw [forStatement_eq]
    exact noted_behind made
  · rename_i word
    simp only [word] at made
    exact noted_branches made
  · rename_i word
    simp only [word] at made
    exact noted_behind made
  · rename_i word
    simp only [word] at made
    cases made
  · rename_i word
    simp only [word] at made
    obtain rfl : d = block rest := List.mem_singleton.mp made
    exact List.Sublist.refl _
  · simp only [*] at made
    cases made

theorem noted_of_mem_calls (made : d ∈ c.calls) : d.noted.Sublist c.noted := by
  cases c with
  | block tokens =>
    obtain rfl : d = items _ tokens := List.mem_singleton.mp made
    refine noted_first ?_
    rw [lift_recovering]
    exact List.Sublist.refl _
  | items closes tokens =>
    cases tokens with
    | nil => cases made
    | cons t rest =>
      rw [noted, Recovering.items_cons declaration_advances]
      simp only [calls] at made
      split at made
      · cases made
      · rename_i opens
        rw [if_neg opens]
        rcases List.mem_cons.mp made with rfl | made
        · refine List.Sublist.trans ?_ (List.sublist_append_left _ _)
          rcases run : PartReader.declaration (t :: rest) with ⟨e | s, between, errors⟩
          · rw [noted, run, Recovering.recover_of_error run]
            exact List.Sublist.refl _
          · rw [noted, run, Recovering.recover_of_ok run]
            exact List.Sublist.refl _
        · obtain rfl : d = items closes _ := List.mem_singleton.mp made
          exact List.sublist_append_right _ _
  | declaration tokens =>
    cases tokens with
    | nil =>
      obtain rfl : d = statement [] := List.mem_singleton.mp made
      exact List.Sublist.refl _
    | cons t rest =>
      rw [noted, declaration_cons]
      simp only [calls] at made
      split at made
      · cases made
      · rename_i other
        obtain rfl : d = statement (t :: rest) := List.mem_singleton.mp made
        rw [if_neg other]
        exact List.Sublist.refl _
  | statement tokens =>
    cases tokens with
    | nil => cases made
    | cons t rest => exact noted_statement made

/-- A block ends at the brace that closes it, with all blocks inside it closed. -/
def Matched : Call → Prop
  | block tokens => ∃ r after, r.kind = .rightBrace ∧ (body tokens).rest = r :: after ∧
      closing 0 tokens = r :: after
  | _ => True

def AllMatched (c : Call) : Prop := ∀ d ∈ c.all, d.Matched

theorem allMatched_iff : c.AllMatched ↔ c.Matched ∧ ∀ d ∈ c.calls, d.AllMatched := by
  rw [AllMatched, all_eq, List.forall_mem_cons]
  constructor
  · rintro ⟨own, inside⟩
    refine ⟨own, ?_⟩
    intro d made e among
    exact inside e (List.mem_flatMap.mpr ⟨d, made, among⟩)
  · rintro ⟨own, inside⟩
    refine ⟨own, ?_⟩
    intro e among
    obtain ⟨d, made, among⟩ := List.mem_flatMap.mp among
    exact inside d made e among

theorem matched_of_clean (clean : c.noted = []) : c.Matched := by
  cases c with
  | block tokens =>
    rcases run : blockStatement body tokens with ⟨e | s, after, errors⟩
    · rw [noted, run] at clean
      exact absurd clean (List.append_ne_nil_of_right_ne_nil _ (List.cons_ne_nil e []))
    · rw [noted, run] at clean
      obtain rfl : errors = [] := clean
      obtain ⟨inner, between, before, _, first, last, split⟩ := bind_eq_ok run
      obtain ⟨rfl, rfl⟩ := List.append_eq_nil_iff.mp split.symm
      obtain ⟨r, behind, closed, last⟩ := lift_bind_eq_ok last
      obtain ⟨-, rfl, -⟩ := pure_eq_ok last
      obtain ⟨rfl, closes⟩ := Reader.expect_eq_ok closed
      rw [lift_recovering] at first
      have read : body tokens = ⟨inner, r :: behind, []⟩ := by
        rcases given : body tokens with ⟨_, _, _⟩
        simpa [given] using first
      obtain ⟨ts, gathered, derived⟩ :=
        items_sound (statement_soundUpTo _) (Nat.le_refl _) read
      refine ⟨r, behind, closes, by rw [read], ?_⟩
      rw [gathered.whole rfl, derived.balanced 0, closing_end (.inr closes)]
  | items closes tokens => trivial
  | declaration tokens => trivial
  | statement tokens => trivial

theorem allMatched_of_clean (clean : c.noted = []) : c.AllMatched := by
  induction size : c.size using Nat.strongRecOn generalizing c with
  | ind k ih =>
    rw [allMatched_iff]
    refine ⟨matched_of_clean clean, ?_⟩
    intro d made
    have none : d.noted = [] := List.sublist_nil.mp (clean ▸ noted_of_mem_calls made)
    exact ih _ (size ▸ (leads_of_mem_calls made).size_lt) none rfl

end Call

end PartReader

end Blockscript

import Blockscript.Proofs.Reading.Following
import Blockscript.Proofs.Reading.Noted

/-!
Calls inside others. Where all that stands around a call was derived, the outer call is read just
as the inner one is, errors and blocks and all.
-/
namespace Blockscript

open Grammar

namespace PartReader

variable {tokens ts us rest rest' rest'' : List Token} {s : Stmt} {errors : List Error}

theorem statement_derived {closed : Bool} (h : Statement closed ts s)
    (last : closed = false → elseNext rest = false) :
    statement (ts ++ rest) = ⟨.ok s, rest, []⟩ := by
  obtain ⟨errors, read, explained⟩ := h.spoilt.read last
  cases explained
  exact read

theorem declaration_derived (h : Declaration ts s) (last : elseNext rest = false) :
    declaration (ts ++ rest) = ⟨.ok s, rest, []⟩ := by
  obtain ⟨errors, read, explained⟩ := h.spoilt.read last
  cases explained
  exact read

theorem suffix_of_statement (read : statement tokens = ⟨.ok s, rest, errors⟩) :
    ∃ used, tokens = used ++ rest := by
  obtain ⟨used, split, -⟩ := (takes_statement tokens).along.taken
  rw [read] at split
  exact ⟨used, split⟩

theorem forClauses_complete {l : Token} {is cs ss : List Token} {initial : Option Stmt} {c : Expr}
    {step : Option Expr} (opens : l.kind = .leftParen) (first : Initial is initial)
    (condition : Test cs c) (last : Step ss step) (rest : List Token) :
    forClauses (l :: (is ++ (cs ++ (ss ++ rest)))) = .ok (initial, c, step) rest := by
  unfold forClauses
  rw [Reader.bind_of_ok (Reader.expect_of_eq opens _ _),
    Reader.bind_of_ok (Reader.initialClause_complete first _),
    Reader.bind_of_ok (Reader.conditionClause_complete condition _),
    Reader.bind_of_ok (Reader.stepClause_complete last _)]
  rfl

namespace Call

def Reads (rest : List Token) (errors : List Error) : Call → Prop
  | items closes tokens => ∃ body,
    Recovering.items (recover PartReader.declaration) closes tokens = ⟨body, rest, errors⟩
  | declaration tokens => ∃ s, PartReader.declaration tokens = ⟨.ok s, rest, errors⟩
  | statement tokens => ∃ s, PartReader.statement tokens = ⟨.ok s, rest, errors⟩
  | block tokens => ∃ s, blockStatement body tokens = ⟨.ok s, rest, errors⟩

/-- If the inner call reads up to `rest'`, then the outer one reads up to `rest` with the errors
    and the blocks of the inner one. -/
structure Around (c : Call) (rest : List Token) (d : Call) (rest' : List Token) : Prop where
  noted : d.noted.Sublist c.noted
  inside : c.AllMatched → d.AllMatched
  reads : ∀ errors, d.Reads rest' errors → c.Reads rest errors
  matched : ∀ errors, d.Reads rest' errors → d.AllMatched → c.AllMatched

variable {c d e : Call}

namespace Around

theorem refl (c : Call) (rest : List Token) : Around c rest c rest where
  noted := List.Sublist.refl _
  inside := id
  reads _ := id
  matched _ _ := id

theorem trans (h : Around c rest d rest') (h' : Around d rest' e rest'') :
    Around c rest e rest'' where
  noted := h'.noted.trans h.noted
  inside all := h'.inside (h.inside all)
  reads errors read := h.reads errors (h'.reads errors read)
  matched errors read all := h.matched errors (h'.reads errors read) (h'.matched errors read all)

theorem of_call (made : d ∈ c.calls) (reads : ∀ errors, d.Reads rest' errors → c.Reads rest errors)
    (own : ∀ errors, d.Reads rest' errors → c.Matched)
    (others : ∀ errors, d.Reads rest' errors → ∀ e ∈ c.calls, e = d ∨ e.noted = []) :
    Around c rest d rest' where
  noted := noted_of_mem_calls made
  inside all := (allMatched_iff.mp all).2 d made
  reads := reads
  matched := by
    intro errors read all
    rw [allMatched_iff]
    refine ⟨own errors read, ?_⟩
    intro e made'
    rcases others errors read e made' with rfl | clean
    · exact all
    · exact allMatched_of_clean clean

theorem of_only (only : c.calls = [d])
    (reads : ∀ errors, d.Reads rest' errors → c.Reads rest errors)
    (own : ∀ errors, d.Reads rest' errors → c.Matched) : Around c rest d rest' := by
  refine of_call (only ▸ List.mem_singleton_self d) reads own ?_
  intro _ _ e made
  rw [only] at made
  exact .inl (List.mem_singleton.mp made)

end Around

variable {word : Token} {cs : List Token} {x : Expr}

theorem around_while (starts : word.kind = .whileWord) (condition : Condition cs x) :
    Around (statement (word :: (cs ++ tokens))) rest (statement tokens) rest := by
  refine .of_only ?_ ?_ fun _ _ => trivial
  · simp only [calls, starts, behind, Reader.condition_complete condition]
  · rintro errors ⟨s, read⟩
    obtain ⟨used, rfl⟩ := suffix_of_statement read
    have whole := while_read starts condition read
    simp only [List.cons_append, List.append_assoc] at whole
    exact ⟨_, whole⟩

theorem around_for {l : Token} {is ss : List Token} {initial : Option Stmt} {step : Option Expr}
    (starts : word.kind = .forWord) (opens : l.kind = .leftParen) (first : Initial is initial)
    (condition : Test cs x) (last : Step ss step) :
    Around (statement (word :: l :: (is ++ (cs ++ (ss ++ tokens))))) rest
      (statement tokens) rest := by
  refine .of_only ?_ ?_ fun _ _ => trivial
  · simp only [calls, starts, behind, forClauses_complete opens first condition last]
  · rintro errors ⟨s, read⟩
    obtain ⟨used, rfl⟩ := suffix_of_statement read
    have whole := for_read starts opens first condition last read
    simp only [List.cons_append, List.append_assoc] at whole
    exact ⟨_, whole⟩

theorem calls_if (starts : word.kind = .ifWord) (condition : Condition cs x) :
    (statement (word :: (cs ++ tokens))).calls = statement tokens :: otherwise tokens := by
  simp only [calls, starts, branches, Reader.condition_complete condition]

theorem otherwise_of_none (read : PartReader.statement tokens = ⟨.ok s, rest, errors⟩)
    (last : elseNext rest = false) : otherwise tokens = [] := by
  simp only [otherwise, read, Reader.accept_else_of_none last]

theorem otherwise_of_else {other : Token}
    (read : PartReader.statement tokens = ⟨.ok s, other :: rest, errors⟩)
    (turns : other.kind = .elseWord) : otherwise tokens = [statement rest] := by
  simp only [otherwise, read, Reader.accept_of_eq turns]

theorem around_only (starts : word.kind = .ifWord) (condition : Condition cs x)
    (last : elseNext rest = false) :
    Around (statement (word :: (cs ++ tokens))) rest (statement tokens) rest := by
  refine .of_call ?_ ?_ (fun _ _ => trivial) ?_
  · rw [calls_if starts condition]
    exact List.mem_cons_self
  · rintro errors ⟨s, read⟩
    obtain ⟨used, rfl⟩ := suffix_of_statement read
    have whole := ifOnly_read starts condition read last
    simp only [List.cons_append, List.append_assoc] at whole
    exact ⟨_, whole⟩
  · rintro errors ⟨s, read⟩ e made
    rw [calls_if starts condition, otherwise_of_none read last] at made
    exact .inl (List.mem_singleton.mp made)

variable {other : Token}

theorem around_first {closed : Bool} (starts : word.kind = .ifWord) (condition : Condition cs x)
    (turns : other.kind = .elseWord) (second : Statement closed us s)
    (last : closed = false → elseNext rest = false) :
    Around (statement (word :: (cs ++ tokens))) rest (statement tokens)
      (other :: (us ++ rest)) := by
  have read' := statement_derived second last
  refine .of_call ?_ ?_ (fun _ _ => trivial) ?_
  · rw [calls_if starts condition]
    exact List.mem_cons_self
  · rintro errors ⟨s, read⟩
    obtain ⟨used, rfl⟩ := suffix_of_statement read
    have whole := ifElse_read starts condition read turns read'
    simp only [List.cons_append, List.append_assoc, List.append_nil] at whole
    exact ⟨_, whole⟩
  · rintro errors ⟨s, read⟩ e made
    rw [calls_if starts condition, otherwise_of_else read turns] at made
    rcases List.mem_cons.mp made with first | made
    · exact .inl first
    · obtain rfl := List.mem_singleton.mp made
      right
      rw [Call.noted, read']
      rfl

theorem around_second (starts : word.kind = .ifWord) (condition : Condition cs x)
    (first : Statement true ts s) (turns : other.kind = .elseWord) :
    Around (statement (word :: (cs ++ (ts ++ other :: tokens)))) rest (statement tokens) rest := by
  have never : true = false → elseNext (other :: tokens) = false := by simp
  have read := statement_derived first never
  have both : (statement (word :: (cs ++ (ts ++ other :: tokens)))).calls =
      [statement (ts ++ other :: tokens), statement tokens] := by
    rw [calls_if starts condition, otherwise_of_else read turns]
  refine .of_call ?_ ?_ (fun _ _ => trivial) ?_
  · rw [both]
    exact List.mem_cons_of_mem _ List.mem_cons_self
  · rintro errors ⟨s', read'⟩
    obtain ⟨used, rfl⟩ := suffix_of_statement read'
    have whole := ifElse_read starts condition read turns read'
    simp only [List.cons_append, List.append_assoc, List.nil_append] at whole
    exact ⟨_, whole⟩
  · intro errors _ e made
    rw [both] at made
    rcases List.mem_cons.mp made with rfl | made
    · right
      rw [Call.noted, read]
      rfl
    · exact .inl (List.mem_singleton.mp made)

theorem around_declaration {t : Token} (other : t.kind ≠ .varWord) :
    Around (declaration (t :: tokens)) rest (statement (t :: tokens)) rest := by
  refine .of_only ?_ ?_ fun _ _ => trivial
  · exact if_neg other
  · rintro errors ⟨s, read⟩
    refine ⟨s, ?_⟩
    rw [declaration_cons, if_neg other]
    exact read

theorem around_block {l : Token} (opens : l.kind = .leftBrace) :
    Around (statement (l :: tokens)) rest (block tokens) rest := by
  refine .of_only ?_ ?_ fun _ _ => trivial
  · simp only [calls, opens]
  · rintro errors ⟨s, read⟩
    refine ⟨s, ?_⟩
    rw [statement_cons, opens]
    exact read

theorem around_body {r : Token} (closes : r.kind = .rightBrace)
    (ends : closing 0 tokens = r :: rest) :
    Around (block tokens) rest (items (· = .rightBrace) tokens) (r :: rest) := by
  refine .of_only rfl ?_ ?_
  · rintro errors ⟨inner, read⟩
    have lifted : (liftM body : PartReader (List Stmt)) tokens = ⟨.ok inner, r :: rest, errors⟩ := by
      rw [lift_recovering, body, read]
    refine ⟨.block inner, ?_⟩
    rw [blockStatement, bind_of_ok lifted,
      bind_of_clean (lift_of_ok (Reader.expect_of_eq closes _ _))]
    exact congrArg (Recovered.mk _ _) (List.append_nil errors)
  · rintro errors ⟨inner, read⟩
    exact ⟨r, rest, closes, congrArg (·.rest) read, ends⟩

variable {closes : Kind → Bool} (only : ∀ k, closes k = true → k = .rightBrace)

include only

theorem calls_items {t : Token} (starts : t.kind.endsItem = false) :
    (items closes (t :: tokens)).calls = [declaration (t :: tokens),
      items closes (recover PartReader.declaration (t :: tokens)).rest] :=
  if_neg (Recovering.open_of_item only starts)

theorem around_item {t : Token} (starts : t.kind.endsItem = false) {more : List Stmt}
    (later : Declarations us more) {last : Token} (ends : (last.isEnd || closes last.kind) = true) :
    Around (items closes (t :: tokens)) (last :: rest) (declaration (t :: tokens))
      (us ++ last :: rest) := by
  have read' : Recovering.items (recover PartReader.declaration) closes (us ++ last :: rest) =
      ⟨more, last :: rest, []⟩ := by
    rw [Recovering.items_derived later only (Recovering.not_elseNext_end only ends rest),
      Recovering.items_end ends, Recovered.behind_nil]
  refine .of_call ?_ ?_ (fun _ _ => trivial) ?_
  · rw [calls_items only starts]
    exact List.mem_cons_self
  · rintro errors ⟨s, read⟩
    have whole := Recovering.items_step only starts (Recovering.recover_of_ok read) read'
    rw [List.append_nil] at whole
    exact ⟨_, whole⟩
  · rintro errors ⟨s, read⟩ e made
    rw [calls_items only starts, Recovering.recover_of_ok read] at made
    rcases List.mem_cons.mp made with first | made
    · exact .inl first
    · obtain rfl := List.mem_singleton.mp made
      right
      rw [Call.noted, read']

theorem around_next (first : Declaration ts s) (last : elseNext us = false) :
    Around (items closes (ts ++ us)) rest (items closes us) rest := by
  have read := declaration_derived first last
  obtain ⟨t, more, rfl, starts⟩ := first.spoilt.first
  rw [List.cons_append] at read ⊢
  have both : (items closes (t :: (more ++ us))).calls =
      [declaration (t :: (more ++ us)), items closes us] := by
    rw [calls_items only starts, Recovering.recover_of_ok read]
  refine .of_call ?_ ?_ (fun _ _ => trivial) ?_
  · rw [both]
    exact List.mem_cons_of_mem _ List.mem_cons_self
  · rintro errors ⟨body, read'⟩
    exact ⟨_, Recovering.items_step only starts (Recovering.recover_of_ok read) read'⟩
  · intro errors _ e made
    rw [both] at made
    rcases List.mem_cons.mp made with rfl | made
    · right
      rw [Call.noted, read]
      rfl
    · exact .inl (List.mem_singleton.mp made)

theorem around_later {ts : List Token} {before : List Stmt} : Declarations ts before →
    elseNext us = false → Around (items closes (ts ++ us)) rest (items closes us) rest
  | .nil, _ => .refl _ _
  | .cons first more, last => by
    rw [List.append_assoc]
    exact (around_next only first (more.spoilt.elseNext last)).trans (around_later more last)

end Call

end PartReader

end Blockscript

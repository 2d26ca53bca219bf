import Blockscript.Proofs.Reading.Order
import Blockscript.Proofs.Running.KnownOperators
import Blockscript.Proofs.Scanning.LineEnds
import Blockscript.Proofs.Sessions.History

/-!
Errors and the source that they come from. Whatever is recorded while a source is read, and
whatever its program fails with in any state, points into that very source. No error tells of
what cannot happen.
-/
namespace Blockscript

open Grammar

/-- The error is one of the scan, or bears a token of it. An undefined variable is a name among
    the tokens, and is called by that name. -/
def Error.PointsInto (scanned : List Token × List Error) : Error → Prop
  | .lexical line fault => .lexical line fault ∈ scanned.2
  | .grammar t _ | .type t _ => t ∈ scanned.1
  | .undefined name fault => name ∈ scanned.1 ∧ name.kind = .identifier ∧
      (Error.undefined name fault).message =
        name.location ++ ": UndefinedVariable: Undefined variable '" ++ name.lexeme ++ "'."
  | .output _ => True

/-- What would be told of tokens that run out, of an end that is taken, and of a numeral that is
    no number. -/
def internalTexts : List String :=
  ["Unexpected end of input.", "Unexpected end of file.", " into a number."]

def Error.IsInternal (e : Error) : Prop :=
  ∃ text ∈ internalTexts, text.toList <:+ e.message.toList

theorem Error.message_undefined (name : Token) : (undefined name).message =
    name.location ++ ": UndefinedVariable: Undefined variable '" ++ name.lexeme ++ "'." := by
  have whole : ": UndefinedVariable: Undefined variable '" =
      ": UndefinedVariable: " ++ "Undefined variable '" := by simp
  rw [whole, message, NameFault.text_unbound]
  simp only [String.append_assoc]

section

variable {scanned : List Token × List Error} {op : Token} {v w : Value} {e : Error}

theorem Value.unary_pointsInto (known : op ∈ scanned.1) (failed : v.unary op = .error e) :
    e.PointsInto scanned := by
  obtain ⟨fault, rfl⟩ := Value.unary_fault failed
  exact known

theorem Value.binary_pointsInto (known : op ∈ scanned.1) (failed : v.binary op w = .error e) :
    e.PointsInto scanned := by
  obtain ⟨fault, rfl⟩ := Value.binary_fault failed
  exact known

theorem Grammar.join_pointsInto {rank : Rank} {l r : Expr} (known : op ∈ scanned.1)
    (first : l.Faults e → e.PointsInto scanned) (second : r.Faults e → e.PointsInto scanned)
    (failed : (rank.level.join l op r).Faults e) : e.PointsInto scanned := by
  cases rank with
  | conjunction | disjunction =>
    cases failed with
    | logicalLeft inside => exact first inside
    | logicalRight inside => exact second inside
    | logical => exact known
  | _ =>
    cases failed with
    | binaryLeft inside => exact first inside
    | binaryRight inside => exact second inside
    | binary failed => exact Value.binary_pointsInto known failed

theorem Grammar.Derives.pointsInto {rank : Rank} {ts : List Token} {tree : Expr}
    (h : Derives rank ts tree) (known : ∀ t ∈ ts, t ∈ scanned.1) (failed : tree.Faults e) :
    e.PointsInto scanned := by
  induction h with
  | literal => cases failed
  | var name =>
    cases failed
    exact ⟨known _ List.mem_cons_self, name, Error.message_undefined _⟩
  | @grouping l r ts _ _ _ _ ih =>
    cases failed with
    | grouping inside =>
      exact ih (fun t among => known t (by simp [among])) inside
  | @unary op ts _ _ _ ih =>
    obtain ⟨here, later⟩ := List.forall_mem_cons.mp known
    cases failed with
    | operand inside => exact ih later inside
    | unary failed => exact Value.unary_pointsInto here failed
  | @joined rank ls rs _ _ op _ _ _ ihl ihr =>
    obtain ⟨left, right⟩ := List.forall_mem_append.mp known
    obtain ⟨here, right⟩ := List.forall_mem_cons.mp right
    exact join_pointsInto here (ihl left) (ihr right) failed
  | @assign name op ts _ target _ _ ih =>
    obtain ⟨here, later⟩ := List.forall_mem_cons.mp known
    cases failed with
    | assigned inside => exact ih (List.forall_mem_cons.mp later).2 inside
    | assign => exact ⟨here, target, Error.message_undefined _⟩
  | looser _ _ ih => exact ih known failed

end

namespace Error

theorem suffix_append (first last : String) : last.toList <:+ (first ++ last).toList := by
  rw [String.toList_append]
  exact List.suffix_append _ _

theorem not_internal {e : Error} (last : String) (ends : last.toList <:+ e.message.toList)
    (apart : ∀ text ∈ internalTexts, ¬ text.toList <:+ last.toList ∧ ¬ last.toList <:+ text.toList) :
    ¬ e.IsInternal := by
  rintro ⟨text, among, internal⟩
  obtain ⟨longer, shorter⟩ := apart text among
  rcases List.suffix_or_suffix_of_suffix internal ends with h | h
  · exact longer h
  · exact shorter h

theorem not_internal_grammar (t : Token) {fault : GrammarFault} (own : fault.isOwn = true) :
    ¬ (grammar t fault).IsInternal := by
  refine not_internal fault.text (suffix_append _ _) ?_
  cases fault with
  | worded | endOfFile => cases own
  | _ => decide

theorem not_internal_type (op : Token) {fault : TypeFault} (among : fault ∈ operandFaults) :
    ¬ (type op fault).IsInternal := by
  refine not_internal fault.text (suffix_append _ _) ?_
  revert fault
  decide

theorem not_internal_undefined (name : Token) : ¬ (undefined name).IsInternal := by
  refine not_internal "'." ?_ (by decide)
  rw [message_undefined]
  exact suffix_append _ _

theorem not_internal_full : ¬ (output .full).IsInternal :=
  not_internal "writer full" (suffix_append _ _) (by decide)

theorem not_internal_unterminated (line : Nat) :
    ¬ (lexical line .unterminatedString).IsInternal :=
  not_internal "Unterminated string." (suffix_append _ _) (by decide)

theorem not_internal_unexpected (line : Nat) (c : Char) :
    ¬ (lexical line (.unexpectedCharacter c)).IsInternal := by
  have worded : (lexical line (.unexpectedCharacter c)).message =
      "[line " ++ toString line ++ "]: " ++ ("Unexpected character '" ++ String.singleton c) ++
        "'." := String.append_assoc .. |>.symm
  refine not_internal "'." ?_ (by decide)
  rw [worded]
  exact suffix_append _ _

end Error

theorem ensures_pointsInto (scanned : List Token × List Error) :
    Ensures (· ∈ scanned.1)
      (fun tree => ∀ fault, tree.Faults fault → fault.PointsInto scanned ∧ ¬ fault.IsInternal)
      (fun _ => True) where
  whole {ts tree} value known fault failed := by
    refine ⟨value.1.pointsInto known failed, ?_⟩
    rcases failed.sort with ⟨op, type, rfl⟩ | ⟨name, rfl⟩
    · exact Error.not_internal_type op (value.1.wellFormed.2.ofOperands failed op type rfl)
    · exact Error.not_internal_undefined name
  name _ _ := trivial
  always _ failed := by cases failed

theorem Reached.error?_not_internal {r : Reached} {e : Error} (h : r.error? = some e) :
    (∃ line fault, e = .lexical line fault) ∧ ¬ e.IsInternal := by
  obtain ⟨piece, text, front⟩ := r
  cases piece with
  | unexpected c =>
    cases h
    exact ⟨⟨_, _, rfl⟩, Error.not_internal_unexpected _ _⟩
  | unterminated =>
    cases h
    exact ⟨⟨_, _, rfl⟩, Error.not_internal_unterminated _⟩
  | token | layout | notNumber => cases h

namespace Session

theorem readErrors_eq (source : String) :
    readErrors source = (TokenStream.ofSource source).scan.1.2 ++
      (Program.read (TokenStream.ofSource source).scan.1.1).errors :=
  rfl

/-- Tokens and errors of a scan bear the lines where their texts end. All errors of the source,
    and all that its program fails with in any state, point into the source. -/
theorem errors_in_source (source : String) :
    ∃ pieces, (Pieces source.toList pieces ∧ ∀ other, Pieces source.toList other → other = pieces) ∧
      Pieces.Lined source.toList pieces (TokenStream.ofSource source).scan.1 ∧
      ∀ s : Session,
        (s.parse source).2 =
          { s with diagnostics := s.diagnostics.recordAll (readErrors source) } ∧
        (∀ e ∈ readErrors source,
          e.PointsInto (TokenStream.ofSource source).scan.1 ∧ ¬ e.IsInternal) ∧
        ∀ fuel m e m', Stmt.executeAll fuel (s.parse source).1 m = .error (.failed e) m' →
          e.PointsInto (TokenStream.ofSource source).scan.1 ∧ ¬ e.IsInternal := by
  obtain ⟨pieces, cut, lined⟩ := TokenStream.scan_lined source
  refine ⟨pieces, cut, lined, fun s => ⟨parse_diagnostics s source, ?_, ?_⟩⟩
  · intro e noted
    rw [readErrors_eq] at noted
    rcases List.mem_append.mp noted with lexical | grammatical
    · have among := lexical
      rw [lined.errors] at among
      obtain ⟨r, -, told⟩ := List.mem_filterMap.mp among
      obtain ⟨⟨line, fault, rfl⟩, other⟩ := r.error?_not_internal told
      exact ⟨lexical, other⟩
    · have ends : ∃ t ∈ (TokenStream.ofSource source).scan.1.1, t.isEnd = true := by
        rw [lined.tokens]
        exact ⟨_, List.mem_append_right _ List.mem_cons_self, rfl⟩
      obtain ⟨t, among, fault, own, rfl⟩ := Program.read_blames ends e grammatical
      exact ⟨among, Error.not_internal_grammar t own⟩
  · intro fuel m e m' failed
    obtain ⟨ts, sublist, derived⟩ := Program.read_gathered (TokenStream.ofSource source).scan.1.1
    have known := (ensures_pointsInto _).declarations derived fun t among => sublist.subset among
    exact Stmt.executeAll_known ⟨trivial, Error.not_internal_full⟩ fuel _ known m _ m' failed

theorem errors_in_source_undefined :
    ∃ m', Stmt.executeAll 0 ((start none).parse "nil;\nx;").1 (.start none) =
        .error (.failed (.undefined ⟨.identifier, "x", 2⟩)) m' ∧
      (Error.undefined ⟨.identifier, "x", 2⟩).PointsInto
        (TokenStream.ofSource "nil;\nx;").scan.1 ∧
      ¬ (Error.undefined ⟨.identifier, "x", 2⟩).IsInternal := by
  obtain ⟨_, _, _, known⟩ := errors_in_source "nil;\nx;"
  have failed : Stmt.executeAll 0 ((start none).parse "nil;\nx;").1 (.start none) =
      .error (.failed (.undefined ⟨.identifier, "x", 2⟩)) (.start none) := by
    cbv
  exact ⟨_, failed, (known (start none)).2.2 0 _ _ _ failed⟩

end Session

end Blockscript

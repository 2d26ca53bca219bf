import Blockscript.Proofs.Scanning.Seam

/-!
Tokens taken one by one and all at once. Both ways go along one list of outcomes: what was taken
singly is not scanned again, the first scan tells all that is left, and after it there is nothing
new, whatever is asked.
-/
namespace Blockscript

namespace TokenStream

inductive Call where
  | next
  | scan
  deriving DecidableEq

inductive Answer where
  | next (outcome : Option (Except Error Token))
  | scan (tokens : List Token) (errors : List Error)

def call (s : TokenStream) : Call → Answer × TokenStream
  | .next => (.next s.next.1, s.next.2)
  | .scan => (.scan s.scan.1.1 s.scan.1.2, s.scan.2)

def answers (s : TokenStream) : List Call → List Answer
  | [] => []
  | c :: calls => (s.call c).1 :: (s.call c).2.answers calls

def outcomes (source : String) : List (Except Error Token) :=
  (allWithin source.toList.length 1 [] source.toList).1

def stop (source : String) : Token := ⟨.endOfFile, "", 1 + source.toList.count '\n'⟩

/-- The answer to a call once these tokens were scanned. -/
def Call.again (tokens : List Token) : Call → Answer
  | .next => .next none
  | .scan => .scan tokens []

end TokenStream

open TokenStream (tokensOf errorsOf)

namespace Scans

variable {line last : Nat} {text : List Char} {outcomes : List (Except Error Token)}

theorem nextWithin (h : Scans line text outcomes last) {fuel : Nat} (enough : text.length ≤ fuel) :
    ∃ line' rest, TokenStream.nextWithin fuel line text = (outcomes.head?, line', rest) ∧
      Scans line' rest outcomes.tail last := by
  induction h generalizing fuel with
  | done line => exact ⟨line, [], by cases fuel <;> rfl, .done line⟩
  | @piece line last c cs outcomes more ih =>
    cases fuel with
    | zero => simp at enough
    | succ fuel =>
      have shorter := Cut.first_rest_shorter c cs
      have enough' : (Cut.first c cs).rest.length ≤ fuel := by omega
      simp only [TokenStream.nextWithin]
      cases (Cut.first c cs).outcome ((Cut.first c cs).lineAfter line) with
      | none => exact ih enough'
      | some outcome => exact ⟨_, _, rfl, more⟩

end Scans

namespace TokenStream

variable {s : TokenStream} {left : List (Except Error Token)} {last : Nat}

/-- Nothing was scanned yet, and these outcomes are left. -/
structure Left (left : List (Except Error Token)) (last : Nat) (s : TokenStream) : Prop where
  unscanned : s.scanned = none
  scans : Scans s.line s.rest left last

theorem left_start (source : String) :
    Left (outcomes source) (1 + source.toList.count '\n') (ofSource source) := by
  obtain ⟨found, last, scans⟩ := Scans.total 1 source.toList
  have whole : outcomes source = found := by
    rw [outcomes, scans.allWithin (Nat.le_refl _), List.reverse_nil, List.nil_append]
  rw [whole, ← scans.last_eq]
  exact ⟨rfl, scans⟩

theorem Left.next (h : Left left last s) : s.next.1 = left.head? ∧ Left left.tail last s.next.2 := by
  obtain ⟨line, rest, found, scans⟩ := h.scans.nextWithin (Nat.le_refl _)
  rw [TokenStream.next, found]
  exact ⟨rfl, h.unscanned, scans⟩

theorem Left.scan (h : Left left last s) : s.scan =
    ((tokensOf left ++ [⟨.endOfFile, "", last⟩], errorsOf left),
      ⟨[], last, some (tokensOf left ++ [⟨.endOfFile, "", last⟩])⟩) := by
  simp only [TokenStream.scan, h.unscanned, h.scans.allWithin (Nat.le_refl _), List.reverse_nil,
    List.nil_append]

theorem answers_again (tokens : List Token) (calls : List Call) :
    answers ⟨[], last, some tokens⟩ calls = calls.map (·.again tokens) := by
  induction calls with
  | nil => rfl
  | cons c calls ih =>
    have same : (call ⟨[], last, some tokens⟩ c).2 = ⟨[], last, some tokens⟩ := by cases c <;> rfl
    have answer : (call ⟨[], last, some tokens⟩ c).1 = c.again tokens := by cases c <;> rfl
    rw [answers, same, answer, ih, List.map_cons]

theorem Left.answers (h : Left left last s) (calls : List Call) :
    s.answers calls =
      (List.range (calls.takeWhile (· = .next)).length).map (fun k => .next left[k]?) ++
        match calls.dropWhile (· = .next) with
        | [] => []
        | _ :: later =>
          let unread := left.drop (calls.takeWhile (· = .next)).length
          let tokens := tokensOf unread ++ [⟨.endOfFile, "", last⟩]
          .scan tokens (errorsOf unread) :: later.map (·.again tokens) := by
  induction calls generalizing s left with
  | nil => rfl
  | cons c calls ih =>
    cases c with
    | next =>
      obtain ⟨answer, after⟩ := h.next
      have tail := ih after
      have first : (.next left.head? : Answer) = .next left[0]? := by rw [List.head?_eq_getElem?]
      simp only [TokenStream.answers, call, answer, tail, List.takeWhile_cons, List.dropWhile_cons,
        decide_true, ↓reduceIte, List.length_cons, List.range_succ_eq_map, List.map_cons,
        List.map_map, List.cons_append, first, Function.comp_def, List.getElem?_tail,
        List.drop_tail]
    | scan =>
      simp only [TokenStream.answers, call, h.scan, answers_again]
      rfl

/-- Calls in any order go along the outcomes of one scan from the start. Each `next` before the first
    scan tells one of them, and none is the end; that scan tells the others, closed by the one end
    in the last line. After it `next` has nothing to tell, and every scan gives the same tokens
    again, without errors. -/
theorem answers_shared (source : String) (calls : List Call) :
    (ofSource source).scan.1 =
      (tokensOf (outcomes source) ++ [stop source], errorsOf (outcomes source)) ∧
    (∀ t, .ok t ∈ outcomes source → t.isEnd = false) ∧
    (ofSource source).answers calls =
      (List.range (calls.takeWhile (· = .next)).length).map (fun k => .next (outcomes source)[k]?) ++
        match calls.dropWhile (· = .next) with
        | [] => []
        | _ :: later =>
          let unread := (outcomes source).drop (calls.takeWhile (· = .next)).length
          let tokens := tokensOf unread ++ [stop source]
          .scan tokens (errorsOf unread) :: later.map (·.again tokens) := by
  have start := left_start source
  refine ⟨congrArg Prod.fst start.scan, ?_, start.answers calls⟩
  intro t told
  exact start.scans.tokens_not_end (mem_tokensOf.mpr told)

end TokenStream

end Blockscript

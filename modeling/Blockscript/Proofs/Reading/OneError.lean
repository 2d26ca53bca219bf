import Blockscript.Proofs.Reading.Landing

/-!
One missing semicolon as one error. Around the list of declarations it is missing in, everything
is read as before; so it depends on where recovery lands in this list whether the error stays the
only one and the blocks keep their braces.
-/
namespace Blockscript

open Grammar

namespace Unended

open PartReader

/-- Recovery lands between declarations: what is left of the list then are whole ones. -/
def Lands (back : List Token) : Prop :=
  ∃ left body, Grammar.Declarations left body ∧ resume back = left ++ closing 0 back

theorem lands_ended {us vs : List Token} {semi last : Token} {after : List Stmt}
    (ended : Ended us semi) (later : Grammar.Declarations vs after)
    (ends : last.isEnd = true ∨ last.kind = .rightBrace) (rest : List Token) :
    Lands (us ++ semi :: (vs ++ last :: rest)) := by
  have stops := ended.stops
  have own : semi.kind.unbraced = true := by rw [stops]; rfl
  refine ⟨vs, after, later, ?_⟩
  rw [ended.balanced, closing_cons own, later.balanced, closing_end ends]
  obtain ⟨t, more, rfl, starts, kinds⟩ := ended.kinds
  refine BadRun.resume_run stops ?_ fun x member => (plain_of_inExpression (kinds x member)).1
  exact not_bounding starts kinds

section

variable {closes : Kind → Bool} {tokens back outside : List Token}
  (only : ∀ k, closes k = true → k = .rightBrace)

include only

theorem Gap.lands (gap : Gap closes tokens back outside)
    (failed : ¬ (Call.items closes tokens).Reads outside []) (lands : Lands back) :
    ∃ e, (Call.items closes tokens).Reads outside [e] ∧ (Call.items closes tokens).AllMatched := by
  obtain ⟨left, body, derived, landed⟩ := lands
  rw [(gap.closing only).2] at landed
  rcases gap.outcome only with clean | ⟨e, before, read, matched⟩
  · exact absurd clean failed
  · have others : Recovering.items (recover PartReader.declaration) closes (resume back) =
        ⟨body, outside, []⟩ := by
      cases gap with
      | here _ _ _ ends rest =>
        have notElse := Recovering.not_elseNext_end only ends rest
        rw [landed, Recovering.items_derived derived only notElse, Recovering.items_end ends,
          Recovered.behind_nil]
    rw [others] at read
    refine ⟨e, ⟨_, read⟩, matched (Call.allMatched_of_clean ?_)⟩
    rw [Call.noted, others]

theorem Gap.landed (gap : Gap closes tokens back outside)
    (failed : ¬ (Call.items closes tokens).Reads outside [])
    (few : (Call.items closes tokens).noted.length ≤ 1)
    (ended : (Recovering.items (recover PartReader.declaration) closes tokens).rest = outside) :
    Lands back := by
  rcases gap.outcome only with clean | ⟨e, before, read, -⟩
  · exact absurd clean failed
  · rcases others : Recovering.items (recover PartReader.declaration) closes (resume back) with
      ⟨body, rest, errors⟩
    rw [others] at read
    rw [Call.noted, read] at few
    rw [read] at ended
    obtain rfl : rest = outside := ended
    obtain rfl : errors = [] :=
      List.length_eq_zero_iff.mp (Nat.le_zero.mp (Nat.le_of_succ_le_succ few))
    obtain ⟨left, gathered, derived⟩ :=
      items_sound (statement_soundUpTo _) (Nat.le_refl _) others
    refine ⟨left, body, derived, ?_⟩
    rw [(gap.closing only).2]
    exact gathered.whole rfl

end

/-- The call comes down to a list in which the semicolon is missing. If all blocks end at their own
    braces, then so does the list. -/
inductive Within (c : Call) (rest back : List Token) : Prop where
  | list {closes : Kind → Bool} {tokens outside : List Token}
      (only : ∀ k, closes k = true → k = .rightBrace) (gap : Gap closes tokens back outside)
      (around : c.Around rest (.items closes tokens) outside)
      (ended : c.AllMatched →
        (Recovering.items (recover PartReader.declaration) closes tokens).rest = outside)

namespace Within

variable {c d : Call} {rest rest' back : List Token}

theorem around (h : Within d rest' back) (outer : c.Around rest d rest') : Within c rest back := by
  obtain ⟨only, gap, around, ended⟩ := h
  exact ⟨only, gap, outer.trans around, fun all => ended (outer.inside all)⟩

theorem lands (h : Within c rest back) (failed : ¬ c.Reads rest []) (lands : Lands back) :
    ∃ e, c.Reads rest [e] ∧ c.AllMatched := by
  obtain ⟨only, gap, around, -⟩ := h
  obtain ⟨e, read, all⟩ := gap.lands only (fun clean => failed (around.reads [] clean)) lands
  exact ⟨e, around.reads [e] read, around.matched [e] read all⟩

theorem landed (h : Within c rest back) (failed : ¬ c.Reads rest []) (few : c.noted.length ≤ 1)
    (all : c.AllMatched) : Lands back := by
  obtain ⟨only, gap, around, ended⟩ := h
  have fewer := Nat.le_trans around.noted.length_le few
  exact gap.landed only (fun clean => failed (around.reads [] clean)) fewer (ended all)

end Within

mutual

theorem Statement.within {closed : Bool} {front back : List Token} {stop : Token} :
    Statement closed front stop back → ∀ {rest : List Token},
      (closed = false → elseNext rest = false) →
      Within (.statement (front ++ (back ++ rest))) rest (back ++ rest)
  | @Statement.block _ l r _ front back opens inner closes, rest, _ => by
    have closing : closing 0 (front ++ (back ++ r :: rest)) = r :: rest := by
      rw [← List.append_assoc, inner.balanced, closing_end (.inr closes)]
    have outer : Call.Around (.statement (l :: (front ++ (back ++ r :: rest)))) rest
        (.block (front ++ (back ++ r :: rest))) rest := Call.around_block opens
    have whole := inner.within only_brace (by simp [closes]) rest
      (outer.trans (Call.around_body closes closing)) fun all => by
        obtain ⟨r', after, -, ended, own⟩ := (Call.allMatched_iff.mp (outer.inside all)).1
        exact ended.trans (own.symm.trans closing)
    simpa using whole
  | .whileLoop starts condition inner, rest, last => by
    simpa using (inner.within last).around (Call.around_while starts condition)
  | .forLoop starts opens first condition step inner, rest, last => by
    simpa using (inner.within last).around (Call.around_for starts opens first condition step)
  | .accepted starts condition first turns second, rest, last => by
    simpa using
      (first.within (by simp)).around (Call.around_first starts condition turns second last)
  | .rejected starts condition first turns second, rest, last => by
    simpa using (second.within last).around (Call.around_second starts condition first turns)
  | .ifOnly starts condition first, rest, last => by
    simpa using (first.within last).around (Call.around_only starts condition (last rfl))

theorem Declarations.within {front back : List Token} {stop : Token} :
    Declarations front stop back → ∀ {closes : Kind → Bool},
      (∀ k, closes k = true → k = .rightBrace) → ∀ {last : Token},
      (last.isEnd || closes last.kind) = true → ∀ (rest : List Token) {c : Call}
      {rest' : List Token},
      c.Around rest' (.items closes (front ++ (back ++ last :: rest))) (last :: rest) →
      (c.AllMatched → (Recovering.items (recover PartReader.declaration) closes
        (front ++ (back ++ last :: rest))).rest = last :: rest) →
      Within c rest' (back ++ last :: rest)
  | .here earlier ended later, closes, only, last, ends, rest, c, rest', outer, stopped => by
    rw [List.append_assoc] at outer stopped
    exact ⟨only, .here earlier ended later ends rest, outer, stopped⟩
  | .inside earlier stated later, closes, only, last, ends, rest, c, rest', outer, _ => by
    have notElse := later.spoilt.elseNext (Recovering.not_elseNext_end only ends rest)
    have inner := stated.within fun _ => notElse
    obtain ⟨t, more, rfl, starts, other⟩ := stated.first
    have declared := inner.around (Call.around_declaration other)
    have item := declared.around (Call.around_item only starts later ends)
    have list := item.around (Call.around_later only earlier (elseNext_of_endsItem starts _))
    simp only [List.append_assoc] at list outer ⊢
    exact list.around outer

end

end Unended

namespace Program

open PartReader Unended

variable {front back : List Token} {semi stop : Token}

theorem beforeEnd_of_derived {ts : List Token} {program : Program} (h : Declarations ts program) :
    ∀ t ∈ ts, t.isEnd = false := by
  obtain ⟨used, split, kinds⟩ := read_takes.taken (ts ++ [⟨.endOfFile, "", 0⟩])
  have ends : Token.isEnd ⟨.endOfFile, "", 0⟩ = true := rfl
  rw [read_derived h ends []] at split
  obtain rfl : ts = used := List.append_cancel_right split
  intro t member
  exact decide_eq_false (kinds t member)

/-- One error is noted, and every block that is read ends at its own brace. A block recovery passes
    over as a whole is not read. -/
def OneError (tokens : List Token) : Prop :=
  (∃ e, (read tokens).errors = [e]) ∧ (Call.items (fun _ => false) tokens).AllMatched

/-- A program that is read without errors is read with one error, and with all blocks closed as
    before, when the semicolon behind one of its statements is taken away and the program is none
    without it: just if recovery lands between declarations of the list the statement is in. -/
theorem oneError_iff_lands (missing : Unended.Declarations front semi back)
    (ends : stop.isEnd = true) (rest : List Token)
    (malformed : ∀ program, ¬ Declarations (front ++ back) program) :
    (read (front ++ semi :: (back ++ stop :: rest))).errors = [] ∧
    (OneError (front ++ (back ++ stop :: rest)) ↔ Lands (back ++ stop :: rest)) := by
  obtain ⟨program, derived⟩ := missing.derived
  have before : ∀ t ∈ front ++ back, t.isEnd = false := by
    intro t member
    refine beforeEnd_of_derived derived t ?_
    rw [List.mem_append, List.mem_cons]
    exact (List.mem_append.mp member).imp_right .inr
  have only : ∀ k : Kind, (fun _ => false) k = true → k = .rightBrace := by simp
  have closed : (stop.isEnd || (fun _ => false) stop.kind) = true := by simp [ends]
  have failed : ¬ (Call.items (fun _ => false) (front ++ (back ++ stop :: rest))).Reads
      (stop :: rest) [] := by
    rintro ⟨body, run⟩
    have clean : (read ((front ++ back) ++ stop :: rest)).errors = [] := by
      rw [List.append_assoc]
      exact congrArg (·.errors) run
    exact malformed _ (derived_of_read before ends clean)
  have ended := read_rest before ends rest
  rw [List.append_assoc] at ended
  have within := missing.within only closed rest (.refl _ _) fun _ => ended
  refine ⟨?_, ?_⟩
  · have run := read_derived derived ends rest
    rw [List.append_assoc] at run
    exact congrArg (·.errors) run
  · constructor
    · rintro ⟨⟨e, once⟩, all⟩
      exact within.landed failed (Nat.le_of_eq (congrArg List.length once)) all
    · intro lands
      obtain ⟨e, ⟨body, run⟩, all⟩ := within.lands failed lands
      exact ⟨⟨e, congrArg (·.errors) run⟩, all⟩

theorem oneError_iff_lands_name :
    Unended.Declarations [⟨.leftBrace, "\x7b", 1⟩, ⟨.identifier, "a", 1⟩] ⟨.semicolon, ";", 1⟩
      [⟨.identifier, "b", 1⟩, ⟨.semicolon, ";", 1⟩, ⟨.rightBrace, "\x7d", 1⟩,
        ⟨.identifier, "c", 1⟩, ⟨.semicolon, ";", 1⟩] ∧
    OneError [⟨.leftBrace, "\x7b", 1⟩, ⟨.identifier, "a", 1⟩, ⟨.identifier, "b", 1⟩,
      ⟨.semicolon, ";", 1⟩, ⟨.rightBrace, "\x7d", 1⟩, ⟨.identifier, "c", 1⟩, ⟨.semicolon, ";", 1⟩,
      ⟨.endOfFile, "", 1⟩] := by
  have name : ∀ lexeme, Whole [⟨.identifier, lexeme, 1⟩] (.var ⟨.identifier, lexeme, 1⟩) :=
    fun lexeme => ⟨derives_name rfl .assignment, Nat.zero_le 100⟩
  have ended : ∀ lexeme, Ended [⟨.identifier, lexeme, 1⟩] ⟨.semicolon, ";", 1⟩ :=
    fun lexeme => .expression (name lexeme) rfl
  have stated : ∀ lexeme, Declaration [⟨.identifier, lexeme, 1⟩, ⟨.semicolon, ";", 1⟩] _ :=
    fun lexeme => .statement (.simple (.expression (name lexeme) rfl))
  have missing := Unended.Declarations.inside .nil
    (.block (l := ⟨.leftBrace, "\x7b", 1⟩) rfl
      (.here .nil (ended "a") (.cons (stated "b") .nil)) (r := ⟨.rightBrace, "\x7d", 1⟩) rfl)
    (.cons (stated "c") .nil)
  have ends : Token.isEnd ⟨.endOfFile, "", 1⟩ = true := rfl
  refine ⟨missing, (oneError_iff_lands missing ends [] ?_).2.mpr ?_⟩
  · intro program derived
    have clean := read_derived derived ends []
    cases congrArg (·.errors.length) clean
  · exact lands_ended (ended "b") .nil (.inr rfl) _

/-- The tokens of `{ print a` in `{ print a; } print b;`. -/
def beforeLost : List Token :=
  [⟨.leftBrace, "\x7b", 1⟩, ⟨.printWord, "print", 1⟩, ⟨.identifier, "a", 1⟩]

def behindLost : List Token :=
  [⟨.rightBrace, "\x7d", 1⟩, ⟨.printWord, "print", 1⟩, ⟨.identifier, "b", 1⟩, ⟨.semicolon, ";", 1⟩]

/-- In `{ print a } print b;` the brace is given up with the error. So the block takes in the
    statement behind it, and is in error itself at the end. -/
theorem oneError_lost_brace :
    Unended.Declarations beforeLost ⟨.semicolon, ";", 1⟩ behindLost ∧
    (∀ program, ¬ Declarations (beforeLost ++ behindLost) program) ∧
    ¬ OneError (beforeLost ++ (behindLost ++ [⟨.endOfFile, "", 1⟩])) := by
  have name : ∀ lexeme, Whole [⟨.identifier, lexeme, 1⟩] (.var ⟨.identifier, lexeme, 1⟩) :=
    fun lexeme => ⟨derives_name rfl .assignment, Nat.zero_le 100⟩
  have ended : Ended [⟨.printWord, "print", 1⟩, ⟨.identifier, "a", 1⟩] ⟨.semicolon, ";", 1⟩ :=
    .print rfl (name "a") rfl
  have printed : Simple [⟨.printWord, "print", 1⟩, ⟨.identifier, "b", 1⟩, ⟨.semicolon, ";", 1⟩] _ :=
    .print rfl (name "b") rfl
  have ends : Token.isEnd ⟨.endOfFile, "", 1⟩ = true := rfl
  have twice : (read (beforeLost ++ (behindLost ++ [⟨.endOfFile, "", 1⟩]))).errors.length = 2 := rfl
  refine ⟨?_, ?_, ?_⟩
  · exact .inside .nil (.block rfl (.here .nil ended .nil) rfl)
      (.cons (.statement (.simple printed)) .nil)
  · intro program derived
    have clean := read_derived derived ends []
    rw [List.append_assoc] at clean
    rw [clean] at twice
    cases twice
  · rintro ⟨⟨e, once⟩, -⟩
    rw [once] at twice
    cases twice

end Program

end Blockscript

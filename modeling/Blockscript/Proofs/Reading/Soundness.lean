import Blockscript.Proofs.Reading.Statements

/-!
Statements and programs that are read were derived: from all tokens if there were no errors,
and otherwise from those that are left without the parts given up. The induction is on the
number of tokens, since what stands inside a statement has fewer of them.
-/
namespace Blockscript

open Grammar

theorem forLoop_eq (initial : Option Stmt) (c : Expr) (step : Option Expr) (body : Stmt) :
    Stmt.forLoop initial c step body = preceded (.loop c (followed body step)) initial := by
  cases initial <;> cases step <;> rfl

theorem Recovering.items_stops (declaration : Recovering (Option Stmt)) (closes : Kind → Bool) :
    items declaration closes [] = ⟨[], [], []⟩ :=
  itemsWithin_stops declaration closes []

/-- The tokens are among those before `rest`, in their order. They are all of those if no error
    was noted. -/
structure Gathered (tokens ts rest : List Token) (errors : List Error) : Prop where
  sublist : (ts ++ rest).Sublist tokens
  whole : errors = [] → tokens = ts ++ rest

namespace Gathered

variable {tokens ts us between rest : List Token} {errors errors' : List Error}

theorem all (split : tokens = ts ++ rest) : Gathered tokens ts rest errors where
  sublist := split ▸ List.Sublist.refl _
  whole _ := split

theorem append (first : Gathered tokens ts between errors)
    (second : Gathered between us rest errors') :
    Gathered tokens (ts ++ us) rest (errors ++ errors') where
  sublist := by
    rw [List.append_assoc]
    exact ((List.Sublist.refl ts).append second.sublist).trans first.sublist
  whole none := by
    obtain ⟨none, none'⟩ := List.append_eq_nil_iff.mp none
    rw [first.whole none, second.whole none', List.append_assoc]

theorem behind (h : Gathered tokens ts rest errors) (before : List Token) :
    Gathered (before ++ tokens) (before ++ ts) rest errors :=
  have first : Gathered (before ++ tokens) before tokens [] := all rfl
  first.append h

theorem followed (h : Gathered tokens ts (us ++ rest) errors) :
    Gathered tokens (ts ++ us) rest errors := by
  have last : Gathered (us ++ rest) us rest [] := all rfl
  have both := h.append last
  rwa [List.append_nil] at both

end Gathered

namespace PartReader

variable {n : Nat} {tokens rest : List Token} {errors : List Error} {s : Stmt}

theorem statement_cons (t : Token) (tokens : List Token) :
    statement (t :: tokens) =
      match t.kind with
      | .forWord => forStatement statement tokens
      | .ifWord => ifStatement statement tokens
      | .whileWord => whileStatement statement tokens
      | .printWord => (Reader.printed : PartReader Stmt) tokens
      | .leftBrace => blockStatement body tokens
      | _ => (Reader.evaluated : PartReader Stmt) (t :: tokens) :=
  congrFun statement_eq (t :: tokens)

theorem statement_plain {tokens : List Token}
    (plain : ∀ t ∈ tokens.head?, t.kind.startsStatement = false ∧ t.kind ≠ .leftBrace) :
    statement tokens = (Reader.evaluated : PartReader Stmt) tokens := by
  cases tokens with
  | nil => rfl
  | cons t more =>
    obtain ⟨other, noBrace⟩ := plain t rfl
    rw [statement_cons]
    split
    · rename_i word; simp [word, Kind.startsStatement] at other
    · rename_i word; simp [word, Kind.startsStatement] at other
    · rename_i word; simp [word, Kind.startsStatement] at other
    · rename_i word; simp [word, Kind.startsStatement] at other
    · rename_i word; exact absurd word noBrace
    · rfl

theorem declaration_cons (t : Token) (tokens : List Token) :
    declaration (t :: tokens) =
      if t.kind = .varWord then (Reader.declaration : PartReader Stmt) tokens
      else statement (t :: tokens) :=
  rfl

theorem evaluated_sound
    (run : (Reader.evaluated : PartReader Stmt) tokens = ⟨.ok s, rest, errors⟩) (closed : Bool) :
    ∃ ts, Gathered tokens ts rest errors ∧ Statement closed ts s := by
  obtain ⟨read, rfl⟩ := lift_eq_ok run
  obtain ⟨ts, stop, e, rfl, whole, stops, rfl⟩ := Reader.ended_sound read
  exact ⟨ts ++ [stop], .all (by simp), .simple (.expression whole stops)⟩

/-- Up to `n` tokens, a statement that is read was derived. It is closed if an `else` comes
    after it. -/
def SoundUpTo (n : Nat) : Prop :=
  ∀ {tokens s rest errors}, tokens.length ≤ n → statement tokens = ⟨.ok s, rest, errors⟩ →
    ∃ ts, Gathered tokens ts rest errors ∧ Statement (elseNext rest) ts s

theorem declaration_sound (h : SoundUpTo n) (few : tokens.length ≤ n)
    (run : declaration tokens = ⟨.ok s, rest, errors⟩) :
    ∃ ts, Gathered tokens ts rest errors ∧ Declaration ts s := by
  cases tokens with
  | nil =>
    obtain ⟨ts, gathered, stated⟩ := h few run
    exact ⟨ts, gathered, .statement stated.opened⟩
  | cons t more =>
    rw [declaration_cons] at run
    split at run
    · rename_i starts
      obtain ⟨read, rfl⟩ := lift_eq_ok run
      obtain ⟨ts, split, declared⟩ := Reader.declaration_sound read starts
      exact ⟨ts, .all split, .variable declared⟩
    · obtain ⟨ts, gathered, stated⟩ := h few run
      exact ⟨ts, gathered, .statement stated.opened⟩

theorem recover_sound (h : SoundUpTo n) (few : tokens.length ≤ n) {item : Option Stmt}
    (run : recover declaration tokens = ⟨item, rest, errors⟩) :
    ∃ ts, Gathered tokens ts rest errors ∧ Declarations ts item.toList := by
  rcases read : declaration tokens with ⟨e | s, between, noted⟩
  · rw [Recovering.recover_of_error read] at run
    obtain ⟨rfl, rfl, rfl⟩ := Recovered.mk.inj run
    have went := (takes_declaration tokens).along.taken
    rw [read] at went
    obtain ⟨used, rfl, -⟩ := went
    obtain ⟨dropped, split, -⟩ := (along_resume between).taken
    have left : (resume between).Sublist (dropped ++ resume between) :=
      List.sublist_append_right dropped _
    rw [← split] at left
    refine ⟨[], ⟨left.trans (List.sublist_append_right used between), ?_⟩, .nil⟩
    intro none
    simp at none
  · rw [Recovering.recover_of_ok read] at run
    obtain ⟨rfl, rfl, rfl⟩ := Recovered.mk.inj run
    obtain ⟨ts, gathered, declared⟩ := declaration_sound h few read
    exact ⟨ts, gathered, by simpa using Declarations.cons declared .nil⟩

theorem items_sound (h : SoundUpTo n) {closes : Kind → Bool} {program : List Stmt}
    (few : tokens.length ≤ n)
    (run : Recovering.items (recover declaration) closes tokens = ⟨program, rest, errors⟩) :
    ∃ ts, Gathered tokens ts rest errors ∧ Declarations ts program := by
  induction size : tokens.length using Nat.strongRecOn generalizing tokens program errors with
  | ind k ih =>
    cases tokens with
    | nil =>
      rw [Recovering.items_stops] at run
      obtain ⟨rfl, rfl, rfl⟩ := Recovered.mk.inj run
      exact ⟨[], .all rfl, .nil⟩
    | cons t more =>
      rw [Recovering.items_cons declaration_advances] at run
      split at run
      · obtain ⟨rfl, rfl, rfl⟩ := Recovered.mk.inj run
        exact ⟨[], .all rfl, .nil⟩
      · rename_i before
        have shorter := declaration_advances t more (Recovering.not_end_of_open before)
        rcases first : recover declaration (t :: more) with ⟨item, between, noted⟩
        rw [first] at run shorter
        simp only at run shorter
        rcases later : Recovering.items (recover declaration) closes between with
          ⟨items, rest', noted'⟩
        rw [later] at run
        obtain ⟨rfl, rfl, rfl⟩ := Recovered.mk.inj run
        obtain ⟨ts, gathered, declared⟩ := recover_sound h few first
        obtain ⟨us, gathered', derived⟩ := ih between.length (by omega) (by omega) later rfl
        exact ⟨ts ++ us, gathered.append gathered', declared.append derived⟩

theorem blockStatement_sound (h : SoundUpTo n) (few : tokens.length ≤ n) {l : Token}
    (opens : l.kind = .leftBrace) (run : blockStatement body tokens = ⟨.ok s, rest, errors⟩)
    (closed : Bool) : ∃ ts, Gathered (l :: tokens) ts rest errors ∧ Statement closed ts s := by
  obtain ⟨inner, between, noted, _, first, closing, rfl⟩ := bind_eq_ok run
  obtain ⟨r, after, last, closing⟩ := lift_bind_eq_ok closing
  obtain ⟨rfl, rfl, rfl⟩ := pure_eq_ok closing
  obtain ⟨rfl, closes⟩ := Reader.expect_eq_ok last
  rw [lift_recovering] at first
  have read : body tokens = ⟨inner, r :: after, noted⟩ := by
    rcases given : body tokens with ⟨_, _, _⟩
    simpa [given] using first
  obtain ⟨ts, gathered, derived⟩ := items_sound h few read
  have whole : Gathered tokens (ts ++ [r]) after noted := gathered.followed
  exact ⟨l :: (ts ++ [r]), by simpa using whole.behind [l], .block opens derived closes⟩

theorem whileStatement_sound (h : SoundUpTo n) (few : tokens.length ≤ n) {word : Token}
    (starts : word.kind = .whileWord)
    (run : whileStatement statement tokens = ⟨.ok s, rest, errors⟩) :
    ∃ ts, Gathered (word :: tokens) ts rest errors ∧ Statement (elseNext rest) ts s := by
  obtain ⟨c, _, tested, run⟩ := lift_bind_eq_ok run
  obtain ⟨inner, repeated, rfl⟩ := bind_pure_eq_ok run
  obtain ⟨cs, rfl, condition⟩ := Reader.condition_sound tested
  rw [List.length_append] at few
  obtain ⟨ts, gathered, derived⟩ := h (by omega) repeated
  exact ⟨word :: (cs ++ ts), by simpa using gathered.behind (word :: cs),
    .whileLoop starts condition derived⟩

theorem forStatement_sound (h : SoundUpTo n) (few : tokens.length ≤ n) {word : Token}
    (starts : word.kind = .forWord)
    (run : forStatement statement tokens = ⟨.ok s, rest, errors⟩) :
    ∃ ts, Gathered (word :: tokens) ts rest errors ∧ Statement (elseNext rest) ts s := by
  obtain ⟨l, _, opening, run⟩ := lift_bind_eq_ok run
  obtain ⟨initial, _, started, run⟩ := lift_bind_eq_ok run
  obtain ⟨c, _, tested, run⟩ := lift_bind_eq_ok run
  obtain ⟨step, _, stepped, run⟩ := lift_bind_eq_ok run
  obtain ⟨inner, repeated, rfl⟩ := bind_pure_eq_ok run
  obtain ⟨rfl, opens⟩ := Reader.expect_eq_ok opening
  obtain ⟨is, rfl, first⟩ := Reader.initialClause_sound started
  obtain ⟨cs, rfl, condition⟩ := Reader.conditionClause_sound tested
  obtain ⟨ss, rfl, last⟩ := Reader.stepClause_sound stepped
  simp only [List.length_cons, List.length_append] at few
  obtain ⟨ts, gathered, derived⟩ := h (by omega) repeated
  rw [forLoop_eq]
  exact ⟨word :: l :: (is ++ (cs ++ (ss ++ ts))),
    by simpa using gathered.behind (word :: l :: (is ++ (cs ++ ss))),
    .forLoop starts opens first condition last derived⟩

theorem ifStatement_sound (h : SoundUpTo n) (few : tokens.length ≤ n) {word : Token}
    (starts : word.kind = .ifWord) (run : ifStatement statement tokens = ⟨.ok s, rest, errors⟩) :
    ∃ ts, Gathered (word :: tokens) ts rest errors ∧ Statement (elseNext rest) ts s := by
  unfold ifStatement at run
  obtain ⟨c, _, tested, run⟩ := lift_bind_eq_ok run
  obtain ⟨accepted, between, _, _, taken, later, rfl⟩ := bind_eq_ok run
  obtain ⟨more, behind, turn, later⟩ := lift_bind_eq_ok later
  obtain ⟨cs, rfl, condition⟩ := Reader.condition_sound tested
  rw [List.length_append] at few
  cases more with
  | true =>
    simp only [↓reduceIte, map_eq_bind] at later
    obtain ⟨_, wrapped, rfl⟩ := bind_pure_eq_ok later
    obtain ⟨rejected, refused, rfl⟩ := bind_pure_eq_ok wrapped
    obtain ⟨other, rfl, turns⟩ := Reader.accept_eq_true turn
    obtain ⟨ts, gathered, derived⟩ := h (by omega) taken
    have fewer := gathered.sublist.length_le
    simp only [List.length_append, List.length_cons] at fewer
    obtain ⟨us, gathered', derived'⟩ := h (by omega) refused
    have closed : elseNext (other :: behind) = true := by simp [elseNext, turns]
    rw [closed] at derived
    refine ⟨word :: (cs ++ (ts ++ other :: us)), ?_,
      .ifElse starts condition derived turns derived'⟩
    simpa using (gathered.append (gathered'.behind [other])).behind (word :: cs)
  | false =>
    simp only [Bool.false_eq_true, ↓reduceIte] at later
    obtain ⟨_, left, rfl⟩ := bind_pure_eq_ok later
    obtain ⟨rfl, rfl, rfl⟩ := pure_eq_ok left
    obtain ⟨rfl, other⟩ := Reader.accept_eq_false turn
    obtain ⟨ts, gathered, derived⟩ := h (by omega) taken
    have last : elseNext between = false := by
      simpa [elseNext, Option.any_eq_false] using other
    rw [last] at derived ⊢
    exact ⟨word :: (cs ++ ts), by simpa using gathered.behind (word :: cs),
      .ifOnly starts condition derived⟩

theorem statement_soundUpTo (n : Nat) : SoundUpTo n := by
  induction n with
  | zero =>
    intro tokens s rest errors few run
    obtain rfl : tokens = [] := List.length_eq_zero_iff.mp (Nat.le_zero.mp few)
    exact evaluated_sound run _
  | succ n ih =>
    intro tokens s rest errors few run
    cases tokens with
    | nil => exact evaluated_sound run _
    | cons t more =>
      have fewer : more.length ≤ n := Nat.le_of_succ_le_succ few
      rw [statement_cons] at run
      split at run
      · rename_i starts; exact forStatement_sound ih fewer starts run
      · rename_i starts; exact ifStatement_sound ih fewer starts run
      · rename_i starts; exact whileStatement_sound ih fewer starts run
      · rename_i starts
        obtain ⟨read, rfl⟩ := lift_eq_ok run
        obtain ⟨ts, stop, e, rfl, whole, stops, rfl⟩ := Reader.ended_sound read
        exact ⟨t :: (ts ++ [stop]), .all (by simp), .simple (.print starts whole stops)⟩
      · rename_i opens; exact blockStatement_sound ih fewer opens run _
      · exact evaluated_sound run _

end PartReader

end Blockscript

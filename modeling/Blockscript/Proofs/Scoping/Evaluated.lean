import Blockscript.Proofs.Running.Raising
import Blockscript.Proofs.Running.ScopeNames
import Blockscript.Proofs.Scoping.Restored
import Blockscript.Proofs.Scoping.Shared

/-!
What evaluating an expression leaves. It ends, writes nothing, and neither makes nor names
anything; only where a name that the expression assigns to would be found can a value be another
one, and none is if no assignment is come to.
-/
namespace Blockscript

def Expr.targets : Expr → List String
  | .literal _ | .var _ => []
  | .grouping inner => inner.targets
  | .unary _ operand => operand.targets
  | .binary left _ right | .logical left _ right => left.targets ++ right.targets
  | .assign name value => name.lexeme :: value.targets

namespace Primitives

variable {σ α β : Type}

/-- Evaluation comes to an assignment. It comes to a right operand only if the left one has a
    value, and to that of a logical operator only if the value does not settle the answer. -/
def Reaches (p : Primitives σ) : Expr → σ → Prop
  | .literal _, _ | .var _, _ => False
  | .grouping inner, s => p.Reaches inner s
  | .unary _ operand, s => p.Reaches operand s
  | .binary left _ right, s =>
    p.Reaches left s ∨ ∃ v t, p.evaluate left s = .ok v t ∧ p.Reaches right t
  | .logical left op right, s =>
    p.Reaches left s ∨ ∃ v t, p.evaluate left s = .ok v t ∧
      op.kind = (if v.isTruthy then .andWord else .orWord) ∧ p.Reaches right t
  | .assign _ _, _ => True

def Keeps (R : σ → σ → Prop) (run : EStateM Stop σ α) : Prop := ∀ s, R s (stateAfter (run s))

def Leaves (s : σ) (run : EStateM Stop σ α) : Prop := stateAfter (run s) = s

section

variable {p : Primitives σ} {R : σ → σ → Prop} {run : EStateM Stop σ α}
  {next : α → EStateM Stop σ β}

theorem Keeps.bind (first : Keeps R run) (trans : ∀ {s t u}, R s t → R t u → R s u)
    (second : ∀ v, Keeps R (next v)) : Keeps R (run >>= next) := by
  intro s
  have early := first s
  simp only [Bind.bind, EStateM.bind]
  cases ran : run s with
  | ok v t =>
    rw [ran] at early
    exact trans early (second v t)
  | error e t =>
    rw [ran] at early
    exact early

theorem keeps_ofExcept (refl : ∀ s, R s s) (result : Except Error Value) :
    Keeps R (ofExcept result) := by
  intro s
  cases result <;> exact refl s

theorem Leaves.bind {s : σ} (first : Leaves s run)
    (second : ∀ v, run s = .ok v s → Leaves s (next v)) : Leaves s (run >>= next) := by
  unfold Leaves at *
  simp only [Bind.bind, EStateM.bind]
  cases ran : run s with
  | ok v t =>
    rw [ran] at first
    obtain rfl : t = s := first
    exact second v ran
  | error e t =>
    rw [ran] at first
    exact first

theorem keeps_evaluate (refl : ∀ s, R s s) (trans : ∀ {s t u}, R s t → R t u → R s u)
    (lookup : ∀ name, Keeps R (p.lookup name)) (e : Expr)
    (assign : ∀ name : Token, name.lexeme ∈ e.targets → ∀ v, Keeps R (p.assign name v)) :
    Keeps R (p.evaluate e) := by
  induction e with
  | literal value => exact refl
  | grouping inner ih => exact ih assign
  | unary op operand ih => exact (ih assign).bind trans fun v => keeps_ofExcept refl _
  | binary left op right ihl ihr =>
    have first := ihl fun name among => assign name (List.mem_append_left _ among)
    have second := ihr fun name among => assign name (List.mem_append_right _ among)
    exact first.bind trans fun v => second.bind trans fun w => keeps_ofExcept refl _
  | logical left op right ihl ihr =>
    have first := ihl fun name among => assign name (List.mem_append_left _ among)
    have second := ihr fun name among => assign name (List.mem_append_right _ among)
    refine first.bind trans fun v => ?_
    split
    · exact refl
    · exact refl
    · exact second
    · exact second
    · exact refl
  | var name => exact lookup name
  | assign name value ih =>
    have inner := ih fun other among => assign other (List.mem_cons_of_mem _ among)
    exact inner.bind trans fun v => assign name List.mem_cons_self v

theorem evaluate_ends (lookup : ∀ name, Raises (· ≠ Stop.outOfFuel) (p.lookup name))
    (assign : ∀ name v, Raises (· ≠ Stop.outOfFuel) (p.assign name v)) (e : Expr) :
    Raises (· ≠ Stop.outOfFuel) (p.evaluate e) := by
  have operator : ∀ result : Except Error Value,
      Raises (· ≠ Stop.outOfFuel) (ofExcept result : EStateM Stop σ Value) := by
    rintro (error | v) s e t failed
    · cases failed
      simp
    · cases failed
  induction e with
  | literal value => exact raises_pure value
  | grouping inner ih => exact ih
  | unary op operand ih => exact ih.bind fun v => operator _
  | binary left op right ihl ihr => exact ihl.bind fun v => ihr.bind fun w => operator _
  | logical left op right ihl ihr =>
    refine ihl.bind fun v => ?_
    split
    · exact raises_pure v
    · exact raises_pure v
    · exact ihr
    · exact ihr
    · exact raises_throw (by simp)
  | var name => exact lookup name
  | assign name value ih => exact ih.bind fun v => assign name v

theorem unchanged (lookup : ∀ name s, Leaves s (p.lookup name)) (e : Expr) {s : σ}
    (none : ¬ p.Reaches e s) : Leaves s (p.evaluate e) := by
  have operator : ∀ result : Except Error Value, Leaves s (ofExcept result) := by
    rintro (error | v) <;> rfl
  induction e with
  | literal value => rfl
  | grouping inner ih => exact ih none
  | unary op operand ih => exact (ih none).bind fun v _ => operator _
  | binary left op right ihl ihr =>
    obtain ⟨early, later⟩ := not_or.mp none
    refine (ihl early).bind fun v ran => ?_
    have second := ihr fun reached => later ⟨v, s, ran, reached⟩
    exact second.bind fun w _ => operator _
  | logical left op right ihl ihr =>
    obtain ⟨early, later⟩ := not_or.mp none
    refine (ihl early).bind fun v ran => ?_
    have second : op.kind = (if v.isTruthy then .andWord else .orWord) →
        Leaves s (p.evaluate right) := fun goes =>
      ihr fun reached => later ⟨v, s, ran, goes, reached⟩
    split
    · rfl
    · rfl
    · rename_i kind truthy
      exact second (by rw [kind, truthy]; rfl)
    · rename_i kind truthy
      exact second (by rw [kind, truthy]; rfl)
    · rfl
  | var name => exact lookup name s
  | assign name value ih => exact absurd trivial none

end

end Primitives

theorem Forest.missing_iff {f : Forest} {i : Nat} {name : String} (sound : f.Sound)
    (inside : i < f.fresh) : f.get? i name = none ↔ ∀ j, ¬ f.Nearest name i j := by
  constructor
  · intro missing j found
    obtain ⟨v, value⟩ := Option.isSome_iff_exists.mp found.holds
    rw [nearest_iff sound inside] at found
    rw [get?, found, Option.bind_some, value] at missing
    cases missing
  · intro missing
    rw [get?, holder?_eq_none sound inside missing, Option.bind_none]

namespace Cells

open Primitives

variable {W : Type} {m m' m'' : Cells W} {targets : List String}

/-- Nothing but values is another, and these only where one of the names is found. -/
structure Evaluated (targets : List String) (m m' : Cells W) : Prop where
  writer : m'.writer = m.writer
  current : m'.current = m.current
  fresh : m'.forest.fresh = m.forest.fresh
  enclosing : ∀ i, m'.forest.enclosing? i = m.forest.enclosing? i
  names : ∀ i, (m'.forest.scope i).names = (m.forest.scope i).names
  values : ∀ i name, (m'.forest.scope i).get? name ≠ (m.forest.scope i).get? name →
    name ∈ targets ∧ m.forest.Nearest name m.current i

namespace Evaluated

theorem refl (targets : List String) (m : Cells W) : Evaluated targets m m :=
  ⟨rfl, rfl, rfl, fun _ => rfl, fun _ => rfl, fun _ _ other => absurd rfl other⟩

theorem sound (h : Evaluated targets m m') (sound : m.Sound) : m'.Sound := by
  refine ⟨?_, by rw [h.current, h.fresh]; exact sound.2⟩
  intro i j found
  rw [h.enclosing] at found
  exact sound.1 i j found

theorem holds (h : Evaluated targets m m') (i : Nat) (name : String) :
    (m'.forest.scope i).holds name = (m.forest.scope i).holds name := by
  rw [Bool.eq_iff_iff, Scope.holds_iff_mem, Scope.holds_iff_mem, h.names]

theorem nearest (h : Evaluated targets m m') (sound : m.Sound) {name : String} {i : Nat}
    (found : m'.forest.Nearest name m'.current i) : m.forest.Nearest name m.current i := by
  rw [h.current] at found
  exact found.congr (fun k _ => (h.enclosing k).symm) (fun k _ => (h.holds k name).symm)
    (h.sound sound).1

theorem trans (h : Evaluated targets m m') (sound : m.Sound) (h' : Evaluated targets m' m'') :
    Evaluated targets m m'' where
  writer := h'.writer.trans h.writer
  current := h'.current.trans h.current
  fresh := h'.fresh.trans h.fresh
  enclosing i := (h'.enclosing i).trans (h.enclosing i)
  names i := (h'.names i).trans (h.names i)
  values i name other := by
    by_cases same : (m'.forest.scope i).get? name = (m.forest.scope i).get? name
    · obtain ⟨target, found⟩ := h'.values i name (same ▸ other)
      exact ⟨target, h.nearest sound found⟩
    · exact h.values i name same

end Evaluated

theorem leaves_lookup (name : Token) (m : Cells W) : Leaves m (lookup name) := by
  unfold Leaves lookup
  cases m.forest.get? m.current name.lexeme <;> rfl

theorem evaluated_assign (sound : m.Sound) {name : Token} (target : name.lexeme ∈ targets)
    (v : Value) : Evaluated targets m (stateAfter (assign name v m)) := by
  unfold assign Forest.assign?
  cases holder : m.forest.holder? m.current name.lexeme with
  | none => exact .refl targets m
  | some i =>
    have inside := Forest.holder?_lt sound.1 sound.2 holder
    have found := (Forest.nearest_iff sound.1 sound.2).mpr holder
    have bound := Forest.binds_declare inside name.lexeme v
    refine ⟨rfl, rfl, bound.fresh, bound.enclosing, ?_, ?_⟩
    · intro j
      change ((m.forest.declare i name.lexeme v).scope j).names = _
      rw [Forest.scope_declare inside]
      split
      · rename_i same
        rw [same, Scope.names_declare found.holds]
      · rfl
    · intro j other changed
      have here : j = i ∧ other = name.lexeme := by
        by_contra elsewhere
        exact changed ((bound.values j other).trans (if_neg elsewhere))
      rw [here.1, here.2]
      exact ⟨target, found⟩

theorem steps_keep (put : Writer W) (e : Expr) :
    Keeps (fun m m' => m.Sound → Evaluated e.targets m m') ((steps put).evaluate e) := by
  refine keeps_evaluate (fun m _ => .refl _ m) ?_ ?_ e ?_
  · intro m m' m'' first second sound
    exact (first sound).trans sound (second ((first sound).sound sound))
  · intro name m _
    have same : stateAfter (lookup name m) = m := leaves_lookup name m
    change Evaluated _ _ (stateAfter (lookup name m))
    rw [same]
    exact .refl _ m
  · intro name target v m sound
    exact evaluated_assign sound target v

theorem evaluated (put : Writer W) (sound : m.Sound) (e : Expr) :
    Evaluated e.targets m (stateAfter ((steps put).evaluate e m)) :=
  steps_keep put e m sound

theorem raises_lookup (name : Token) :
    Raises (· ≠ Stop.outOfFuel) (lookup name : EStateM Stop (Cells W) Value) := by
  intro m stop m' failed
  unfold lookup at failed
  split at failed
  · cases failed
  · cases failed
    simp

theorem raises_assign (name : Token) (v : Value) :
    Raises (· ≠ Stop.outOfFuel) (assign name v : EStateM Stop (Cells W) Value) := by
  intro m stop m' failed
  unfold assign at failed
  split at failed
  · cases failed
  · cases failed
    simp

theorem assign_fails (put : Writer W) (sound : m.Sound) {name : Token} {value : Expr}
    (fails : (∀ v m', (steps put).evaluate value m ≠ .ok v m') ∨
      m.forest.get? m.current name.lexeme = none) :
    stateAfter ((steps put).evaluate (.assign name value) m) =
      stateAfter ((steps put).evaluate value m) := by
  have within := evaluated put sound value
  simp only [evaluate, Bind.bind, EStateM.bind]
  cases ran : (steps put).evaluate value m with
  | error e m' => rfl
  | ok v m' =>
    rw [ran] at within
    rcases fails with fails | missing
    · exact absurd ran (fails v m')
    · have sound' := within.sound sound
      rw [Forest.missing_iff sound.1 sound.2] at missing
      have still : m'.forest.holder? m'.current name.lexeme = none :=
        Forest.holder?_eq_none sound'.1 sound'.2 fun i found =>
          missing i (within.nearest sound found)
      change stateAfter (assign name v m') = m'
      rw [assign, Forest.assign?, still, Option.map_none]
      rfl

/-- Evaluation ends with a value or an error. It leaves the machine as it was but for values
    that are found under the names the expression assigns to, an assignment that fails leaves
    what its right side left, and if none is come to, nothing differs and evaluation can be
    repeated. The program's own evaluation over the chain of the scopes seen is this one. -/
theorem evaluate_frames (put : Writer W) (sound : m.Sound) (e : Expr) :
    (∃ m', Evaluated e.targets m m' ∧
      ((∃ v, (steps put).evaluate e m = .ok v m') ∨
        ∃ error, (steps put).evaluate e m = .error (.failed error) m')) ∧
    (∀ name : Token, (∀ v m', (steps put).evaluate e m ≠ .ok v m') ∨
        m.forest.get? m.current name.lexeme = none →
      stateAfter ((steps put).evaluate (.assign name e) m) =
        stateAfter ((steps put).evaluate e m)) ∧
    (¬ (steps put).Reaches e m → stateAfter ((steps put).evaluate e m) = m ∧
      (steps put).evaluate e (stateAfter ((steps put).evaluate e m)) =
        (steps put).evaluate e m) ∧
    ∀ output : Output, Alike (fun s t => s.scopes = t.forest.chain t.current ∧ s.output = t.writer)
      (Execution.value e ⟨m.forest.chain m.current, output⟩)
      ((steps Output.put).evaluate e ⟨m.forest, m.current, output⟩) := by
  refine ⟨?_, fun name fails => assign_fails put sound fails, ?_, ?_⟩
  · have within := evaluated put sound e
    have ends := evaluate_ends (p := steps put) raises_lookup raises_assign e m
    cases ran : (steps put).evaluate e m with
    | ok v m' =>
      rw [ran] at within
      exact ⟨m', within, .inl ⟨v, rfl⟩⟩
    | error stop m' =>
      rw [ran] at within
      cases stop with
      | failed error => exact ⟨m', within, .inr ⟨error, rfl⟩⟩
      | outOfFuel => exact absurd rfl (ends _ _ ran)
  · intro none
    have same : stateAfter ((steps put).evaluate e m) = m := unchanged leaves_lookup e none
    exact ⟨same, by rw [same]⟩
  · intro output
    rw [← evaluate_machine]
    refine Alike.weaken ?_ (machine_simulates.evaluate _ e _ _ ⟨sound, rfl, rfl, rfl⟩)
    intro s t seen
    exact ⟨seen.scopes, seen.output⟩

def twoInside : Cells Unit := enter (enter (declare ⟨.identifier, "a", 1⟩ .nil (start ())))

/-- The operation fails after its left operand has assigned to a variable two scopes away. -/
theorem evaluate_frames_operand : twoInside.Sound ∧
    ∃ m' error, Evaluated ["a"] twoInside m' ∧
      (steps fun writer _ => (writer, none)).evaluate
        (.binary (.assign ⟨.identifier, "a", 2⟩ (.literal (.bool true))) ⟨.minus, "-", 2⟩
          (.literal .nil)) twoInside = .error (.failed error) m' ∧
      m'.forest.get? m'.current "a" = some (.bool true) := by
  have sound : twoInside.Sound := sound_enter (sound_enter (kept_declare (sound_start ()) _ _).sound)
  obtain ⟨⟨m', within, ends⟩, -⟩ := evaluate_frames (fun writer _ => (writer, none)) sound
    (.binary (.assign ⟨.identifier, "a", 2⟩ (.literal (.bool true))) ⟨.minus, "-", 2⟩
      (.literal .nil))
  refine ⟨sound, m', ?_⟩
  rcases ends with ⟨v, ran⟩ | ⟨error, ran⟩
  · cases ran
  · refine ⟨error, within, ran, ?_⟩
    cases ran
    rfl

end Cells

end Blockscript

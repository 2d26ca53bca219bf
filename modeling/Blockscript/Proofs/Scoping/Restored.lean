import Blockscript.Proofs.Scoping.Cells

/-!
What a run leaves of the scopes it began with. However it ends, the scope that was current is
current again and no other one has another name; the current one has gained the names that were
declared in it outside every block.
-/
namespace Blockscript

namespace Cells

open Primitives

variable {W : Type} {m m' m'' : Cells W} {names more : List String}

def interpret (put : Writer W) (fuel : Nat) (body : List Stmt) (m : Cells W) : Cells W :=
  stateAfter ((steps put).executeAll fuel body m)

def declared (put : Writer W) (fuel : Nat) (body : List Stmt) (m : Cells W) : List String :=
  (stateAfter ((steps put).noting.executeAll fuel body (m, []))).2

def interpretAll (put : Writer W) : List (Nat × List Stmt) → Cells W → Cells W
  | [], m => m
  | (fuel, body) :: rest, m => interpretAll put rest (m.interpret put fuel body)

structure Kept (names : List String) (m m' : Cells W) : Prop where
  sound : m'.Sound
  current : m'.current = m.current
  scopes : m.forest.fresh ≤ m'.forest.fresh
  enclosing : ∀ i < m.forest.fresh, m'.forest.enclosing? i = m.forest.enclosing? i
  holds : ∀ i < m.forest.fresh, ∀ name, (m'.forest.scope i).holds name ↔
    (i = m.current ∧ name ∈ names) ∨ (m.forest.scope i).holds name

theorem Kept.refl (sound : m.Sound) : Kept [] m m where
  sound := sound
  current := rfl
  scopes := Nat.le_refl _
  enclosing _ _ := rfl
  holds := by simp

theorem Kept.trans (h : Kept names m m') (h' : Kept more m' m'') : Kept (names ++ more) m m'' where
  sound := h'.sound
  current := h'.current.trans h.current
  scopes := Nat.le_trans h.scopes h'.scopes
  enclosing i inside :=
    (h'.enclosing i (Nat.lt_of_lt_of_le inside h.scopes)).trans (h.enclosing i inside)
  holds := by
    intro i inside name
    rw [h'.holds i (Nat.lt_of_lt_of_le inside h.scopes), h.holds i inside, h.current,
      List.mem_append]
    tauto

theorem kept_bound (sound : m.Sound) {i : Nat} (inside : i < m.forest.fresh) (name : String)
    (v : Value) (added : ∀ j other, (j = i ∧ other = name) ∨ (m.forest.scope j).holds other ↔
      (j = m.current ∧ other ∈ names) ∨ (m.forest.scope j).holds other) :
    Kept names m { m with forest := m.forest.declare i name v } where
  sound := by
    refine ⟨Forest.sound_declare sound.1 i name v, ?_⟩
    rw [Forest.fresh_declare]
    exact sound.2
  current := rfl
  scopes := Nat.le_of_eq (Forest.fresh_declare _ _ _ _).symm
  enclosing j _ := Forest.enclosing?_declare m.forest i name v j
  holds := by
    intro j _ other
    rw [← added, Forest.scope_declare inside]
    by_cases same : j = i
    · subst same
      simp [Scope.holds_declare]
    · simp [same]

theorem kept_declare (sound : m.Sound) (name : Token) (v : Value) :
    Kept [name.lexeme] m (declare name v m) := by
  refine kept_bound sound sound.2 name.lexeme v ?_
  intro j other
  rw [List.mem_singleton]

theorem kept_lookup (sound : m.Sound) (name : Token) : Kept [] m (stateAfter (lookup name m)) := by
  unfold lookup
  cases m.forest.get? m.current name.lexeme <;> exact .refl sound

theorem kept_assign (sound : m.Sound) (name : Token) (v : Value) :
    Kept [] m (stateAfter (assign name v m)) := by
  unfold assign Forest.assign?
  cases found : m.forest.holder? m.current name.lexeme with
  | none => exact .refl sound
  | some i =>
    have member := List.mem_of_find?_eq_some found
    have held := List.find?_some found
    have inside := Forest.path_lt sound.1 sound.2 i member
    refine kept_bound sound inside name.lexeme v ?_
    intro j other
    constructor
    · rintro (⟨rfl, rfl⟩ | old)
      · exact .inr held
      · exact .inr old
    · rintro (⟨_, none⟩ | old)
      · cases none
      · exact .inr old

theorem kept_write (sound : m.Sound) (put : Writer W) (text : String) :
    Kept [] m (stateAfter (write put text m)) := by
  unfold write
  have same : ∀ writer : W, Kept [] m { m with writer } := fun writer =>
    ⟨sound, rfl, Nat.le_refl _, fun _ _ => rfl, by simp⟩
  split <;> exact same _

theorem sound_enter (sound : m.Sound) : (enter m).Sound := by
  refine ⟨Forest.sound_child sound.1 sound.2, ?_⟩
  rw [enter, Forest.fresh_child]
  exact Nat.lt_succ_self _

theorem kept_leave (sound : m.Sound) (h : Kept names (enter m) m') : Kept [] m (leave m m') := by
  obtain ⟨sound', -, scopes, enclosing, holds⟩ := h
  simp only [enter, Forest.fresh_child] at scopes enclosing holds
  refine ⟨⟨sound'.1, ?_⟩, rfl, ?_, ?_, ?_⟩
  · have inside := sound.2
    change m.current < m'.forest.fresh
    omega
  · change m.forest.fresh ≤ m'.forest.fresh
    omega
  · intro i inside
    change m'.forest.enclosing? i = m.forest.enclosing? i
    rw [enclosing i (by omega), Forest.child_enclosing?, if_neg (by omega)]
  · intro i inside name
    change (m'.forest.scope i).holds name ↔ _
    have apart : i ≠ m.forest.fresh := by omega
    rw [holds i (by omega), Forest.child_scope]
    simp [apart]

theorem steps_frames (put : Writer W) :
    Frames (steps put) fun names m m' => m.Sound → Kept names m m' where
  refl _ sound := .refl sound
  trans h h' sound := (h sound).trans (h' (h sound).sound)
  lookup name _ sound := kept_lookup sound name
  assign name v _ sound := kept_assign sound name v
  declare name v _ sound := kept_declare sound name v
  write text _ sound := kept_write sound put text
  scope h sound := kept_leave sound (h (sound_enter sound))

theorem kept_interpret (put : Writer W) (fuel : Nat) (body : List Stmt) (sound : m.Sound) :
    Kept (m.declared put fuel body) m (m.interpret put fuel body) :=
  (steps_frames put).executeAll fuel body m sound

/-- The scopes seen are the same ones as before; none has other names than before, but that
    the current one has those of `names` beside its own. -/
structure Restored (names : List String) (m m' : Cells W) : Prop where
  current : m'.current = m.current
  path : m'.forest.path m'.current = m.forest.path m.current
  enclosing : ∀ i ∈ (m.forest.path m.current).tail, ∀ name,
    (m'.forest.scope i).holds name ↔ (m.forest.scope i).holds name
  gained : ∀ name, (m'.forest.scope m.current).holds name ↔
    name ∈ names ∨ (m.forest.scope m.current).holds name

theorem Kept.restored (sound : m.Sound) (h : Kept names m m') : Restored names m m' where
  current := h.current
  path := by
    rw [h.current]
    exact Forest.path_congr sound.1 sound.2 h.scopes h.enclosing
  enclosing := by
    intro i member name
    have once := Forest.path_nodup sound.1 m.current
    have inside := Forest.path_lt sound.1 sound.2 i (List.mem_of_mem_tail member)
    rw [Forest.path_eq sound.1 sound.2] at once member
    have apart : i ≠ m.current := ne_of_mem_of_not_mem member (List.nodup_cons.mp once).1
    rw [h.holds i inside]
    simp [apart]
  gained := by
    intro name
    rw [h.holds m.current sound.2]
    simp

theorem kept_interpretAll (put : Writer W) (programs : List (Nat × List Stmt)) (sound : m.Sound) :
    ∃ names, Kept names m (interpretAll put programs m) := by
  induction programs generalizing m with
  | nil => exact ⟨[], .refl sound⟩
  | cons program rest ih =>
    obtain ⟨fuel, body⟩ := program
    have first := kept_interpret put fuel body sound
    obtain ⟨more, last⟩ := ih first.sound
    exact ⟨_, first.trans last⟩

/-- A run restores the scopes it began with, whatever the writer does and however the run ends;
    so any number of runs from the start end in the global scope. The program's own run over
    the chain of the scopes seen is this run. -/
theorem interpret_restores (put : Writer W) (sound : m.Sound) (fuel : Nat) (body : List Stmt) :
    Restored (m.declared put fuel body) m (m.interpret put fuel body) ∧
    (∀ name ∈ m.declared put fuel body, name ∈ Stmt.allOpenNames body) ∧
    (∀ (writer : W) (programs : List (Nat × List Stmt)),
      (interpretAll put programs (start writer)).current = 0 ∧
      (interpretAll put programs (start writer)).forest.enclosing? 0 = none) ∧
    ∀ output : Output, Alike (fun s t => s.scopes = t.forest.chain t.current ∧ s.output = t.writer)
      (Stmt.executeAll fuel body ⟨m.forest.chain m.current, output⟩)
      ((steps Output.put).executeAll fuel body ⟨m.forest, m.current, output⟩) := by
  refine ⟨(kept_interpret put fuel body sound).restored sound, ?_, ?_, ?_⟩
  · intro name noted
    rcases notes_executeAll (steps put) fuel body (m, []) name noted with before | known
    · cases before
    · exact known
  · intro writer programs
    obtain ⟨names, kept⟩ := kept_interpretAll put programs (sound_start writer)
    exact ⟨kept.current, kept.enclosing 0 Nat.zero_lt_one⟩
  · intro output
    rw [← executeAll_machine]
    refine Alike.weaken ?_ (machine_simulates.executeAll fuel body _ _ _
      ⟨sound, rfl, rfl, rfl⟩)
    intro s t seen
    exact ⟨seen.scopes, seen.output⟩

/-- The writer refuses what a block prints. What the block declared is gone, and what comes after
    it is not declared. -/
theorem interpret_restores_refused : (enter (start ())).Sound ∧ Restored ["a"] (enter (start ()))
    (interpret (fun writer _ => (writer, some .full)) 1
      [.declare ⟨.identifier, "a", 1⟩ none,
       .block [.declare ⟨.identifier, "b", 2⟩ none, .print (.literal .nil)],
       .declare ⟨.identifier, "c", 3⟩ none] (enter (start ()))) := by
  have sound := sound_enter (sound_start ())
  refine ⟨sound, ?_⟩
  convert (interpret_restores _ sound 1 _).1
  rfl

end Cells

end Blockscript

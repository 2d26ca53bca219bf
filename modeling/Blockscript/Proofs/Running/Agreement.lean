import Blockscript.Proofs.Running.Confined
import Blockscript.Proofs.Scoping.Hops

/-!
Two runs of one program over different scopes. Where the scopes agree on all names the
program comes upon, the runs cannot be told apart; and each leaves all other names as they were.
-/
namespace Blockscript

def Scope.Same (P : String → Prop) (s s' : Scope) : Prop := ∀ name, P name → s'.get? name = s.get? name

namespace Scope

variable {P : String → Prop} {s s' s'' : Scope} {name : String} {value : Value}

theorem Same.refl (P : String → Prop) (s : Scope) : s.Same P s := fun _ _ => rfl

theorem Same.trans (h : s.Same P s') (h' : s'.Same P s'') : s.Same P s'' :=
  fun name sort => (h' name sort).trans (h name sort)

theorem Same.holds (h : s.Same P s') (sort : P name) : s'.holds name = s.holds name := by
  rw [Scope.holds, Scope.holds, h name sort]

theorem Same.declare (h : s.Same P s') (name : String) (value : Value) :
    (s.declare name value).Same P (s'.declare name value) := by
  intro other sort
  rw [get?_declare, get?_declare, h other sort]

theorem same_declare (other : ¬ P name) : s.Same P (s.declare name value) := by
  intro name' sort
  have apart : name' ≠ name := fun same => other (same ▸ sort)
  rw [get?_declare, if_neg apart]

end Scope

def Chain.Same (P : String → Prop) (c c' : Chain) : Prop :=
  List.Forall₂ (Scope.Same P) c.scopes c'.scopes

namespace Chain

variable {P : String → Prop} {c c' c'' : Chain} {name : String} {value : Value}

theorem same_scopes (P : String → Prop) (scopes : List Scope) :
    List.Forall₂ (Scope.Same P) scopes scopes :=
  List.forall₂_same.mpr fun s _ => .refl P s

theorem Same.refl (P : String → Prop) (c : Chain) : c.Same P c := same_scopes P c.scopes

theorem Same.trans (h : c.Same P c') (h' : c'.Same P c'') : c.Same P c'' := by
  unfold Same at h h' ⊢
  generalize c.scopes = scopes, c'.scopes = scopes', c''.scopes = scopes'' at h h' ⊢
  induction h generalizing scopes'' with
  | nil => exact h'
  | cons same _ ih =>
    cases h' with
    | cons same' more' => exact .cons (same.trans same') (ih _ more')

theorem Same.get? (h : c.Same P c') (sort : P name) : c'.get? name = c.get? name := by
  unfold Same at h
  unfold Chain.get?
  generalize c.scopes = scopes, c'.scopes = scopes' at h ⊢
  induction h with
  | nil => rfl
  | cons same _ ih => rw [List.findSome?_cons, List.findSome?_cons, same name sort, ih]

theorem Same.declare (h : c.Same P c') (name : String) (value : Value) :
    (c.declare name value).Same P (c'.declare name value) := by
  cases h with
  | cons same more => exact .cons (same.declare name value) more

theorem same_declare (other : ¬ P name) : c.Same P (c.declare name value) :=
  .cons (Scope.same_declare other) (same_scopes P c.outer)

theorem Same.enter (h : c.Same P c') : c.enter.Same P c'.enter := .cons (.refl P .empty) h

theorem Same.leave (h : c.Same P c') : c.leave.Same P c'.leave := by
  obtain ⟨inner, outer⟩ := c
  obtain ⟨inner', outer'⟩ := c'
  cases h with
  | cons same more =>
    cases more with
    | nil => exact .cons same .nil
    | cons same' more' => exact .cons same' more'

theorem same_assignIn {scopes scopes' : List Scope} (h : List.Forall₂ (Scope.Same P) scopes scopes')
    (sort : P name) (value : Value) : Option.Rel (List.Forall₂ (Scope.Same P))
      (assignIn name value scopes) (assignIn name value scopes') := by
  induction h with
  | nil => exact .none
  | @cons s s' rest rest' same more ih =>
    rw [assignIn, assignIn, same.holds sort]
    split
    · exact .some (.cons (same.declare name value) more)
    · generalize assignIn name value rest = bound at ih ⊢
      generalize assignIn name value rest' = bound' at ih ⊢
      cases ih with
      | none => exact .none
      | some deeper => exact .some (.cons same deeper)

theorem Same.assign? (h : c.Same P c') (sort : P name) (value : Value) :
    Option.Rel (Chain.Same P) (c.assign? name value) (c'.assign? name value) := by
  have both := same_assignIn h sort value
  rw [← assign?_scopes, ← assign?_scopes] at both
  generalize c.assign? name value = bound at both ⊢
  generalize c'.assign? name value = bound' at both ⊢
  cases bound <;> cases bound' <;> cases both
  · exact .none
  · rename_i deeper
    exact .some deeper

theorem assignIn_same (other : ¬ P name) {scopes scopes' : List Scope}
    (bound : assignIn name value scopes = some scopes') :
    List.Forall₂ (Scope.Same P) scopes scopes' := by
  induction scopes generalizing scopes' with
  | nil => cases bound
  | cons s rest ih =>
    rw [assignIn] at bound
    split at bound
    · obtain rfl := Option.some.inj bound
      exact .cons (Scope.same_declare other) (same_scopes P rest)
    · obtain ⟨rest', deeper, rfl⟩ := Option.map_eq_some_iff.mp bound
      exact .cons (.refl P s) (ih deeper)

theorem assign?_same (other : ¬ P name) (bound : c.assign? name value = some c') : c.Same P c' := by
  apply assignIn_same other
  rw [← assign?_scopes, bound]
  rfl

end Chain

structure Output.Alike (o o' p p' : Output) : Prop where
  room : p'.room = p.room
  wrote : ∃ bytes, p.written = o.written ++ bytes ∧ p'.written = o'.written ++ bytes

namespace Output

variable {o o' p p' : Output}

theorem Alike.refl (room : o'.room = o.room) : Alike o o' o o' :=
  ⟨room, .empty, ByteArray.append_empty.symm, ByteArray.append_empty.symm⟩

theorem Alike.write (h : Alike o o' p p') (text : String) :
    Alike o o' (p.write text).1 (p'.write text).1 ∧ (p'.write text).2 = (p.write text).2 := by
  obtain ⟨written, room⟩ := p
  obtain ⟨written', room'⟩ := p'
  obtain ⟨rfl, bytes, wrote, wrote'⟩ := h
  have longer : ∀ (room : Option Nat) (more : ByteArray),
      Alike o o' ⟨written ++ more, room⟩ ⟨written' ++ more, room⟩ := by
    intro room more
    refine ⟨rfl, bytes ++ more, ?_, ?_⟩
    · rw [← ByteArray.append_assoc, ← wrote]
    · rw [← ByteArray.append_assoc, ← wrote']
  unfold Output.write
  cases room' with
  | none => exact ⟨longer none _, rfl⟩
  | some room =>
    dsimp only
    split
    · exact ⟨longer _ _, rfl⟩
    · exact ⟨longer _ _, rfl⟩

end Output

namespace Primitives

variable (names : List String)

/-- The machines agree on the names, and what they wrote since is the same. -/
structure Indistinct (o o' : Output) (m m' : Machine) : Prop where
  scopes : m.scopes.Same (· ∈ names) m'.scopes
  output : Output.Alike o o' m.output m'.output

variable {names}

theorem lookup_indistinct (o o' : Output) (name : Token) :
    Mirrors (Indistinct names o o') ((machine.confined names).lookup name)
      ((machine.confined names).lookup name) := by
  intro m m' h
  unfold confined
  dsimp only
  split
  · rename_i known
    rw [lookup_machine, lookup_machine, h.scopes.get? known]
    cases m.scopes.get? name.lexeme with
    | none => exact .error h
    | some value => exact .ok h
  · exact .error h

theorem assign_indistinct (o o' : Output) (name : Token) (v : Value) :
    Mirrors (Indistinct names o o') ((machine.confined names).assign name v)
      ((machine.confined names).assign name v) := by
  intro m m' h
  unfold confined
  dsimp only
  split
  · rename_i known
    have both := h.scopes.assign? known v
    rw [assign_machine, assign_machine]
    generalize m.scopes.assign? name.lexeme v = bound at both ⊢
    generalize m'.scopes.assign? name.lexeme v = bound' at both ⊢
    cases both with
    | none => exact .error h
    | some deeper => exact .ok ⟨deeper, h.output⟩
  · exact .error h

theorem write_indistinct (o o' : Output) (text : String) :
    Mirrors (Indistinct names o o') (machine.write text) (machine.write text) := by
  intro m m' h
  obtain ⟨outputs, took⟩ := h.output.write text
  simp only [machine, Execution.write]
  generalize m.output.write text = result at outputs took ⊢
  generalize m'.output.write text = result' at outputs took ⊢
  obtain ⟨output, all⟩ := result
  obtain ⟨output', all'⟩ := result'
  obtain rfl : all' = all := took
  cases all' with
  | true => exact .ok ⟨h.scopes, outputs⟩
  | false => exact .error ⟨h.scopes, outputs⟩

theorem confined_simulates (o o' : Output) :
    Simulates (machine.confined names) (machine.confined names)
      fun (_ : Unit) => Indistinct names o o' where
  lookup _ := lookup_indistinct o o'
  assign _ := assign_indistinct o o'
  write _ := write_indistinct o o'
  declare := by
    intro _ name v m m' h
    unfold confined
    dsimp only
    split
    · exact ⟨h.scopes.declare name.lexeme v, h.output⟩
    · exact h
  scope _ m m' h :=
    ⟨(), ⟨h.scopes.enter, h.output⟩, fun _ _ inside => ⟨inside.scopes.leave, inside.output⟩⟩

theorem confined_frames :
    Frames (machine.confined names) fun _ m m' => m.scopes.Same (· ∉ names) m'.scopes where
  refl m := .refl _ m.scopes
  trans before after := before.trans after
  lookup := by
    intro name m
    unfold confined
    dsimp only
    split
    · rw [lookup_machine]
      cases m.scopes.get? name.lexeme <;> exact .refl _ m.scopes
    · exact .refl _ m.scopes
  assign := by
    intro name v m
    unfold confined
    dsimp only
    split
    · rename_i known
      rw [assign_machine]
      cases bound : m.scopes.assign? name.lexeme v with
      | none => exact .refl _ m.scopes
      | some scopes => exact Chain.assign?_same (not_not_intro known) bound
    · exact .refl _ m.scopes
  declare := by
    intro name v m
    unfold confined
    dsimp only
    split
    · rename_i known
      exact Chain.same_declare (not_not_intro known)
    · exact .refl _ m.scopes
  write := by
    intro text m
    simp only [confined, machine, Execution.write]
    generalize m.output.write text = result
    obtain ⟨output, all⟩ := result
    cases all <;> exact .refl _ m.scopes
  scope inside := inside.leave

end Primitives

open Primitives

variable {names : List String} {program : Program}

theorem Program.executeAll_indistinct (within_ : Stmt.Within names program) (fuel : Nat)
    {m m' : Machine} (agree : m.scopes.Same (· ∈ names) m'.scopes)
    (room : m'.output.room = m.output.room) :
    Alike (Indistinct names m.output m'.output) (Stmt.executeAll fuel program m)
      (Stmt.executeAll fuel program m') := by
  rw [← executeAll_machine, ← executeAll_confined machine fuel program within_]
  exact (confined_simulates m.output m'.output).executeAll fuel program () m m' ⟨agree, .refl room⟩

/-- A program leaves all names alone that are not in it. -/
theorem Program.executeAll_untouched (within_ : Stmt.Within names program) (fuel : Nat)
    (m : Machine) :
    m.scopes.Same (· ∉ names) (stateAfter (Stmt.executeAll fuel program m)).scopes := by
  rw [← executeAll_machine, ← executeAll_confined machine fuel program within_]
  exact confined_frames.executeAll fuel program m

end Blockscript

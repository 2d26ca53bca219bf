import Blockscript.Proofs.Running.Frames
import Blockscript.Proofs.Scoping.Paths

/-!
Runs over shared scopes and any writer. Every scope that was ever made keeps its number, one of
them is the current one, and a writer may fail whenever it likes. The program's own run sees of
all this the scopes on the path from the current one.
-/
namespace Blockscript

abbrev Writer (W : Type) := W → String → W × Option OutputFault

def Output.put : Writer Output := fun o text =>
  match o.write text with
  | (o, true) => (o, none)
  | (o, false) => (o, some .full)

structure Cells (W : Type) where
  forest : Forest
  current : Nat
  writer : W

namespace Cells

open Primitives (Alike Mirrors Simulates machine onScopes)

variable {W : Type}

def start (writer : W) : Cells W := ⟨.global, 0, writer⟩

def Sound (m : Cells W) : Prop := m.forest.Sound ∧ m.current < m.forest.fresh

def lookup (name : Token) : EStateM Stop (Cells W) Value := fun m =>
  match m.forest.get? m.current name.lexeme with
  | some v => .ok v m
  | none => .error (.failed (.undefined name)) m

def assign (name : Token) (value : Value) : EStateM Stop (Cells W) Value := fun m =>
  match m.forest.assign? m.current name.lexeme value with
  | some forest => .ok value { m with forest }
  | none => .error (.failed (.undefined name)) m

def declare (name : Token) (value : Value) (m : Cells W) : Cells W :=
  { m with forest := m.forest.declare m.current name.lexeme value }

def write (put : Writer W) (text : String) : EStateM Stop (Cells W) Unit := fun m =>
  match put m.writer text with
  | (writer, none) => .ok () { m with writer }
  | (writer, some fault) => .error (.failed (.output fault)) { m with writer }

def enter (m : Cells W) : Cells W :=
  { m with forest := m.forest.child m.current, current := m.forest.fresh }

/-- The scopes made in between stay, whether anything refers to them or not. -/
def leave (before after : Cells W) : Cells W := { after with current := before.current }

def steps (put : Writer W) : Primitives (Cells W) where
  lookup := lookup
  assign := assign
  declare := declare
  write := write put
  enter := enter
  leave := leave

theorem sound_start (writer : W) : (start writer).Sound := ⟨Forest.sound_global, Nat.zero_lt_one⟩

/-- The machine has what is seen from the current scope, whose path is `path`. -/
structure Seen (path : List Nat) (s : Machine) (m : Cells Output) : Prop where
  sound : m.Sound
  path : m.forest.path m.current = path
  scopes : s.scopes = m.forest.chain m.current
  output : s.output = m.writer

namespace Seen

variable {path : List Nat} {s s' : Machine} {m m' : Cells Output}

theorem rebound (h : Seen path s m) (i : Nat) (name : String) (v : Value) {scopes : Chain}
    (same : scopes = (m.forest.declare i name v).chain m.current) :
    Seen path { s with scopes } { m with forest := m.forest.declare i name v } := by
  obtain ⟨⟨sound, inside⟩, path, -, output⟩ := h
  refine ⟨⟨Forest.sound_declare sound i name v, ?_⟩, ?_, same, output⟩
  · rw [Forest.fresh_declare]
    exact inside
  · rw [Forest.path_declare sound name v inside]
    exact path

theorem declared (h : Seen path s m) (name : Token) (v : Value) :
    Seen path (machine.declare name v s) (declare name v m) := by
  refine h.rebound m.current name.lexeme v ?_
  rw [Forest.declare_chain h.sound.1 h.sound.2, h.scopes]

theorem entered (h : Seen path s m) :
    Seen (m.forest.fresh :: path) (machine.enter s) (enter m) := by
  obtain ⟨⟨sound, inside⟩, path, scopes, output⟩ := h
  refine ⟨⟨Forest.sound_child sound inside, ?_⟩, ?_, ?_, output⟩
  · rw [enter, Forest.fresh_child]
    exact Nat.lt_succ_self _
  · rw [enter, Forest.path_child_fresh sound inside, path]
  · rw [enter, Forest.chain_child_fresh sound inside, ← scopes]
    rfl

theorem leaves (h : Seen path s m) (h' : Seen (m.forest.fresh :: path) s' m') :
    Seen path (machine.leave s s') (leave m m') := by
  obtain ⟨⟨sound, inside⟩, path, -, -⟩ := h
  obtain ⟨⟨sound', inside'⟩, path', scopes', output'⟩ := h'
  have outer := path'
  rw [Forest.path_eq sound' inside', List.cons.injEq] at outer
  rw [Forest.path_eq sound inside] at path
  cases known : m'.forest.enclosing? m'.current with
  | none =>
    rw [known, ← path] at outer
    cases outer.2
  | some j =>
    have older := sound' m'.current j known
    have inside'' : j < m'.forest.fresh := by omega
    rw [known, Option.elim_some] at outer
    have around := outer.2
    rw [Forest.path_eq sound' inside'', ← path, List.cons.injEq] at around
    have back : j = m.current := around.1
    subst back
    refine ⟨⟨sound', inside''⟩, outer.2, ?_, output'⟩
    change s'.scopes.leave = m'.forest.chain m.current
    rw [scopes', Forest.chain_leave sound' inside' known]

end Seen

theorem seen_lookup (path : List Nat) (name : Token) :
    Mirrors (Seen path) (machine.lookup name) (lookup name) := by
  intro s m seen
  have value := Forest.get?_chain seen.sound.1 seen.sound.2 name.lexeme
  rw [← seen.scopes] at value
  simp only [machine, onScopes, Evaluation.lookup, lookup, value]
  cases m.forest.get? m.current name.lexeme with
  | none => exact .error seen
  | some v => exact .ok seen

theorem seen_assign (path : List Nat) (name : Token) (v : Value) :
    Mirrors (Seen path) (machine.assign name v) (assign name v) := by
  intro s m seen
  have bound := Forest.assign?_chain seen.sound.1 seen.sound.2 name.lexeme v
  rw [← seen.scopes] at bound
  simp only [machine, onScopes, Evaluation.assign, assign, bound, Forest.assign?]
  cases m.forest.holder? m.current name.lexeme with
  | none => exact .error seen
  | some j => exact .ok (seen.rebound j name.lexeme v rfl)

theorem seen_write (path : List Nat) (text : String) :
    Mirrors (Seen path) (machine.write text) (write Output.put text) := by
  intro s m seen
  obtain ⟨sound, path, scopes, output⟩ := seen
  simp only [machine, Execution.write, write, Output.put, output]
  cases m.writer.write text with
  | mk writer taken =>
    cases taken with
    | false => exact .error ⟨sound, path, scopes, rfl⟩
    | true => exact .ok ⟨sound, path, scopes, rfl⟩

/-- The program's own run is what can be seen of a run over shared scopes. -/
theorem machine_simulates : Simulates machine (steps Output.put) Seen where
  lookup := seen_lookup
  assign := seen_assign
  declare _ name v _ _ seen := seen.declared name v
  write := seen_write
  scope path _ m seen :=
    ⟨m.forest.fresh :: path, seen.entered, fun _ _ inside => seen.leaves inside⟩

end Cells

end Blockscript

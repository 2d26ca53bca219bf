import Blockscript.Proofs.Running.Frames
import Blockscript.Proofs.Scoping.Hops
import Blockscript.Proofs.Scoping.Placed

/-!
Which names the scopes hold. A declaration adds one to the innermost scope; nothing else adds
or removes any.
-/
namespace Blockscript

open Primitives (Frames machine stateAfter lookup_machine assign_machine)

namespace Scope

variable {name : String}

theorem map_bind (value : Value) {bindings : List (String × Value)}
    (held : name ∈ bindings.map (·.1)) :
    (bind name value bindings).map (·.1) = bindings.map (·.1) := by
  induction bindings with
  | nil => cases held
  | cons first rest ih =>
    obtain ⟨other, old⟩ := first
    unfold bind
    split
    · rename_i same
      simp only [List.map_cons, same]
    · rename_i apart
      have later : name ∈ rest.map (·.1) := (List.mem_cons.mp held).resolve_left apart
      simp only [List.map_cons, ih later]

theorem holds_iff_mem (s : Scope) (name : String) : s.holds name = true ↔ name ∈ s.names := by
  simp only [holds, get?, names, List.lookup_isSome_iff, List.mem_map, beq_iff_eq]
  constructor
  · rintro ⟨binding, inside, rfl⟩
    exact ⟨binding, inside, rfl⟩
  · rintro ⟨binding, inside, rfl⟩
    exact ⟨binding, inside, rfl⟩

theorem names_declare {s : Scope} (held : s.holds name = true) (value : Value) :
    (s.declare name value).names = s.names :=
  map_bind value ((s.holds_iff_mem name).mp held)

end Scope

namespace Chain

def names (c : Chain) : List (List String) := c.scopes.map Scope.names

variable {name : String} {value : Value}

theorem names_assignIn {scopes scopes' : List Scope}
    (run : assignIn name value scopes = some scopes') :
    scopes'.map Scope.names = scopes.map Scope.names := by
  induction scopes generalizing scopes' with
  | nil => cases run
  | cons s rest ih =>
    rw [assignIn] at run
    split at run
    · rename_i held
      obtain rfl := Option.some.inj run
      simp only [List.map_cons, Scope.names_declare held]
    · obtain ⟨rest', deeper, rfl⟩ := Option.map_eq_some_iff.mp run
      simp only [List.map_cons, ih deeper]

theorem names_assign {c c' : Chain} (run : c.assign? name value = some c') :
    c'.names = c.names := by
  refine @names_assignIn name value _ _ ?_
  rw [← assign?_scopes, run]
  rfl

end Chain

/-- The scopes around the innermost one hold the same names in the same order, and so does the
    innermost one if none was declared. -/
structure Machine.SameNames (declared : List String) (m m' : Machine) : Prop where
  outer : m'.scopes.outer.map Scope.names = m.scopes.outer.map Scope.names
  inner : declared = [] → m'.scopes.inner.names = m.scopes.inner.names

namespace Machine.SameNames

theorem of_names {declared : List String} {m m' : Machine}
    (same : m'.scopes.names = m.scopes.names) : SameNames declared m m' := by
  obtain ⟨inner, outer⟩ := List.cons.inj same
  exact ⟨outer, fun _ => inner⟩

theorem names {m m' : Machine} (h : SameNames [] m m') : m'.scopes.names = m.scopes.names :=
  congrArg₂ List.cons (h.inner rfl) h.outer

theorem depth {declared : List String} {m m' : Machine} (h : SameNames declared m m') :
    m'.scopes.scopes.length = m.scopes.scopes.length := by
  have outer : m'.scopes.outer.length = m.scopes.outer.length := by
    simpa only [List.length_map] using congrArg List.length h.outer
  exact congrArg (· + 1) outer

end Machine.SameNames

theorem Primitives.names_frames : Frames machine Machine.SameNames where
  refl _ := .of_names rfl
  trans before behind := by
    refine ⟨behind.outer.trans before.outer, fun none => ?_⟩
    obtain ⟨first, second⟩ := List.append_eq_nil_iff.mp none
    exact (behind.inner second).trans (before.inner first)
  lookup name m := by
    rw [lookup_machine]
    cases m.scopes.get? name.lexeme <;> exact .of_names rfl
  assign name v m := by
    rw [assign_machine]
    cases assigned : m.scopes.assign? name.lexeme v with
    | none => exact .of_names rfl
    | some scopes => exact .of_names (Chain.names_assign assigned)
  declare name v m := ⟨rfl, fun none => by cases none⟩
  write text m := by
    simp only [machine, Execution.write]
    split <;> exact .of_names rfl
  scope {declared m m'} inside := by
    obtain ⟨c, o⟩ := m'
    obtain ⟨inner, outer⟩ := c
    cases outer with
    | nil => cases inside.outer
    | cons top outer => exact .of_names inside.outer

namespace Stmt.Settled

theorem openNames {s : Stmt} : s.Settled → s.openNames = []
  | .expression _ | .print _ | .block _ => by simp only [Stmt.openNames]
  | .ifOnly first => by simp only [Stmt.openNames, first.openNames]
  | .ifElse first second => by
    simp only [Stmt.openNames, first.openNames, second.openNames, List.append_nil]
  | .loop inner => by simp only [Stmt.openNames, inner.openNames]

theorem names_kept {s : Stmt} (h : s.Settled) (fuel : Nat) (m : Machine) :
    (stateAfter (s.execute fuel m)).scopes.names = m.scopes.names := by
  have kept := Primitives.names_frames.executeAll fuel [s] m
  have none : (stateAfter (machine.noting.executeAll fuel [s] (m, []))).2 = [] := by
    refine List.eq_nil_iff_forall_not_mem.mpr fun name noted => ?_
    rcases Primitives.notes_executeAll machine fuel [s] (m, []) name noted with early | known
    · cases early
    · simp only [Stmt.allOpenNames, h.openNames, List.append_nil, List.not_mem_nil] at known
  rw [none, Primitives.executeAll_machine, Stmt.executeAll_singleton] at kept
  exact kept.names

end Stmt.Settled

end Blockscript

import Blockscript.Scope.Chain
import Mathlib.Data.List.Forall2

/-!
Bindings by the number of scopes between them and the place they are used at. Which
scope holds a name is told by the names alone, so values play no part here.
-/
namespace Blockscript

/-- For each scope, the innermost first, the names that are declared in it so far. -/
abbrev Names := List (List String)

namespace Names

def hops? (names : Names) (name : String) : Option Nat :=
  names.findIdx? fun declared => decide (name ∈ declared)

def declare (name : String) : Names → Names
  | [] => [[name]]
  | top :: outer => (name :: top) :: outer

end Names

namespace Chain

variable {c c' : Chain} {names : Names} {name : String}

def hops? (c : Chain) (name : String) : Option Nat := c.scopes.findIdx? (·.holds name)

def at? (c : Chain) (hops : Nat) (name : String) : Option Value :=
  c.scopes[hops]?.bind (·.get? name)

/-- Rebinds `name` in the scope that many scopes outward, if that one holds it. -/
def rebind (name : String) (value : Value) : Nat → List Scope → Option (List Scope)
  | _, [] => none
  | 0, s :: rest => if s.holds name then some (s.declare name value :: rest) else none
  | hops + 1, s :: rest => (rebind name value hops rest).map (s :: ·)

def assignAt? (c : Chain) (hops : Nat) (name : String) (value : Value) : Option Chain :=
  match rebind name value hops c.scopes with
  | some (inner :: outer) => some ⟨inner, outer⟩
  | _ => none

theorem get?_eq_at? (c : Chain) (name : String) :
    c.get? name = (c.hops? name).bind (c.at? · name) := by
  simp only [get?, hops?, at?]
  induction c.scopes with
  | nil => rfl
  | cons s rest ih =>
    rw [List.findSome?_cons, List.findIdx?_cons, ih]
    cases held : s.get? name with
    | some value => simp [Scope.holds, held]
    | none => cases List.findIdx? (·.holds name) rest <;> simp [Scope.holds, held]

theorem assignIn_eq_rebind (name : String) (value : Value) (scopes : List Scope) :
    assignIn name value scopes =
      (scopes.findIdx? (·.holds name)).bind (rebind name value · scopes) := by
  induction scopes with
  | nil => rfl
  | cons s rest ih =>
    rw [assignIn, List.findIdx?_cons, ih]
    by_cases held : s.holds name
    · simp [held, rebind]
    · cases List.findIdx? (·.holds name) rest <;> simp [held, rebind]

theorem assign?_scopes (c : Chain) (name : String) (value : Value) :
    (c.assign? name value).map scopes = assignIn name value c.scopes := by
  unfold assign?
  by_cases held : c.inner.holds name
  · simp [held, scopes, assignIn, declare]
  · simp [held, scopes, assignIn, Function.comp_def]

theorem assignAt?_scopes (c : Chain) (hops : Nat) (name : String) (value : Value) :
    (c.assignAt? hops name value).map scopes = rebind name value hops c.scopes := by
  obtain ⟨inner, outer⟩ := c
  unfold assignAt? scopes
  cases hops with
  | zero => by_cases held : inner.holds name <;> simp [rebind, held]
  | succ hops => cases bound : rebind name value hops outer <;> simp [rebind, bound]

theorem scopes_injective : Function.Injective scopes := by
  rintro ⟨inner, outer⟩ ⟨inner', outer'⟩ same
  obtain ⟨rfl, rfl⟩ := List.cons.inj same
  rfl

theorem assign?_eq_assignAt? (c : Chain) (name : String) (value : Value) :
    c.assign? name value = (c.hops? name).bind (c.assignAt? · name value) := by
  refine Option.map_injective scopes_injective ?_
  rw [assign?_scopes, assignIn_eq_rebind, hops?]
  cases c.scopes.findIdx? (·.holds name) with
  | none => rfl
  | some hops => exact (assignAt?_scopes c hops name value).symm

theorem at?_of_hops? {hops : Nat} (c : Chain) {name : String} (counted : c.hops? name = some hops) :
    ∃ value, c.at? hops name = some value := by
  obtain ⟨inside, held, _⟩ := List.findIdx?_eq_some_iff_getElem.mp counted
  obtain ⟨value, found⟩ := Option.isSome_iff_exists.mp held
  exact ⟨value, by simp [at?, List.getElem?_eq_getElem inside, found]⟩

theorem rebind_of_findIdx? {name : String} (value : Value) {hops : Nat} {scopes : List Scope}
    (counted : scopes.findIdx? (·.holds name) = some hops) :
    ∃ scopes', rebind name value hops scopes = some scopes' := by
  induction scopes generalizing hops with
  | nil => cases counted
  | cons s rest ih =>
    rw [List.findIdx?_cons] at counted
    split at counted
    · rename_i held
      obtain rfl := Option.some.inj counted
      exact ⟨s.declare name value :: rest, by simp only [rebind, held, ↓reduceIte]⟩
    · obtain ⟨hops', deeper, rfl⟩ := Option.map_eq_some_iff.mp counted
      obtain ⟨scopes', bound⟩ := ih deeper
      exact ⟨s :: scopes', by simp only [rebind, bound, Option.map_some]⟩

theorem assignAt?_of_hops? {hops : Nat} (c : Chain) {name : String} (value : Value)
    (counted : c.hops? name = some hops) : ∃ c', c.assignAt? hops name value = some c' := by
  obtain ⟨scopes', bound⟩ := rebind_of_findIdx? value counted
  rw [← assignAt?_scopes] at bound
  obtain ⟨c', found, _⟩ := Option.map_eq_some_iff.mp bound
  exact ⟨c', found⟩

end Chain

def Scope.Knows (declared : List String) (s : Scope) : Prop :=
  ∀ name, s.holds name = decide (name ∈ declared)

theorem Scope.Knows.declare {declared : List String} {s : Scope} (h : s.Knows declared)
    (name : String) (value : Value) : (s.declare name value).Knows (name :: declared) := by
  intro other
  rw [holds_declare, h other]
  simp [List.mem_cons]

theorem Scope.Knows.rebind {declared : List String} {s : Scope} (h : s.Knows declared)
    {name : String} (held : s.holds name = true) (value : Value) :
    (s.declare name value).Knows declared := by
  intro other
  rw [holds_declare, ← h other]
  by_cases same : other = name
  · simp [same, held]
  · simp [same]

namespace Chain

variable {c c' : Chain} {names : Names} {name : String}

def Matches (names : Names) (c : Chain) : Prop :=
  List.Forall₂ (fun ns s => s.Knows ns) names c.scopes

theorem Matches.hops_eq (h : Matches names c) (name : String) :
    names.hops? name = c.hops? name := by
  unfold Matches at h
  unfold Names.hops? hops?
  generalize c.scopes = scopes at h
  induction h with
  | nil => rfl
  | cons same _ ih => rw [List.findIdx?_cons, List.findIdx?_cons, same name, ih]

theorem matches_global : Matches [[]] global := .cons (fun _ => rfl) .nil

theorem Matches.enter (h : Matches names c) : Matches ([] :: names) c.enter :=
  .cons (fun _ => rfl) h

theorem Matches.declare (h : Matches names c) (name : String) (value : Value) :
    Matches (names.declare name) (c.declare name value) := by
  cases h with
  | cons same more => exact .cons (same.declare name value) more

theorem knows_assignIn {value : Value} {scopes scopes' : List Scope}
    (h : List.Forall₂ (fun ns (s : Scope) => s.Knows ns) names scopes)
    (run : assignIn name value scopes = some scopes') :
    List.Forall₂ (fun ns (s : Scope) => s.Knows ns) names scopes' := by
  induction h generalizing scopes' with
  | nil => cases run
  | cons same more ih =>
    rw [assignIn] at run
    split at run
    · rename_i held
      obtain rfl := Option.some.inj run
      exact .cons (same.rebind held value) more
    · obtain ⟨rest', deeper, rfl⟩ := Option.map_eq_some_iff.mp run
      exact .cons same (ih deeper)

theorem Matches.assign {value : Value} (h : Matches names c)
    (run : c.assign? name value = some c') : Matches names c' := by
  have bound : assignIn name value c.scopes = some c'.scopes := by
    rw [← assign?_scopes, run]
    rfl
  exact knows_assignIn h bound

theorem Matches.leave {top : List String} (h : Matches (top :: names) c) (inside : names ≠ []) :
    Matches names c.leave := by
  obtain ⟨inner, outer⟩ := c
  cases h with
  | cons same more =>
    cases more with
    | nil => contradiction
    | cons same' more' => exact .cons same' more'

end Chain

end Blockscript

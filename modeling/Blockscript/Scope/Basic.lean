import Blockscript.Value

/-!
One scope: names with their values, in the order of their first declaration.
Only `get?` sees the bindings; two scopes agree if it cannot tell them apart.
-/
namespace Blockscript

structure Scope where
  bindings : List (String × Value)
  deriving Repr

namespace Scope

def empty : Scope := ⟨[]⟩

def names (s : Scope) : List String := s.bindings.map (·.1)

def get? (s : Scope) (name : String) : Option Value := s.bindings.lookup name

def holds (s : Scope) (name : String) : Bool := (s.get? name).isSome

def bind (name : String) (value : Value) : List (String × Value) → List (String × Value)
  | [] => [(name, value)]
  | (other, old) :: rest =>
    if name = other then (name, value) :: rest else (other, old) :: bind name value rest

def declare (s : Scope) (name : String) (value : Value) : Scope := ⟨bind name value s.bindings⟩

/-- Same names with equal values; a NaN makes scopes differ. -/
def agrees (s t : Scope) : Bool :=
  (s.names ++ t.names).all fun name =>
    match s.get? name, t.get? name with
    | some v, some w => v.ieeeEq w
    | _, _ => false

theorem lookup_bind (name : String) (value : Value) (bindings : List (String × Value))
    (other : String) :
    (bind name value bindings).lookup other =
      if other = name then some value else bindings.lookup other := by
  induction bindings with
  | nil =>
    by_cases h : other = name
    · simp [bind, h]
    · simp [bind, List.lookup_cons, beq_false_of_ne h, h]
  | cons first rest ih =>
    obtain ⟨held, old⟩ := first
    by_cases same : name = held
    · subst same
      by_cases h : other = name
      · simp [bind, h]
      · simp [bind, List.lookup_cons, beq_false_of_ne h, h]
    · by_cases h : other = held
      · subst h
        have apart : ¬ other = name := fun e => same e.symm
        simp [bind, same, apart]
      · simp [bind, List.lookup_cons, beq_false_of_ne h, same, ih]

theorem get?_declare (s : Scope) (name : String) (value : Value) (other : String) :
    (s.declare name value).get? other = if other = name then some value else s.get? other :=
  lookup_bind name value s.bindings other

theorem holds_declare (s : Scope) (name : String) (value : Value) (other : String) :
    (s.declare name value).holds other = (decide (other = name) || s.holds other) := by
  by_cases h : other = name <;> simp [holds, get?_declare, h]

end Scope

end Blockscript

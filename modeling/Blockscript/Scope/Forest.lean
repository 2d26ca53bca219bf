import Blockscript.Scope.Basic

/-!
Scopes that share the scopes around them. Each scope has a number and at most one
enclosing scope, which is older than it; a copy has its own bindings and the
enclosing scope of what it was copied from. Scope 0 is global.
-/
namespace Blockscript

structure Node where
  scope : Scope
  enclosing : Option Nat
  deriving Repr

structure Forest where
  nodes : Array Node
  deriving Repr

namespace Forest

def global : Forest := ⟨#[⟨.empty, none⟩]⟩

def fresh (f : Forest) : Nat := f.nodes.size

def root (f : Forest) : Forest := ⟨f.nodes.push ⟨.empty, none⟩⟩

def child (f : Forest) (parent : Nat) : Forest := ⟨f.nodes.push ⟨.empty, some parent⟩⟩

def enclosing? (f : Forest) (i : Nat) : Option Nat := f.nodes[i]?.bind (·.enclosing)

def scope (f : Forest) (i : Nat) : Scope := (f.nodes[i]?.map (·.scope)).getD .empty

def copy (f : Forest) (i : Nat) : Forest := ⟨f.nodes.push ⟨f.scope i, f.enclosing? i⟩⟩

/-- The scopes seen from scope `i`, itself first. Enclosing scopes are older, so no
    number comes twice and the number of scopes bounds the steps. -/
def pathWithin (f : Forest) : Nat → Nat → List Nat
  | 0, _ => []
  | fuel + 1, i => i :: (f.enclosing? i).elim [] (pathWithin f fuel)

def path (f : Forest) (i : Nat) : List Nat := pathWithin f f.nodes.size i

def holder? (f : Forest) (i : Nat) (name : String) : Option Nat :=
  (f.path i).find? fun j => (f.scope j).holds name

def get? (f : Forest) (i : Nat) (name : String) : Option Value :=
  (f.holder? i name).bind fun j => (f.scope j).get? name

def declare (f : Forest) (i : Nat) (name : String) (value : Value) : Forest :=
  ⟨f.nodes.modify i fun node => { node with scope := node.scope.declare name value }⟩

def assign? (f : Forest) (i : Nat) (name : String) (value : Value) : Option Forest :=
  (f.holder? i name).map fun j => f.declare j name value

def agrees (f : Forest) (i j : Nat) : Bool :=
  let left := (f.path i).map f.scope
  let right := (f.path j).map f.scope
  left.length == right.length && (left.zip right).all fun (s, t) => s.agrees t

theorem fresh_child (f : Forest) (parent : Nat) : (f.child parent).fresh = f.fresh + 1 := by
  simp [fresh, child]

theorem enclosing?_declare (f : Forest) (i : Nat) (name : String) (value : Value) (j : Nat) :
    (f.declare i name value).enclosing? j = f.enclosing? j := by
  simp only [enclosing?, declare, Array.getElem?_modify]
  split <;> cases f.nodes[j]? <;> rfl

end Forest

end Blockscript

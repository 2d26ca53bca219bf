import Blockscript.Scope.Basic

/-!
The scopes that can be seen from one place of a program, the innermost first and
the global one last. A name means its nearest binding.
-/
namespace Blockscript

structure Chain where
  inner : Scope
  outer : List Scope
  deriving Repr

namespace Chain

def global : Chain := ⟨.empty, []⟩

def scopes (c : Chain) : List Scope := c.inner :: c.outer

def get? (c : Chain) (name : String) : Option Value := c.scopes.findSome? (·.get? name)

def declare (c : Chain) (name : String) (value : Value) : Chain :=
  { c with inner := c.inner.declare name value }

def assignIn (name : String) (value : Value) : List Scope → Option (List Scope)
  | [] => none
  | s :: rest =>
    if s.holds name then some (s.declare name value :: rest)
    else (assignIn name value rest).map (s :: ·)

def assign? (c : Chain) (name : String) (value : Value) : Option Chain :=
  if c.inner.holds name then some (c.declare name value)
  else (assignIn name value c.outer).map (⟨c.inner, ·⟩)

def enter (c : Chain) : Chain := ⟨.empty, c.scopes⟩

/-- The global scope is never left. -/
def leave (c : Chain) : Chain :=
  match c.outer with
  | [] => c
  | inner :: outer => ⟨inner, outer⟩

end Chain

end Blockscript

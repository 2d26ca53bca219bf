import Blockscript.Proofs.Running.Relined

/-!
Runs of statements. A run that ends does the same with more fuel, and the statements of two
programs run as one program.
-/
namespace Blockscript

variable {α β : Type}

namespace Execution

def Ended (r : EStateM.Result Stop Machine α) : Prop := ∀ m, r ≠ .error .outOfFuel m

/-- Where the first run ends, the second does the same. -/
def Extends (run run' : Execution α) : Prop := ∀ m, Ended (run m) → run' m = run m

variable {run run' : Execution α} {next next' : α → Execution β}

theorem extends_refl (run : Execution α) : Extends run run := fun _ _ => rfl

theorem Extends.bind (first : Extends run run') (second : ∀ v, Extends (next v) (next' v)) :
    Extends (run >>= next) (run' >>= next') := by
  intro m ended
  simp only [Bind.bind, EStateM.bind] at ended ⊢
  cases done : run m with
  | ok v m' =>
    have same : run' m = .ok v m' := by
      rw [← done]
      exact first m (by rw [done]; exact nofun)
    rw [done] at ended
    simp only [same]
    exact second v m' ended
  | error e m' =>
    have same : run' m = .error e m' := by
      rw [← done]
      refine first m ?_
      rw [done] at ended ⊢
      rintro m'' ⟨rfl, rfl⟩
      exact ended _ rfl
    simp only [same]

theorem inScope_extends {body body' : Execution Unit} (inner : Extends body body') :
    Extends (inScope body) (inScope body') := by
  intro m ended
  unfold inScope at ended ⊢
  have same : body' { m with scopes := m.scopes.enter } =
      body { m with scopes := m.scopes.enter } := by
    refine inner _ ?_
    intro m' stopped
    rw [stopped] at ended
    exact ended _ rfl
  rw [same]

theorem whileTrue_extends {condition : Execution Value} {body body' : Execution Unit}
    (inner : Extends body body') {fuel fuel' : Nat} (le : fuel ≤ fuel') :
    Extends (whileTrue condition body fuel) (whileTrue condition body' fuel') := by
  induction fuel generalizing fuel' with
  | zero =>
    intro m ended
    exact absurd rfl (ended m)
  | succ fuel ih =>
    cases fuel' with
    | zero => exact absurd le (Nat.not_succ_le_zero fuel)
    | succ fuel' =>
      refine (extends_refl condition).bind fun v => ?_
      split
      · exact inner.bind fun _ => ih (Nat.le_of_succ_le_succ le)
      · exact extends_refl _

end Execution

open Execution

mutual

theorem Stmt.execute_extends {fuel fuel' : Nat} (le : fuel ≤ fuel') :
    ∀ s : Stmt, Extends (s.execute fuel) (s.execute fuel')
  | .expression _ => extends_refl _
  | .print _ => extends_refl _
  | .declare _ none => extends_refl _
  | .declare _ (some _) => extends_refl _
  | .block body => inScope_extends (Stmt.executeAll_extends le body)
  | .branch _ accepted none => by
    refine (extends_refl _).bind fun v => ?_
    split
    · exact accepted.execute_extends le
    · exact extends_refl _
  | .branch _ accepted (some rejected) => by
    refine (extends_refl _).bind fun v => ?_
    split
    · exact accepted.execute_extends le
    · exact rejected.execute_extends le
  | .loop _ body => whileTrue_extends (body.execute_extends le) le

theorem Stmt.executeAll_extends {fuel fuel' : Nat} (le : fuel ≤ fuel') :
    ∀ body : List Stmt, Extends (Stmt.executeAll fuel body) (Stmt.executeAll fuel' body)
  | [] => extends_refl _
  | s :: rest => (s.execute_extends le).bind fun _ => Stmt.executeAll_extends le rest

end

end Blockscript

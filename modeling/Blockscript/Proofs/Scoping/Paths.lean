import Blockscript.Proofs.Scoping.Hops
import Blockscript.Scope.Forest

/-!
Paths through shared scopes. Where every enclosing scope is older, a path comes to no scope
twice, and only a scope on it can be told from it: what is bound elsewhere, or which scopes
were made since, is not seen.
-/
namespace Blockscript

namespace Forest

variable {f g : Forest} {i j : Nat}

/-- Every enclosing scope is older. -/
def Sound (f : Forest) : Prop := ∀ i j, f.enclosing? i = some j → j < i

theorem enclosing?_eq_none (new : f.fresh ≤ i) : f.enclosing? i = none := by
  have absent : f.nodes[i]? = none := Array.getElem?_eq_none new
  rw [enclosing?, absent, Option.bind_none]

theorem enclosing?_global (i : Nat) : global.enclosing? i = none := by
  cases i with
  | zero => rfl
  | succ i => exact enclosing?_eq_none (Nat.succ_le_succ (Nat.zero_le i))

theorem sound_global : global.Sound := by
  intro i j found
  rw [enclosing?_global] at found
  cases found

theorem child_enclosing? (f : Forest) (parent i : Nat) : (f.child parent).enclosing? i =
    if i = f.fresh then some parent else f.enclosing? i := by
  simp only [enclosing?, child, Array.getElem?_push, fresh]
  by_cases new : i = f.nodes.size
  · simp only [new, ↓reduceIte, Option.bind_some]
  · simp only [new, ↓reduceIte]

theorem child_scope (f : Forest) (parent i : Nat) : (f.child parent).scope i = f.scope i := by
  simp only [scope, child, Array.getElem?_push]
  split
  · rename_i new
    rw [new, Array.getElem?_eq_none (Nat.le_refl _)]
    rfl
  · rfl

theorem fresh_declare (f : Forest) (i : Nat) (name : String) (value : Value) :
    (f.declare i name value).fresh = f.fresh := by
  simp [fresh, declare]

theorem scope_declare (inside : i < f.fresh) (name : String) (value : Value) (j : Nat) :
    (f.declare i name value).scope j =
      if j = i then (f.scope i).declare name value else f.scope j := by
  simp only [scope, declare, Array.getElem?_modify]
  by_cases same : j = i
  · subst same
    have held : j < f.nodes.size := inside
    simp [held]
  · simp [same, Ne.symm same]

theorem sound_child {parent : Nat} (sound : f.Sound) (inside : parent < f.fresh) :
    (f.child parent).Sound := by
  intro i j found
  rw [child_enclosing?] at found
  split at found
  · cases found
    omega
  · exact sound i j found

theorem sound_declare (sound : f.Sound) (i : Nat) (name : String) (value : Value) :
    (f.declare i name value).Sound := by
  intro j k found
  rw [enclosing?_declare] at found
  exact sound j k found

theorem pathWithin_eq (sound : f.Sound) {n n' : Nat} (enough : i < n) (enough' : i < n')
    (same : ∀ j ≤ i, g.enclosing? j = f.enclosing? j) : g.pathWithin n' i = f.pathWithin n i := by
  induction n generalizing i n' with
  | zero => omega
  | succ n ih =>
    cases n' with
    | zero => omega
    | succ n' =>
      simp only [pathWithin, same i (Nat.le_refl i)]
      cases found : f.enclosing? i with
      | none => rfl
      | some j =>
        have older := sound i j found
        have deeper := @ih j n' (by omega) (by omega) (fun k below => same k (by omega))
        simp only [Option.elim_some, deeper]

theorem path_eq (sound : f.Sound) (inside : i < f.fresh) :
    f.path i = i :: (f.enclosing? i).elim [] f.path := by
  unfold path
  cases size : f.nodes.size with
  | zero =>
    unfold fresh at inside
    omega
  | succ n =>
    rw [pathWithin]
    cases found : f.enclosing? i with
    | none => rfl
    | some j =>
      have older := sound i j found
      have bound : i < n + 1 := by
        rw [← size]
        exact inside
      exact congrArg (List.cons i) (pathWithin_eq sound (by omega) (by omega) fun _ _ => rfl)

theorem path_congr (sound : f.Sound) (inside : i < f.fresh) (more : f.fresh ≤ g.fresh)
    (same : ∀ j < f.fresh, g.enclosing? j = f.enclosing? j) : g.path i = f.path i := by
  refine pathWithin_eq sound inside (Nat.lt_of_lt_of_le inside more) ?_
  intro j below
  exact same j (Nat.lt_of_le_of_lt below inside)

theorem pathWithin_le (sound : f.Sound) {n : Nat} : ∀ j ∈ f.pathWithin n i, j ≤ i := by
  induction n generalizing i with
  | zero => simp [pathWithin]
  | succ n ih =>
    intro j member
    rw [pathWithin, List.mem_cons] at member
    rcases member with rfl | outer
    · exact Nat.le_refl j
    · cases found : f.enclosing? i with
      | none => simp [found] at outer
      | some k =>
        have older := sound i k found
        rw [found, Option.elim_some] at outer
        have below := ih j outer
        omega

theorem path_nodup (sound : f.Sound) (i : Nat) : (f.path i).Nodup := by
  unfold path
  generalize f.nodes.size = n
  induction n generalizing i with
  | zero => simp [pathWithin]
  | succ n ih =>
    rw [pathWithin, List.nodup_cons]
    cases found : f.enclosing? i with
    | none => simp
    | some j =>
      have older := sound i j found
      refine ⟨?_, ih j⟩
      intro member
      have below := pathWithin_le sound i member
      omega

theorem path_lt (sound : f.Sound) (inside : i < f.fresh) : ∀ j ∈ f.path i, j < f.fresh := by
  intro j member
  have below := pathWithin_le sound j member
  omega

theorem path_child_fresh {parent : Nat} (sound : f.Sound) (inside : parent < f.fresh) :
    (f.child parent).path f.fresh = f.fresh :: f.path parent := by
  have sound' := sound_child sound inside
  have inside' : f.fresh < (f.child parent).fresh := by
    rw [fresh_child]
    omega
  rw [path_eq sound' inside', child_enclosing?, if_pos rfl, Option.elim_some]
  rw [path_congr sound inside (by omega)]
  intro j below
  rw [child_enclosing?, if_neg (by omega)]

theorem path_declare (sound : f.Sound) (name : String) (value : Value) (inside : j < f.fresh) :
    (f.declare i name value).path j = f.path j := by
  refine path_congr sound inside (Nat.le_of_eq (fresh_declare f i name value).symm) ?_
  intro k _
  exact enclosing?_declare f i name value k

def chain (f : Forest) (i : Nat) : Chain := ⟨f.scope i, (f.path i).tail.map f.scope⟩

theorem chain_scopes (sound : f.Sound) (inside : i < f.fresh) :
    (f.chain i).scopes = (f.path i).map f.scope := by
  rw [chain, Chain.scopes, path_eq sound inside]
  rfl

theorem get?_chain (sound : f.Sound) (inside : i < f.fresh) (name : String) :
    (f.chain i).get? name = f.get? i name := by
  rw [Chain.get?, chain_scopes sound inside, get?, holder?]
  induction f.path i with
  | nil => rfl
  | cons j rest ih =>
    rw [List.map_cons, List.findSome?_cons, List.find?_cons]
    cases found : (f.scope j).get? name with
    | none => simpa [Scope.holds, found] using ih
    | some value => simp [Scope.holds, found]

theorem map_declare {path : List Nat} (inside : i < f.fresh) (apart : i ∉ path) (name : String)
    (value : Value) : path.map (f.declare i name value).scope = path.map f.scope := by
  refine List.map_congr_left ?_
  intro j member
  have other : j ≠ i := ne_of_mem_of_not_mem member apart
  rw [scope_declare inside, if_neg other]

theorem assignIn_map {path : List Nat} (known : ∀ j ∈ path, j < f.fresh) (apart : path.Nodup)
    (name : String) (value : Value) : Chain.assignIn name value (path.map f.scope) =
      (path.find? fun j => (f.scope j).holds name).map fun j =>
        path.map (f.declare j name value).scope := by
  induction path with
  | nil => rfl
  | cons j rest ih =>
    rw [List.nodup_cons] at apart
    have inside := known j List.mem_cons_self
    have deeper := ih (fun k member => known k (List.mem_cons_of_mem j member)) apart.2
    rw [List.map_cons, Chain.assignIn, List.find?_cons]
    by_cases held : (f.scope j).holds name
    · simp only [held, ↓reduceIte, Option.map_some, List.map_cons, map_declare inside apart.1,
        scope_declare inside]
    · simp only [held, Bool.false_eq_true, ↓reduceIte, deeper]
      cases found : rest.find? fun k => (f.scope k).holds name with
      | none => rfl
      | some k =>
        have member := List.mem_of_find?_eq_some found
        have other : j ≠ k := (ne_of_mem_of_not_mem member apart.1).symm
        have inside' := known k (List.mem_cons_of_mem j member)
        simp only [Option.map_some, List.map_cons, scope_declare inside', if_neg other]

theorem assign?_chain (sound : f.Sound) (inside : i < f.fresh) (name : String) (value : Value) :
    (f.chain i).assign? name value = (f.assign? i name value).map (·.chain i) := by
  refine Option.map_injective Chain.scopes_injective ?_
  rw [Chain.assign?_scopes, chain_scopes sound inside,
    assignIn_map (path_lt sound inside) (path_nodup sound i), assign?, holder?, Option.map_map,
    Option.map_map]
  refine Option.map_congr ?_
  intro j _
  have inside' : i < (f.declare j name value).fresh := by
    rw [fresh_declare]
    exact inside
  simp only [Function.comp_apply, chain_scopes (sound_declare sound j name value) inside',
    path_declare sound name value inside]

theorem declare_chain (sound : f.Sound) (inside : i < f.fresh) (name : String) (value : Value) :
    (f.declare i name value).chain i = (f.chain i).declare name value := by
  have nodup := path_nodup sound i
  rw [path_eq sound inside, List.nodup_cons] at nodup
  rw [chain, path_declare sound name value inside, scope_declare inside, if_pos rfl,
    path_eq sound inside, List.tail_cons, map_declare inside nodup.1, Chain.declare, chain,
    path_eq sound inside, List.tail_cons]

theorem chain_child_fresh (sound : f.Sound) (inside : i < f.fresh) :
    (f.child i).chain f.fresh = (f.chain i).enter := by
  have same : (f.child i).scope = f.scope := funext (child_scope f i)
  have empty : f.scope f.fresh = .empty := by
    rw [scope, fresh, Array.getElem?_eq_none (Nat.le_refl _)]
    rfl
  rw [chain, path_child_fresh sound inside, List.tail_cons, same, empty, Chain.enter,
    chain_scopes sound inside]

theorem chain_leave (sound : f.Sound) (inside : i < f.fresh) (known : f.enclosing? i = some j) :
    (f.chain i).leave = f.chain j := by
  have older := sound i j known
  have inside' : j < f.fresh := by omega
  rw [chain, path_eq sound inside, known, Option.elim_some, List.tail_cons,
    path_eq sound inside', List.map_cons, Chain.leave, chain, path_eq sound inside', List.tail_cons]

end Forest

end Blockscript

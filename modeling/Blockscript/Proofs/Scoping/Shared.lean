import Blockscript.Error
import Blockscript.Proofs.Scoping.Paths
import Mathlib.Logic.Relation

/-!
Scopes that several scopes share. Whatever was made, copied, declared and assigned, the links
between scopes lead outwards and end, a name means its nearest binding, and an assignment changes
that one binding, for every scope that finds it there and for no other.
-/
namespace Blockscript

namespace Forest

inductive Request where
  | root
  | child (parent : Nat)
  | copy (i : Nat)
  | declare (i : Nat) (name : String) (value : Value)
  | assign (i : Nat) (name : Token) (value : Value)
  | get (i : Nat) (name : Token)

inductive Answer where
  | made (i : Nat)
  | done
  | value (v : Value)
  | failed (e : Error)

namespace Request

def scope? : Request → Option Nat
  | .root => none
  | .child i | .copy i | .declare i _ _ | .assign i _ _ | .get i _ => some i

def Known (f : Forest) (r : Request) : Prop := ∀ i ∈ r.scope?, i < f.fresh

end Request

def answer (f : Forest) : Request → Answer × Forest
  | .root => (.made f.fresh, f.root)
  | .child parent => (.made f.fresh, f.child parent)
  | .copy i => (.made f.fresh, f.copy i)
  | .declare i name value => (.done, f.declare i name value)
  | .assign i name value =>
    match f.assign? i name.lexeme value with
    | some g => (.done, g)
    | none => (.failed (.undefined name), f)
  | .get i name =>
    match f.get? i name.lexeme with
    | some v => (.value v, f)
    | none => (.failed (.undefined name), f)

inductive Later (f : Forest) : Forest → Prop where
  | here : Later f f
  | request {g : Forest} (before : Later f g) {r : Request} (known : r.Known g) :
      Later f (g.answer r).2

def Reached (f : Forest) : Prop := Later ⟨#[]⟩ f

def Inside (f : Forest) (i j : Nat) : Prop := f.enclosing? i = some j

inductive Nearest (f : Forest) (name : String) : Nat → Nat → Prop where
  | here {i : Nat} (held : (f.scope i).holds name = true) : Nearest f name i i
  | outer {i j k : Nat} (free : (f.scope i).holds name = false) (inside : f.Inside i j)
      (found : Nearest f name j k) : Nearest f name i k

/-- The path from a scope goes by the links to a scope that nothing encloses, and comes to no
    scope twice. -/
structure Chained (f : Forest) (i : Nat) : Prop where
  first : (f.path i).head? = some i
  links : (f.path i).IsChain f.Inside
  last : ∀ j ∈ (f.path i).getLast?, f.enclosing? j = none
  once : (f.path i).Nodup

structure Gets (f : Forest) (i : Nat) (name : Token) : Prop where
  found : ∀ j, f.Nearest name.lexeme i j →
    ∃ v, (f.scope j).get? name.lexeme = some v ∧ f.answer (.get i name) = (.value v, f)
  missing : (∀ j, ¬ f.Nearest name.lexeme i j) →
    f.answer (.get i name) = (.failed (.undefined name), f)

/-- One scope has one more binding, or another value in one; all else is as it was. -/
structure Binds (f : Forest) (i : Nat) (name : String) (v : Value) (g : Forest) : Prop where
  fresh : g.fresh = f.fresh
  enclosing : ∀ j, g.enclosing? j = f.enclosing? j
  values : ∀ j other, (g.scope j).get? other =
    if j = i ∧ other = name then some v else (f.scope j).get? other

/-- The value is seen from where the name is found in this scope, and from nowhere else. -/
structure Rebinds (f : Forest) (i : Nat) (name : String) (v : Value) (g : Forest) : Prop
    extends Binds f i name v g where
  seen : ∀ t < f.fresh, ∀ other : Token, other.lexeme = name → f.Nearest name t i →
    (g.answer (.get t other)).1 = .value v
  unseen : ∀ t < f.fresh, ∀ other : Token, ¬ (other.lexeme = name ∧ f.Nearest name t i) →
    (g.answer (.get t other)).1 = (f.answer (.get t other)).1

structure Assigns (f : Forest) (i : Nat) (name : Token) (v : Value) : Prop where
  found : ∀ j, f.Nearest name.lexeme i j →
    ∃ g, f.answer (.assign i name v) = (.done, g) ∧ f.Rebinds j name.lexeme v g
  missing : (∀ j, ¬ f.Nearest name.lexeme i j) →
    f.answer (.assign i name v) = (.failed (.undefined name), f)

/-- A copy answers as the scope it was copied from. Ever after, what neither holds they find in the
    same scope, and neither finds anything in the other. -/
structure Copies (f : Forest) (i : Nat) : Prop where
  made : f.answer (.copy i) = (.made f.fresh, f.copy i)
  inside : (f.copy i).enclosing? f.fresh = f.enclosing? i
  same : ∀ name, ((f.copy i).answer (.get f.fresh name)).1 = (f.answer (.get i name)).1
  others : ∀ t < f.fresh, ∀ name,
    ((f.copy i).answer (.get t name)).1 = (f.answer (.get t name)).1
  shared : ∀ g, Later (f.copy i) g → ∀ name, (g.scope i).holds name = false →
    (g.scope f.fresh).holds name = false →
    ∀ j, g.Nearest name f.fresh j ↔ g.Nearest name i j
  apart : ∀ g, Later (f.copy i) g → ∀ name,
    ¬ g.Nearest name i f.fresh ∧ ¬ g.Nearest name f.fresh i

variable {f g : Forest} {i j : Nat} {name : String}

theorem push_enclosing? (f : Forest) (node : Node) (i : Nat) :
    enclosing? ⟨f.nodes.push node⟩ i = if i = f.fresh then node.enclosing else f.enclosing? i := by
  simp only [enclosing?, Array.getElem?_push, fresh]
  by_cases new : i = f.nodes.size
  · simp only [new, ↓reduceIte, Option.bind_some]
  · simp only [new, ↓reduceIte]

theorem push_scope (f : Forest) (node : Node) (i : Nat) :
    scope ⟨f.nodes.push node⟩ i = if i = f.fresh then node.scope else f.scope i := by
  simp only [scope, Array.getElem?_push, fresh]
  by_cases new : i = f.nodes.size
  · simp only [new, ↓reduceIte, Option.map_some, Option.getD_some]
  · simp only [new, ↓reduceIte]

theorem push_fresh (f : Forest) (node : Node) : fresh ⟨f.nodes.push node⟩ = f.fresh + 1 := by
  simp [fresh]

theorem sound_push (sound : f.Sound) {node : Node} (older : ∀ j ∈ node.enclosing, j < f.fresh) :
    Sound ⟨f.nodes.push node⟩ := by
  intro i j found
  rw [push_enclosing?] at found
  split at found
  · rename_i new
    exact new ▸ older j found
  · exact sound i j found

theorem enclosing?_lt (sound : f.Sound) (inside : i < f.fresh) :
    ∀ j ∈ f.enclosing? i, j < f.fresh :=
  fun j around => Nat.lt_trans (sound i j around) inside

theorem holder?_lt (sound : f.Sound) (inside : i < f.fresh) (found : f.holder? i name = some j) :
    j < f.fresh :=
  path_lt sound inside j (List.mem_of_find?_eq_some found)

theorem answer_cases (sound : f.Sound) {r : Request} (known : r.Known f) :
    (f.answer r).2 = f ∨
    (∃ i < f.fresh, ∃ name v, (f.answer r).2 = f.declare i name v) ∨
    ∃ node : Node, (∀ j ∈ node.enclosing, j < f.fresh) ∧ (f.answer r).2 = ⟨f.nodes.push node⟩ := by
  cases r with
  | root => exact .inr (.inr ⟨⟨.empty, none⟩, by simp, rfl⟩)
  | child parent =>
    have inside : parent < f.fresh := known parent rfl
    exact .inr (.inr ⟨⟨.empty, some parent⟩, by simpa using inside, rfl⟩)
  | copy i =>
    have inside : i < f.fresh := known i rfl
    exact .inr (.inr ⟨⟨f.scope i, f.enclosing? i⟩, enclosing?_lt sound inside, rfl⟩)
  | declare i name v => exact .inr (.inl ⟨i, known i rfl, name, v, rfl⟩)
  | assign i name v =>
    rw [answer, assign?]
    cases found : f.holder? i name.lexeme with
    | none => exact .inl rfl
    | some j =>
      have inside := holder?_lt sound (known i rfl) found
      exact .inr (.inl ⟨j, inside, name.lexeme, v, rfl⟩)
  | get i name =>
    rw [answer]
    cases f.get? i name.lexeme <;> exact .inl rfl

theorem answer_keeps (sound : f.Sound) {r : Request} (known : r.Known f) :
    (f.answer r).2.Sound ∧ f.fresh ≤ (f.answer r).2.fresh ∧
      ∀ i < f.fresh, (f.answer r).2.enclosing? i = f.enclosing? i := by
  rcases answer_cases sound known with same | ⟨i, -, name, v, bound⟩ | ⟨node, older, made⟩
  · rw [same]
    exact ⟨sound, Nat.le_refl _, fun _ _ => rfl⟩
  · rw [bound, fresh_declare]
    refine ⟨sound_declare sound i name v, Nat.le_refl _, ?_⟩
    intro j _
    exact enclosing?_declare f i name v j
  · rw [made, push_fresh]
    refine ⟨sound_push sound older, Nat.le_succ _, ?_⟩
    intro j inside
    rw [push_enclosing?, if_neg (Nat.ne_of_lt inside)]

theorem Later.keeps (h : Later f g) (sound : f.Sound) :
    g.Sound ∧ f.fresh ≤ g.fresh ∧ ∀ i < f.fresh, g.enclosing? i = f.enclosing? i := by
  induction h with
  | here => exact ⟨sound, Nat.le_refl _, fun _ _ => rfl⟩
  | request before known ih =>
    obtain ⟨sound, more, links⟩ := ih
    obtain ⟨sound', more', links'⟩ := answer_keeps sound known
    refine ⟨sound', Nat.le_trans more more', ?_⟩
    intro i inside
    rw [links' i (Nat.lt_of_lt_of_le inside more), links i inside]

theorem Reached.sound (h : Reached f) : f.Sound := by
  refine (Later.keeps h ?_).1
  intro i j found
  have none : enclosing? ⟨#[]⟩ i = none := enclosing?_eq_none (Nat.zero_le i)
  rw [none] at found
  cases found

theorem acyclic (sound : f.Sound) (i : Nat) : ¬ Relation.TransGen f.Inside i i := by
  have outwards : ∀ {i j}, Relation.TransGen f.Inside i j → j < i := by
    intro i j way
    induction way with
    | single link => exact sound _ _ link
    | tail _ link ih => exact Nat.lt_trans (sound _ _ link) ih
  intro around
  exact Nat.lt_irrefl i (outwards around)

theorem path_isChain (sound : f.Sound) (inside : i < f.fresh) : (f.path i).IsChain f.Inside := by
  induction i using Nat.strongRecOn with
  | ind i ih =>
    rw [path_eq sound inside]
    cases found : f.enclosing? i with
    | none => exact .singleton i
    | some j =>
      have inside' := enclosing?_lt sound inside j found
      have deeper := ih j (sound i j found) inside'
      rw [Option.elim_some]
      rw [path_eq sound inside'] at deeper ⊢
      exact .cons_cons found deeper

theorem path_last (sound : f.Sound) (inside : i < f.fresh) :
    ∀ j ∈ (f.path i).getLast?, f.enclosing? j = none := by
  induction i using Nat.strongRecOn with
  | ind i ih =>
    rw [path_eq sound inside]
    cases found : f.enclosing? i with
    | none =>
      rintro _ ⟨rfl⟩
      exact found
    | some j =>
      have inside' := enclosing?_lt sound inside j found
      have deeper := ih j (sound i j found) inside'
      rw [Option.elim_some]
      rw [path_eq sound inside'] at deeper ⊢
      rw [List.getLast?_cons_cons]
      exact deeper

theorem chained (sound : f.Sound) (inside : i < f.fresh) : f.Chained i where
  first := by
    rw [path_eq sound inside]
    rfl
  links := path_isChain sound inside
  last := path_last sound inside
  once := path_nodup sound i

theorem holder?_eq (sound : f.Sound) (inside : i < f.fresh) (name : String) :
    f.holder? i name =
      if (f.scope i).holds name then some i else (f.enclosing? i).bind (f.holder? · name) := by
  rw [holder?, path_eq sound inside, List.find?_cons]
  cases (f.scope i).holds name with
  | true => rfl
  | false => cases f.enclosing? i <;> rfl

theorem nearest_iff (sound : f.Sound) (inside : i < f.fresh) :
    f.Nearest name i j ↔ f.holder? i name = some j := by
  constructor
  · intro found
    induction found with
    | here held => rw [holder?_eq sound inside, held, if_pos rfl]
    | outer free link _ ih =>
      have inside' := enclosing?_lt sound inside _ link
      rw [holder?_eq sound inside, free, if_neg Bool.false_ne_true, link, Option.bind_some,
        ih inside']
  · induction i using Nat.strongRecOn with
    | ind i ih =>
      rw [holder?_eq sound inside]
      split
      · rename_i held
        rintro ⟨rfl⟩
        exact .here held
      · rename_i free
        intro found
        obtain ⟨k, link, found⟩ := Option.bind_eq_some_iff.mp found
        exact .outer (Bool.eq_false_iff.mpr free) link
          (ih k (sound i k link) (enclosing?_lt sound inside k link) found)

theorem holder?_eq_none (sound : f.Sound) (inside : i < f.fresh)
    (missing : ∀ j, ¬ f.Nearest name i j) : f.holder? i name = none := by
  cases found : f.holder? i name with
  | none => rfl
  | some j => exact absurd ((nearest_iff sound inside).mpr found) (missing j)

theorem Nearest.holds (h : f.Nearest name i j) : (f.scope j).holds name = true := by
  induction h with
  | here held => exact held
  | outer _ _ _ ih => exact ih

theorem Nearest.le (h : f.Nearest name i j) (sound : f.Sound) : j ≤ i := by
  induction h with
  | here => exact Nat.le_refl _
  | outer _ link _ ih => exact Nat.le_trans ih (Nat.le_of_lt (sound _ _ link))

theorem Nearest.congr (h : f.Nearest name i j) (links : ∀ k ≤ i, g.enclosing? k = f.enclosing? k)
    (names : ∀ k ≤ i, (g.scope k).holds name = (f.scope k).holds name) (sound : f.Sound) :
    g.Nearest name i j := by
  induction h with
  | @here i held => exact .here ((names i (Nat.le_refl i)).trans held)
  | @outer i _ _ free link _ ih =>
    have older := sound _ _ link
    refine .outer ((names i (Nat.le_refl i)).trans free) ((links i (Nat.le_refl i)).trans link)
      (ih ?_ ?_)
    · intro k below
      exact links k (by omega)
    · intro k below
      exact names k (by omega)

theorem gets (sound : f.Sound) (inside : i < f.fresh) (name : Token) : f.Gets i name where
  found := by
    intro j found
    obtain ⟨v, value⟩ := Option.isSome_iff_exists.mp found.holds
    refine ⟨v, value, ?_⟩
    rw [nearest_iff sound inside] at found
    rw [answer, get?, found, Option.bind_some, value]
  missing missing := by
    rw [answer, get?, holder?_eq_none sound inside missing, Option.bind_none]

theorem get_congr {t u : Nat} {name : Token} (sound : f.Sound) (sound' : g.Sound)
    (inside : t < f.fresh) (inside' : u < g.fresh)
    (found : ∀ j, f.Nearest name.lexeme t j → ∃ k, g.Nearest name.lexeme u k ∧
      (g.scope k).get? name.lexeme = (f.scope j).get? name.lexeme)
    (back : ∀ k, g.Nearest name.lexeme u k → ∃ j, f.Nearest name.lexeme t j) :
    (g.answer (.get u name)).1 = (f.answer (.get t name)).1 := by
  by_cases some : ∃ j, f.Nearest name.lexeme t j
  · obtain ⟨j, near⟩ := some
    obtain ⟨k, near', same⟩ := found j near
    obtain ⟨v, value, run⟩ := (gets sound inside name).found j near
    obtain ⟨v', value', run'⟩ := (gets sound' inside' name).found k near'
    rw [same, value] at value'
    rw [run, run', Option.some.inj value']
  · have none := not_exists.mp some
    have none' : ∀ k, ¬ g.Nearest name.lexeme u k := fun k near => some (back k near)
    rw [(gets sound inside name).missing none, (gets sound' inside' name).missing none']

theorem binds_declare (inside : i < f.fresh) (name : String) (v : Value) :
    f.Binds i name v (f.declare i name v) where
  fresh := fresh_declare f i name v
  enclosing := enclosing?_declare f i name v
  values := by
    intro j other
    rw [scope_declare inside]
    by_cases same : j = i
    · subst same
      simp [Scope.get?_declare]
    · simp [same]

theorem Binds.holds {v : Value} (h : f.Binds i name v g) (held : (f.scope i).holds name = true)
    (j : Nat) (other : String) : (g.scope j).holds other = (f.scope j).holds other := by
  rw [Scope.holds, h.values]
  split
  · rename_i same
    rw [same.1, same.2, held, Option.isSome_some]
  · rfl

theorem Binds.rebinds {v : Value} (h : f.Binds i name v g) (sound : f.Sound) (sound' : g.Sound)
    (held : (f.scope i).holds name = true) : f.Rebinds i name v g := by
  have near : ∀ {t j other}, f.Nearest other t j → g.Nearest other t j := fun found =>
    found.congr (fun k _ => h.enclosing k) (fun k _ => h.holds held k _) sound
  have near' : ∀ {t j other}, g.Nearest other t j → f.Nearest other t j := fun found =>
    found.congr (fun k _ => (h.enclosing k).symm) (fun k _ => (h.holds held k _).symm) sound'
  refine ⟨h, ?_, ?_⟩
  · rintro t inside other rfl found
    obtain ⟨w, value, run⟩ := (gets sound' (h.fresh ▸ inside) other).found i (near found)
    rw [h.values, if_pos ⟨rfl, rfl⟩] at value
    rw [run, Option.some.inj value]
  · intro t inside other elsewhere
    refine get_congr sound sound' inside (h.fresh ▸ inside) ?_ ?_
    · intro j found
      refine ⟨j, near found, ?_⟩
      rw [h.values, if_neg]
      rintro ⟨rfl, same⟩
      exact elsewhere ⟨same, same ▸ found⟩
    · intro k found
      exact ⟨k, near' found⟩

theorem assigns (sound : f.Sound) (inside : i < f.fresh) (name : Token) (v : Value) :
    f.Assigns i name v where
  found := by
    intro j near
    have found := (nearest_iff sound inside).mp near
    have inside' := holder?_lt sound inside found
    refine ⟨f.declare j name.lexeme v, ?_, ?_⟩
    · rw [answer, assign?, found, Option.map_some]
    · exact (binds_declare inside' name.lexeme v).rebinds sound (sound_declare sound j _ v) near.holds
  missing missing := by
    rw [answer, assign?, holder?_eq_none sound inside missing, Option.map_none]

theorem copy_enclosing? (f : Forest) (i j : Nat) :
    (f.copy i).enclosing? j = if j = f.fresh then f.enclosing? i else f.enclosing? j :=
  push_enclosing? f _ j

theorem copy_scope (f : Forest) (i j : Nat) :
    (f.copy i).scope j = if j = f.fresh then f.scope i else f.scope j :=
  push_scope f _ j

theorem sound_copy (sound : f.Sound) (inside : i < f.fresh) : (f.copy i).Sound :=
  sound_push sound (enclosing?_lt sound inside)

theorem copy_nearest (sound : f.Sound) (inside : i < f.fresh) {t : Nat} (old : t < f.fresh) :
    (f.copy i).Nearest name t j ↔ f.Nearest name t j := by
  have links : ∀ k ≤ t, (f.copy i).enclosing? k = f.enclosing? k := by
    intro k below
    rw [copy_enclosing?, if_neg (by omega)]
  have scopes : ∀ k ≤ t, (f.copy i).scope k = f.scope k := by
    intro k below
    rw [copy_scope, if_neg (by omega)]
  constructor
  · intro found
    exact found.congr (fun k below => (links k below).symm)
      (fun k below => by rw [scopes k below]) (sound_copy sound inside)
  · intro found
    exact found.congr links (fun k below => by rw [scopes k below]) sound

theorem shared_nearest {n : Nat} (links : g.enclosing? n = g.enclosing? i)
    (free : (g.scope i).holds name = false) (free' : (g.scope n).holds name = false) (j : Nat) :
    g.Nearest name n j ↔ g.Nearest name i j := by
  constructor
  · intro found
    cases found with
    | here held => rw [held] at free'; cases free'
    | outer _ link found => exact .outer free (links.symm.trans link) found
  · intro found
    cases found with
    | here held => rw [held] at free; cases free
    | outer _ link found => exact .outer free' (links.trans link) found

theorem copies (sound : f.Sound) (inside : i < f.fresh) : f.Copies i := by
  have sound' := sound_copy sound inside
  have size : (f.copy i).fresh = f.fresh + 1 := push_fresh f _
  have link : (f.copy i).enclosing? f.fresh = f.enclosing? i := by
    rw [copy_enclosing?, if_pos rfl]
  have old : (f.copy i).scope i = f.scope i := by
    rw [copy_scope, if_neg (Nat.ne_of_lt inside)]
  have new : (f.copy i).scope f.fresh = f.scope i := by
    rw [copy_scope, if_pos rfl]
  have link' : (f.copy i).enclosing? f.fresh = (f.copy i).enclosing? i := by
    rw [link, copy_enclosing?, if_neg (Nat.ne_of_lt inside)]
  have later : ∀ g, Later (f.copy i) g → g.Sound ∧ g.enclosing? f.fresh = g.enclosing? i := by
    intro g after
    obtain ⟨sound, -, links⟩ := after.keeps sound'
    refine ⟨sound, ?_⟩
    rw [links f.fresh (by omega), links i (by omega), link']
  have others : ∀ t < f.fresh, ∀ name,
      ((f.copy i).answer (.get t name)).1 = (f.answer (.get t name)).1 := by
    intro t before name
    refine get_congr sound sound' before (by omega) ?_ ?_
    · intro j found
      have below := found.le sound
      refine ⟨j, (copy_nearest sound inside before).mpr found, ?_⟩
      rw [copy_scope, if_neg (by omega)]
    · intro k found
      exact ⟨k, (copy_nearest sound inside before).mp found⟩
  refine ⟨rfl, link, ?_, others, ?_, ?_⟩
  · intro name
    rw [← others i inside name]
    refine get_congr sound' sound' (by omega) (by omega) ?_ ?_
    · intro j found
      cases held : (f.scope i).holds name.lexeme with
      | true =>
        have here : (f.copy i).Nearest name.lexeme i i := .here (old ▸ held)
        have same := (nearest_iff sound' (by omega)).mp found
        rw [(nearest_iff sound' (by omega)).mp here] at same
        obtain rfl := Option.some.inj same
        exact ⟨f.fresh, .here (new ▸ held), by rw [old, new]⟩
      | false =>
        have both := shared_nearest link' (old ▸ held) (new ▸ held) j
        exact ⟨j, both.mpr found, rfl⟩
    · intro k found
      cases held : (f.scope i).holds name.lexeme with
      | true => exact ⟨i, .here (old ▸ held)⟩
      | false => exact ⟨k, (shared_nearest link' (old ▸ held) (new ▸ held) k).mp found⟩
  · intro g after name free free' j
    exact shared_nearest (later g after).2 free free' j
  · intro g after name
    obtain ⟨sound, links⟩ := later g after
    constructor
    · intro found
      have below := found.le sound
      omega
    · intro found
      cases found with
      | here => exact Nat.lt_irrefl _ inside
      | outer _ link found =>
        have below := found.le sound
        have older := sound i _ (links.symm.trans link)
        omega

/-- However the scopes came about, links form no cycle and end; names are looked up and assigned to
    in the nearest scope that holds them; a declaration binds in one scope only; and a copy shares
    with its original the scopes around them, but nothing of its own. -/
theorem reached_shared (reached : Reached f) :
    (∀ i, ¬ Relation.TransGen f.Inside i i) ∧
    ∀ i < f.fresh, f.Chained i ∧ (∀ name, f.Gets i name) ∧ (∀ name v, f.Assigns i name v) ∧
      (∀ name v, f.Binds i name v (f.answer (.declare i name v)).2) ∧ f.Copies i := by
  have sound := reached.sound
  refine ⟨acyclic sound, ?_⟩
  intro i inside
  exact ⟨chained sound inside, gets sound inside, assigns sound inside, binds_declare inside,
    copies sound inside⟩

def twins : Forest :=
  [.root, .declare 0 "a" .nil, .child 0, .declare 1 "b" .nil, .copy 1].foldl
    (fun f r => (f.answer r).2) ⟨#[]⟩

/-- In a copy, `a` is assigned to in the scope that it shares, and `b` in the copy. -/
theorem reached_shared_twins : Reached twins ∧ twins.Copies 1 ∧
    twins.Assigns 2 ⟨.identifier, "a", 1⟩ (.bool true) ∧
    twins.Assigns 2 ⟨.identifier, "b", 1⟩ (.bool true) := by
  have reached : Reached twins := by
    refine .request (.request (.request (.request (.request .here ?_) ?_) ?_) ?_) ?_
    · rintro _ ⟨⟩
    all_goals
      rintro _ ⟨⟩
      decide
  have shared := (reached_shared reached).2
  have original : 1 < twins.fresh := by decide
  have copy : 2 < twins.fresh := by decide
  exact ⟨reached, (shared 1 original).2.2.2.2, (shared 2 copy).2.2.1 _ _, (shared 2 copy).2.2.1 _ _⟩

end Forest

end Blockscript

import Blockscript.Proofs.Running.Primitives

/-!
What a run keeps of the state it began with, beside the names it declares. Only a declaration
outside all scopes that are entered on the way counts; what is declared inside one is gone
with it.
-/
namespace Blockscript

mutual

def Stmt.openNames : Stmt → List String
  | .expression _ | .print _ | .block _ => []
  | .declare name _ => [name.lexeme]
  | .branch _ accepted none => accepted.openNames
  | .branch _ accepted (some rejected) => accepted.openNames ++ rejected.openNames
  | .loop _ body => body.openNames
termination_by structural s => s

def Stmt.allOpenNames : List Stmt → List String
  | [] => []
  | s :: rest => s.openNames ++ Stmt.allOpenNames rest
termination_by structural ss => ss

end

namespace Primitives

variable {σ ν α : Type}

def stateAfter : EStateM.Result Stop σ α → σ
  | .ok _ s => s
  | .error _ s => s

theorem Alike.stateAfter {τ : Type} {R : σ → τ → Prop} {result : EStateM.Result Stop σ α}
    {result' : EStateM.Result Stop τ α} (alike : Alike R result result') :
    R (Primitives.stateAfter result) (Primitives.stateAfter result') := by
  cases alike with
  | ok left => exact left
  | error left => exact left

def beside (run : EStateM Stop σ α) : EStateM Stop (σ × ν) α := fun s =>
  match run s.1 with
  | .ok v t => .ok v (t, s.2)
  | .error e t => .error e (t, s.2)

/-- The same run, which also notes the names it declares. Inside a scope the notes begin anew,
    and the notes from before are back when the scope is left. -/
def noting (p : Primitives σ) : Primitives (σ × List String) where
  lookup name := beside (p.lookup name)
  assign name v := beside (p.assign name v)
  declare name v s := (p.declare name v s.1, s.2 ++ [name.lexeme])
  write text := beside (p.write text)
  enter s := (p.enter s.1, [])
  leave s s' := (p.leave s.1 s'.1, s.2)

structure Frames (p : Primitives σ) (R : List String → σ → σ → Prop) : Prop where
  refl : ∀ s, R [] s s
  trans : ∀ {names more s t u}, R names s t → R more t u → R (names ++ more) s u
  lookup : ∀ name s, R [] s (stateAfter (p.lookup name s))
  assign : ∀ name v s, R [] s (stateAfter (p.assign name v s))
  declare : ∀ name v s, R [name.lexeme] s (p.declare name v s)
  write : ∀ text s, R [] s (stateAfter (p.write text s))
  scope : ∀ {names s t}, R names (p.enter s) t → R [] s (p.leave s t)

namespace Frames

variable {p : Primitives σ} {R : List String → σ → σ → Prop}

theorem extend (h : Frames p R) {names : List String} {s t u : σ} (before : R names s t)
    (step : R [] t u) : R names s u := by
  simpa only [List.append_nil] using h.trans before step

theorem mirrors_beside (h : Frames p R) {run : EStateM Stop σ α}
    (kept : ∀ s, R [] s (stateAfter (run s))) (origin : σ) :
    Mirrors (fun s (t : σ × List String) => s = t.1 ∧ R t.2 origin s) run (beside run) := by
  rintro s ⟨_, names⟩ ⟨rfl, before⟩
  have step := kept s
  unfold beside
  generalize run s = result at step ⊢
  cases result with
  | ok v t => exact .ok ⟨rfl, h.extend before step⟩
  | error e t => exact .error ⟨rfl, h.extend before step⟩

/-- The state that the present scope was entered in is what the notes are about. -/
theorem simulates (h : Frames p R) :
    Simulates p p.noting fun origin s (t : σ × List String) => s = t.1 ∧ R t.2 origin s where
  lookup origin name := h.mirrors_beside (h.lookup name) origin
  assign origin name v := h.mirrors_beside (h.assign name v) origin
  write origin text := h.mirrors_beside (h.write text) origin
  declare := by
    rintro origin name v s ⟨_, names⟩ ⟨rfl, before⟩
    exact ⟨rfl, h.trans before (h.declare name v s)⟩
  scope := by
    rintro origin s ⟨_, names⟩ ⟨rfl, before⟩
    refine ⟨p.enter s, ⟨rfl, h.refl _⟩, ?_⟩
    rintro s' ⟨_, inner⟩ ⟨rfl, inside⟩
    exact ⟨rfl, h.extend before (h.scope inside)⟩

end Frames

def Notes (names : List String) (run : EStateM Stop (σ × List String) α) : Prop :=
  ∀ s, ∀ name ∈ (stateAfter (run s)).2, name ∈ s.2 ∨ name ∈ names

section

variable {β : Type} {names more : List String} {run : EStateM Stop (σ × List String) α}
  {next : α → EStateM Stop (σ × List String) β}

theorem Notes.wider (h : Notes names run) (within_ : names ⊆ more) : Notes more run :=
  fun s name noted => (h s name noted).imp_right fun known => within_ known

theorem notes_pure (v : α) : Notes names (pure v : EStateM Stop (σ × List String) α) :=
  fun _ _ noted => .inl noted

theorem notes_throw (e : Stop) : Notes names (throw e : EStateM Stop (σ × List String) α) :=
  fun _ _ noted => .inl noted

theorem Notes.bind (first : Notes names run) (second : ∀ v, Notes names (next v)) :
    Notes names (run >>= next) := by
  intro s name noted
  have early := first s name
  simp only [Bind.bind, EStateM.bind] at noted
  generalize run s = result at early noted
  cases result with
  | ok v t =>
    rcases second v t name noted with before | known
    · exact early before
    · exact .inr known
  | error e t => exact early noted

theorem notes_beside (run : EStateM Stop σ α) :
    Notes names (beside run : EStateM Stop (σ × List String) α) := by
  intro s name noted
  unfold beside at noted
  generalize run s.1 = result at noted
  cases result <;> exact .inl noted

theorem notes_whileTrue {condition : EStateM Stop (σ × List String) Value}
    {body : EStateM Stop (σ × List String) Unit} (first : Notes names condition)
    (inner : Notes names body) (fuel : Nat) : Notes names (whileTrue condition body fuel) := by
  induction fuel with
  | zero => exact notes_throw .outOfFuel
  | succ fuel ih =>
    refine first.bind fun v => ?_
    split
    · exact inner.bind fun _ => ih
    · exact notes_pure ()

end

section

variable (p : Primitives σ) {names : List String}

theorem notes_ofExcept (result : Except Error Value) :
    Notes names (ofExcept result : EStateM Stop (σ × List String) Value) := by
  intro s name noted
  cases result <;> exact .inl noted

theorem notes_evaluate (e : Expr) : Notes names (p.noting.evaluate e) := by
  induction e with
  | literal value => exact notes_pure value
  | grouping inner ih => exact ih
  | unary op operand ih => exact ih.bind fun v => notes_ofExcept _
  | binary left op right ihl ihr => exact ihl.bind fun v => ihr.bind fun w => notes_ofExcept _
  | logical left op right ihl ihr =>
    refine ihl.bind fun v => ?_
    split
    · exact notes_pure v
    · exact notes_pure v
    · exact ihr
    · exact ihr
    · exact notes_throw _
  | var name => exact notes_beside _
  | assign name value ih => exact ih.bind fun v => notes_beside _

theorem notes_bind (name : Token) (v : Value) : Notes [name.lexeme] (p.noting.bind name v) := by
  intro s other noted
  exact List.mem_append.mp noted

theorem notes_inScope (body : EStateM Stop (σ × List String) Unit) :
    Notes names (p.noting.inScope body) := by
  intro s name noted
  unfold inScope at noted
  generalize body (p.noting.enter s) = result at noted
  cases result <;> exact .inl noted

mutual

theorem notes_execute (fuel : Nat) : ∀ s : Stmt, Notes s.openNames (p.noting.execute fuel s)
  | .expression e => (notes_evaluate p e).bind fun _ => notes_pure ()
  | .print e => (notes_evaluate p e).bind fun v => notes_beside _
  | .declare name none => notes_bind p name .nil
  | .declare name (some e) => (notes_evaluate p e).bind fun v => notes_bind p name v
  | .block body => notes_inScope p _
  | .branch condition accepted none => by
    refine (notes_evaluate p condition).bind fun v => ?_
    split
    · exact notes_execute fuel accepted
    · exact notes_pure ()
  | .branch condition accepted (some rejected) => by
    refine (notes_evaluate p condition).bind fun v => ?_
    split
    · exact (notes_execute fuel accepted).wider (List.subset_append_left _ _)
    · exact (notes_execute fuel rejected).wider (List.subset_append_right _ _)
  | .loop condition body =>
    notes_whileTrue (notes_evaluate p condition) (notes_execute fuel body) fuel

theorem notes_executeAll (fuel : Nat) : ∀ body : List Stmt,
    Notes (Stmt.allOpenNames body) (p.noting.executeAll fuel body)
  | [] => notes_pure ()
  | s :: rest =>
    ((notes_execute fuel s).wider (List.subset_append_left _ _)).bind fun _ =>
      (notes_executeAll fuel rest).wider (List.subset_append_right _ _)

end

end

theorem Frames.executeAll {p : Primitives σ} {R : List String → σ → σ → Prop} (h : Frames p R)
    (fuel : Nat) (body : List Stmt) (s : σ) :
    R (stateAfter (p.noting.executeAll fuel body (s, []))).2 s
      (stateAfter (p.executeAll fuel body s)) := by
  have alike := h.simulates.executeAll fuel body s s (s, []) ⟨rfl, h.refl s⟩
  generalize p.executeAll fuel body s = result at alike ⊢
  generalize p.noting.executeAll fuel body (s, []) = noted at alike ⊢
  cases alike with
  | ok left => exact left.2
  | error left => exact left.2

end Primitives

end Blockscript

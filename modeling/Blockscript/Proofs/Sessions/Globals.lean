import Blockscript.Proofs.Reading.Parts
import Blockscript.Proofs.Running.Agreement
import Blockscript.Proofs.Sessions.History
import Blockscript.Proofs.Sessions.Layout

/-!
The globals that a source has to do with. They are those it names: its run depends on no other
one and leaves all others as they were.
-/
namespace Blockscript

open Grammar

def TokenStream.namesIn (source : String) : List String :=
  ((tokensIn source).filter (·.kind = .identifier)).map (·.lexeme)

open TokenStream (namesIn)
open Primitives (Indistinct)

theorem derives_names {rank : Rank} {ts : List Token} {e : Expr} (h : Derives rank ts e)
    {names : List String} (known : ∀ t ∈ ts, t.kind = .identifier → t.lexeme ∈ names) :
    e.names ⊆ names := by
  induction h with
  | literal value => exact List.nil_subset _
  | var name => exact List.cons_subset.mpr ⟨known _ (by simp) name, List.nil_subset _⟩
  | grouping opens inner closes ih => exact ih fun t member => known t (by simp [member])
  | unary op operand ih => exact ih fun t member => known t (by simp [member])
  | @joined rank ls rs l r op left op' right ihl ihr =>
    have both : l.names ++ r.names ⊆ names := List.append_subset.mpr
      ⟨ihl fun t member => known t (by simp [member]), ihr fun t member => known t (by simp [member])⟩
    cases rank <;> exact both
  | assign target op value ih =>
    exact List.cons_subset.mpr
      ⟨known _ (by simp) target, ih fun t member => known t (by simp [member])⟩
  | looser more inner ih => exact ih known

theorem ensures_names (names : List String) :
    Ensures (fun t => t.kind = .identifier → t.lexeme ∈ names) (·.names ⊆ names)
      (·.lexeme ∈ names) where
  whole derived known := derives_names derived.1 known
  name target known := known target
  always := List.nil_subset _

theorem Compiles.within {source : String} {last : Nat} {tokens : List Token} {program : Program}
    (h : Compiles source last tokens program) : Stmt.Within (namesIn source) program := by
  apply (ensures_names (namesIn source)).declarations h.derived
  intro t member name
  rw [namesIn, h.tokensIn]
  apply List.mem_map_of_mem
  apply List.mem_filter.mpr
  exact ⟨List.mem_append_left _ member, decide_eq_true name⟩

theorem Diagnostics.recordAll_flags {d d' : Diagnostics} (hadError : d'.hadError = d.hadError)
    (hadRuntimeError : d'.hadRuntimeError = d.hadRuntimeError) (errors : List Error) :
    (d'.recordAll errors).hadError = (d.recordAll errors).hadError ∧
      (d'.recordAll errors).hadRuntimeError = (d.recordAll errors).hadRuntimeError := by
  induction errors generalizing d d' with
  | nil => exact ⟨hadError, hadRuntimeError⟩
  | cons e rest ih =>
    apply ih
    · simp only [record, hadError]
    · simp only [record, hadRuntimeError]

namespace Session

variable {s s' t t' : Session} {names : List String} {source : String} {fuel : Nat}

/-- Two sessions with nothing but their globals in scope, with the same flags and the same room
    for output. They agree on the names: whether they are bound, and to what. -/
structure AgreeOn (names : List String) (s s' : Session) : Prop where
  outermost : s.machine.scopes.outer = []
  outermost' : s'.machine.scopes.outer = []
  globals : ∀ name ∈ names,
    s'.machine.scopes.inner.get? name = s.machine.scopes.inner.get? name
  room : s'.machine.output.room = s.machine.output.room
  hadError : s'.diagnostics.hadError = s.diagnostics.hadError
  hadRuntimeError : s'.diagnostics.hadRuntimeError = s.diagnostics.hadRuntimeError

/-- The second session has gone on from the first one. It has printed the bytes and reported these
    errors since, and left all globals alone but those of the names. -/
structure GoneOn (names : List String) (bytes : ByteArray) (reports : List Report)
    (s t : Session) : Prop where
  wrote : t.machine.output.written = s.machine.output.written ++ bytes
  reported : t.diagnostics.reports = s.diagnostics.reports ++ reports
  untouched : ∀ name ∉ names,
    t.machine.scopes.inner.get? name = s.machine.scopes.inner.get? name

def GoneOnAlike (names : List String) (s s' t t' : Session) : Prop :=
  AgreeOn names t t' ∧
    ∃ bytes reports, GoneOn names bytes reports s t ∧ GoneOn names bytes reports s' t'

theorem AgreeOn.same (h : AgreeOn names s s') :
    s.machine.scopes.Same (· ∈ names) s'.machine.scopes := by
  unfold Chain.Same Chain.scopes
  rw [h.outermost, h.outermost']
  exact .cons h.globals .nil

theorem outermost_of_same {P : String → Prop} {c c' : Chain} (h : c.Same P c')
    (outermost : c.outer = []) : c'.outer = [] ∧ c.inner.Same P c'.inner := by
  obtain ⟨inner, outer⟩ := c
  obtain ⟨inner', outer'⟩ := c'
  obtain rfl : outer = [] := outermost
  cases h with
  | cons same more =>
    cases more
    exact ⟨rfl, same⟩

theorem AgreeOn.goneOn (h : AgreeOn names s s') {m m' : Machine}
    (alike : Indistinct names s.machine.output s'.machine.output m m')
    (untouched : s.machine.scopes.Same (· ∉ names) m.scopes)
    (untouched' : s'.machine.scopes.Same (· ∉ names) m'.scopes) (errors : List Error) :
    GoneOnAlike names s s' ⟨m, s.diagnostics.recordAll errors⟩
      ⟨m', s'.diagnostics.recordAll errors⟩ := by
  obtain ⟨outermost, others⟩ := outermost_of_same untouched h.outermost
  obtain ⟨outermost', others'⟩ := outermost_of_same untouched' h.outermost'
  obtain ⟨_, globals⟩ := outermost_of_same alike.scopes outermost
  obtain ⟨hadError, hadRuntimeError⟩ :=
    Diagnostics.recordAll_flags h.hadError h.hadRuntimeError errors
  obtain ⟨bytes, wrote, wrote'⟩ := alike.output.wrote
  have reported := Diagnostics.reports_recordAll s.diagnostics errors
  have reported' := Diagnostics.reports_recordAll s'.diagnostics errors
  exact ⟨⟨outermost, outermost', globals, alike.output.room, hadError, hadRuntimeError⟩, bytes, _,
    ⟨wrote, reported, others⟩, ⟨wrote', reported', others'⟩⟩

theorem AgreeOn.indistinct (h : AgreeOn names s s') :
    Indistinct names s.machine.output s'.machine.output s.machine s'.machine :=
  ⟨h.same, .refl h.room⟩

theorem AgreeOn.parse (h : AgreeOn names s s') (source : String) :
    GoneOnAlike names s s' (s.parse source).2 (s'.parse source).2 := by
  rw [parse_diagnostics, parse_diagnostics]
  exact h.goneOn h.indistinct (.refl _ _) (.refl _ _) (readErrors source)

theorem AgreeOn.execute (h : AgreeOn names s s') {program : Program}
    (within_ : Stmt.Within names program) (fuel : Nat) :
    Option.Rel (GoneOnAlike names s s') (s.execute fuel program) (s'.execute fuel program) := by
  have alike := Program.executeAll_indistinct within_ fuel h.same h.room
  have untouched := Program.executeAll_untouched within_ fuel s.machine
  have untouched' := Program.executeAll_untouched within_ fuel s'.machine
  unfold Session.execute
  generalize Stmt.executeAll fuel program s.machine = result at alike untouched ⊢
  generalize Stmt.executeAll fuel program s'.machine = result' at alike untouched' ⊢
  cases alike with
  | ok left => exact .some (h.goneOn left untouched untouched' [])
  | @error stop m m' left =>
    cases stop with
    | failed e => exact .some (h.goneOn left untouched untouched' [e])
    | outOfFuel => exact .none

theorem AgreeOn.run (h : AgreeOn (namesIn source) s s') (fuel : Nat) :
    Option.Rel (GoneOnAlike (namesIn source) s s') (s.run fuel source) (s'.run fuel source) := by
  by_cases blocked : s.diagnostics.hadError = true ∨ readErrors source ≠ []
  · rw [run_blocked blocked, run_blocked (by rwa [h.hadError])]
    exact .some (h.parse source)
  · have clean : (s.parse source).2.diagnostics.hadError = false := by
      rwa [← Bool.not_eq_true, parse_hadError]
    obtain ⟨last, tokens, compiles⟩ := compiles_of_parse clean
    rw [not_or, Bool.not_eq_true, not_ne_iff] at blocked
    rw [run_executes blocked.1 blocked.2, run_executes (h.hadError.trans blocked.1) blocked.2,
      compiles.parse]
    exact h.execute compiles.within fuel

theorem AgreeOn.symm (h : AgreeOn names s s') : AgreeOn names s' s :=
  ⟨h.outermost', h.outermost, fun name known => (h.globals name known).symm, h.room.symm,
    h.hadError.symm, h.hadRuntimeError.symm⟩

theorem AgreeOn.runsTo (h : AgreeOn (namesIn source) s s') (run : s.RunsTo source t) :
    ∃ t', s'.RunsTo source t' ∧ GoneOnAlike (namesIn source) s s' t t' := by
  obtain ⟨fuel, run⟩ := run
  have both := h.run fuel
  rw [run] at both
  cases run' : s'.run fuel source with
  | none =>
    rw [run'] at both
    cases both
  | some t' =>
    rw [run'] at both
    cases both with
    | some alike => exact ⟨t', ⟨fuel, run'⟩, alike⟩

/-- A source depends on the globals it names only, and touches no others. In two sessions that agree
    on these it ends in both or in neither, prints and reports the same, and leaves the sessions
    in agreement on them; every other global of either session is as before, also if the run
    ends in an error. -/
theorem run_namesIn (h : AgreeOn (namesIn source) s s') :
    ((∃ t, s.RunsTo source t) ↔ ∃ t', s'.RunsTo source t') ∧
      ∀ t t', s.RunsTo source t → s'.RunsTo source t' → GoneOnAlike (namesIn source) s s' t t' := by
  refine ⟨⟨?_, ?_⟩, ?_⟩
  · rintro ⟨t, run⟩
    obtain ⟨t', run', _⟩ := h.runsTo run
    exact ⟨t', run'⟩
  · rintro ⟨t', run'⟩
    obtain ⟨t, run, _⟩ := h.symm.runsTo run'
    exact ⟨t, run⟩
  · intro t t' run run'
    obtain ⟨u', found, alike⟩ := h.runsTo run
    rwa [run'.unique found]

/-- `c` is bound in the first session and free in the second. The run fails at `b` in both. -/
theorem run_namesIn_undefined :
    let first : Session := ⟨⟨⟨⟨[("c", .nil), ("a", .nil)]⟩, []⟩, .empty none⟩, .empty⟩
    let second : Session := ⟨⟨⟨⟨[("a", .nil)]⟩, []⟩, .empty none⟩, .empty⟩
    AgreeOn (namesIn "print a = b;") first second ∧
      ∀ t t', first.RunsTo "print a = b;" t → second.RunsTo "print a = b;" t' →
        GoneOnAlike (namesIn "print a = b;") first second t t' := by
  intro first second
  have names : namesIn "print a = b;" = ["a", "b"] := by cbv
  have agree : AgreeOn (namesIn "print a = b;") first second := by
    rw [names]
    refine ⟨rfl, rfl, ?_, rfl, rfl, rfl⟩
    simp [first, second, Scope.get?, List.lookup_cons]
  exact ⟨agree, (run_namesIn agree).2⟩

end Session

end Blockscript

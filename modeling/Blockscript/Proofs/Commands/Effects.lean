import Blockscript.Command.Outcome
import Blockscript.Proofs.Running.Truncated
import Blockscript.Proofs.Sessions.History
import Blockscript.Proofs.Sessions.Pieces

/-!
What one source does when it is fed to a session: what it shows, the errors it leaves on
record, and the variables behind it. What was written before it plays no part in this.
-/
namespace Blockscript

open Primitives (Simulates Alike machine lookup_machine assign_machine stateAfter)

def Output.behind (bytes : ByteArray) (o : Output) : Output := ⟨bytes ++ o.written, o.room⟩

theorem Output.write_behind (bytes : ByteArray) (o : Output) (text : String) :
    (o.behind bytes).write text = ((o.write text).1.behind bytes, (o.write text).2) := by
  obtain ⟨written, room⟩ := o
  cases room with
  | none => simp only [behind, write, ByteArray.append_assoc]
  | some room =>
    simp only [behind, write]
    split
    · simp only [ByteArray.append_assoc]
    · simp only [ByteArray.append_assoc]

def Machine.behind (bytes : ByteArray) (m : Machine) : Machine := ⟨m.scopes, m.output.behind bytes⟩

theorem Primitives.behind_simulates (bytes : ByteArray) :
    Simulates machine machine fun (_ : Unit) m m' => m' = m.behind bytes where
  lookup := by
    rintro _ name ⟨c, o⟩ _ rfl
    rw [lookup_machine, lookup_machine, Machine.behind]
    cases c.get? name.lexeme with
    | none => exact .error rfl
    | some v => exact .ok rfl
  assign := by
    rintro _ name v ⟨c, o⟩ _ rfl
    rw [assign_machine, assign_machine, Machine.behind]
    cases c.assign? name.lexeme v with
    | none => exact .error rfl
    | some scopes => exact .ok rfl
  declare := by
    rintro _ name v m _ rfl
    rfl
  write := by
    rintro _ text ⟨c, o⟩ _ rfl
    simp only [machine, Execution.write, Machine.behind, Output.write_behind]
    generalize o.write text = wrote
    obtain ⟨after, all⟩ := wrote
    cases all with
    | true => exact .ok rfl
    | false => exact .error rfl
  scope := by
    rintro _ m _ rfl
    refine ⟨(), rfl, ?_⟩
    rintro m' _ rfl
    rfl

theorem Stmt.executeAll_behind (fuel : Nat) (body : List Stmt) (bytes : ByteArray) (m : Machine) :
    Alike (fun m m' => m' = m.behind bytes) (Stmt.executeAll fuel body m)
      (Stmt.executeAll fuel body (m.behind bytes)) := by
  have mirrored := (Primitives.behind_simulates bytes).executeAll fuel body () m _ rfl
  rwa [Primitives.executeAll_machine] at mirrored

theorem Program.room_none (fuel : Nat) (program : Program) {m : Machine}
    (unlimited : m.output.room = none) :
    (stateAfter (Stmt.executeAll fuel program m)).output.room = none := by
  rw [program.output_prints, Output.after, unlimited]
  rfl

def Program.outlines (program : Program) : String :=
  String.join (program.map fun s => s.outline ++ "\n")

/-- What a source does with variables `c` and nothing on record: what it shows, its errors, and
    the variables behind it. Only a source without errors of its own is shown or executed. -/
inductive Effect (outline : Bool) (c : Chain) (source : String) :
    ByteArray → List Error → Chain → Prop where
  | rejected (some : Session.readErrors source ≠ []) :
      Effect outline c source .empty (Session.readErrors source) c
  | outlined {last : Nat} {tokens : List Token} {program : Program} (only : outline = true)
      (compiles : Compiles source last tokens program) :
      Effect outline c source program.outlines.toUTF8 [] c
  | finished {last : Nat} {tokens : List Token} {program : Program} {m : Machine}
      (runs : outline = false) (compiles : Compiles source last tokens program)
      (ends : program.Ends ⟨c, .empty none⟩ (.ok () m)) :
      Effect outline c source m.output.written [] m.scopes
  | failed {last : Nat} {tokens : List Token} {program : Program} {m : Machine} {e : Error}
      (runs : outline = false) (compiles : Compiles source last tokens program)
      (ends : program.Ends ⟨c, .empty none⟩ (.error (.failed e) m)) :
      Effect outline c source m.output.written [e] m.scopes

namespace Session

def quiet (c : Chain) (written : ByteArray) : Session := ⟨⟨c, ⟨written, none⟩⟩, .empty⟩

def noting (c : Chain) (written : ByteArray) (errors : List Error) : Session :=
  { quiet c written with diagnostics := Diagnostics.empty.recordAll errors }

variable {c c' : Chain} {written out : ByteArray} {errors : List Error} {outline : Bool}
  {source : String} {fuel : Nat}

theorem machine_behind {m : Machine} (unlimited : m.output.room = none) :
    m.behind written = (quiet m.scopes (written ++ m.output.written)).machine := by
  obtain ⟨scopes, out, room⟩ := m
  obtain rfl : room = none := unlimited
  rfl

theorem say_quiet (c : Chain) (written : ByteArray) (text : String) :
    (quiet c written).say text = quiet c (written ++ text.toUTF8) := rfl

theorem say_outlines (c : Chain) (written : ByteArray) (program : Program) :
    program.foldl (fun s stmt => s.say (stmt.outline ++ "\n")) (quiet c written) =
      quiet c (written ++ program.outlines.toUTF8) := by
  induction program generalizing written with
  | nil => exact congrArg (quiet c) ByteArray.append_empty.symm
  | cons s rest ih =>
    have split : Program.outlines (s :: rest) = s.outline ++ "\n" ++ Program.outlines rest := by
      simp only [Program.outlines, List.map_cons, String.join_cons]
    have bytes : (s.outline ++ "\n" ++ Program.outlines rest).toUTF8 =
        (s.outline ++ "\n").toUTF8 ++ (Program.outlines rest).toUTF8 := String.toByteArray_append
    rw [List.foldl_cons, say_quiet, ih, split, bytes, ByteArray.append_assoc]

theorem feed_rejected (some : readErrors source ≠ []) (fuel : Nat) :
    (quiet c written).feed fuel outline source =
      .some (noting c written (readErrors source)) := by
  have blocked := (parse_hadError (quiet c written) source).mpr (.inr some)
  simp only [feed, run, blocked, ↓reduceIte, ite_self]
  rw [parse_diagnostics]
  rfl

theorem feed_outlined {last : Nat} {tokens : List Token} {program : Program}
    (compiles : Compiles source last tokens program) (fuel : Nat) :
    (quiet c written).feed fuel true source =
      some (noting c (written ++ program.outlines.toUTF8) []) := by
  simp only [feed, ↓reduceIte, compiles.parse, say_outlines]
  rfl

theorem feed_executed {last : Nat} {tokens : List Token} {program : Program}
    (compiles : Compiles source last tokens program) (fuel : Nat) :
    (quiet c written).feed fuel false source =
      match Stmt.executeAll fuel program ⟨c, .empty none⟩ with
      | .ok _ m => some (noting m.scopes (written ++ m.output.written) [])
      | .error (.failed e) m => some (noting m.scopes (written ++ m.output.written) [e])
      | .error .outOfFuel _ => none := by
  have fed : (quiet c written).feed fuel false source = (quiet c written).execute fuel program := by
    simp only [feed, run, compiles.parse, Bool.false_eq_true, ↓reduceIte]
    rfl
  have start : (quiet c written).machine = Machine.behind written ⟨c, .empty none⟩ :=
    congrArg (fun bytes => Machine.mk c ⟨bytes, none⟩) ByteArray.append_empty.symm
  have alike := Stmt.executeAll_behind fuel program written ⟨c, .empty none⟩
  have unlimited := @Program.room_none fuel program ⟨c, .empty none⟩ rfl
  rw [fed, execute, start]
  generalize Stmt.executeAll fuel program ⟨c, .empty none⟩ = r at alike unlimited ⊢
  generalize Stmt.executeAll fuel program (Machine.behind written ⟨c, .empty none⟩) = r' at alike ⊢
  cases alike with
  | @ok _ m _ behind =>
    have left : m.output.room = none := unlimited
    rw [behind, machine_behind left]
    rfl
  | @error stop m _ behind =>
    have left : m.output.room = none := unlimited
    rw [behind, machine_behind left]
    cases stop with
    | failed e => rfl
    | outOfFuel => rfl

theorem feed_of_effect (h : Effect outline c source out errors c') :
    ∃ least, ∀ fuel, least ≤ fuel → ∀ written,
      (quiet c written).feed fuel outline source = some (noting c' (written ++ out) errors) := by
  cases h with
  | rejected some =>
    refine ⟨0, fun fuel _ written => ?_⟩
    rw [feed_rejected some, ByteArray.append_empty]
  | outlined only compiles =>
    subst only
    exact ⟨0, fun fuel _ written => feed_outlined compiles fuel⟩
  | finished runs compiles ends =>
    subst runs
    obtain ⟨least, run, ended⟩ := ends
    refine ⟨least, fun fuel more written => ?_⟩
    rw [feed_executed compiles, Program.Ends.with_more run ended more]
  | failed runs compiles ends =>
    subst runs
    obtain ⟨least, run, ended⟩ := ends
    refine ⟨least, fun fuel more written => ?_⟩
    rw [feed_executed compiles, Program.Ends.with_more run ended more]

theorem effect_unique {out' : ByteArray} {errors' : List Error} {c'' : Chain}
    (h : Effect outline c source out errors c') (h' : Effect outline c source out' errors' c'') :
    c' = c'' ∧ out = out' ∧ errors.map Error.report = errors'.map Error.report := by
  obtain ⟨least, fed⟩ := feed_of_effect h
  obtain ⟨least', fed'⟩ := feed_of_effect h'
  have first := fed _ (Nat.le_max_left least least') .empty
  have second := fed' _ (Nat.le_max_right least least') .empty
  rw [first, Option.some.injEq] at second
  rw [ByteArray.empty_append, ByteArray.empty_append] at second
  have machine : (⟨c', ⟨out, none⟩⟩ : Machine) = ⟨c'', ⟨out', none⟩⟩ :=
    congrArg Session.machine second
  have reports : (Diagnostics.empty.recordAll errors).reports =
      (Diagnostics.empty.recordAll errors').reports := congrArg (·.diagnostics.reports) second
  rw [Diagnostics.reports_recordAll, Diagnostics.reports_recordAll] at reports
  simp only [Machine.mk.injEq, Output.mk.injEq, and_true] at machine
  exact ⟨machine.1, machine.2, by simpa [Diagnostics.empty] using reports⟩

end Session

end Blockscript

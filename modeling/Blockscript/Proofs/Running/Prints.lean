import Blockscript.Proofs.Running.Frames
import Mathlib.Data.List.Infix

/-!
What a run comes to write. The machine's run is retold with a note of every text that it hands
to its output, whether there is room for it or not, and of the scopes that are seen just then.
What stands in the output is told by these notes and by the room there was at the start.
-/
namespace Blockscript

namespace Output

def taken (o : Output) (bytes : ByteArray) : ByteArray :=
  match o.room with
  | none => bytes
  | some room => bytes.extract 0 room

def after (o : Output) (bytes : ByteArray) : Output :=
  ⟨o.written ++ o.taken bytes, o.room.map (· - bytes.size)⟩

def Holds (o : Output) (bytes : ByteArray) : Prop := ∀ room ∈ o.room, bytes.size ≤ room

variable (o : Output) (bytes : ByteArray) (text : String)

theorem extract_all {bytes : ByteArray} {room : Nat} (fits : bytes.size ≤ room) :
    bytes.extract 0 room = bytes := by
  rw [← Nat.max_eq_left fits]
  exact ByteArray.extract_zero_max_size

theorem after_empty : o.after .empty = o := by
  obtain ⟨written, room⟩ := o
  cases room with
  | none => simp only [after, taken, ByteArray.append_empty, Option.map_none]
  | some room =>
    have none : ByteArray.empty.extract 0 room = .empty := extract_all (Nat.zero_le room)
    simp only [after, taken, none, ByteArray.append_empty, ByteArray.size_empty, Nat.sub_zero,
      Option.map_some]

theorem write_after : ((o.after bytes).write text).1 = o.after (bytes ++ text.toUTF8) := by
  obtain ⟨written, room⟩ := o
  cases room with
  | none => simp only [after, taken, write, Option.map_none, ByteArray.append_assoc]
  | some room =>
    simp only [after, taken, write, Option.map_some, ByteArray.extract_append, Nat.zero_sub,
      ByteArray.size_append, ← ByteArray.append_assoc]
    split
    · rename_i fits
      have less : room - bytes.size - text.toUTF8.size = room - (bytes.size + text.toUTF8.size) := by
        omega
      rw [extract_all fits, less]
    · have full : room - (bytes.size + text.toUTF8.size) = 0 := by omega
      rw [full]

theorem write_holds (held : o.Holds bytes) :
    ((o.after bytes).write text).2 = true ↔ o.Holds (bytes ++ text.toUTF8) := by
  obtain ⟨written, room⟩ := o
  cases room with
  | none => simp [after, write, Holds]
  | some room =>
    have fits : bytes.size ≤ room := held room rfl
    simp only [after, write, Holds, Option.map_some, Option.mem_def, Option.some.injEq, forall_eq',
      ByteArray.size_append]
    split <;> simp only [Bool.false_eq_true, true_iff, false_iff] <;> omega

end Output

structure Printing where
  text : String
  scopes : Chain

def printed (prints : List Printing) : ByteArray := (String.join (prints.map (·.text))).toUTF8

theorem printed_join (prints more : List Printing) :
    printed (prints ++ more) = printed prints ++ printed more := by
  simp only [printed, List.map_append, String.join_append]
  exact String.toByteArray_append

theorem printed_append (prints : List Printing) (last : Printing) :
    printed (prints ++ [last]) = printed prints ++ last.text.toUTF8 := by
  rw [printed_join]
  simp only [printed, List.map_cons, List.map_nil, String.join_cons, String.join_nil,
    String.append_empty]

namespace Primitives

/-- The machine's run with the notes beside it. -/
def transcribed : Primitives (Machine × List Printing) where
  lookup name := beside (machine.lookup name)
  assign name v := beside (machine.assign name v)
  declare name v s := (machine.declare name v s.1, s.2)
  write text s := beside (machine.write text) (s.1, s.2 ++ [⟨text, s.1.scopes⟩])
  enter s := (machine.enter s.1, s.2)
  leave s s' := (machine.leave s.1 s'.1, s'.2)

theorem mirrors_noted {σ ν α : Type} (run : EStateM Stop σ α) :
    Mirrors (fun s (t : σ × ν) => s = t.1) run (beside run) := by
  rintro _ t rfl
  unfold beside
  cases run t.1 with
  | ok v s => exact .ok rfl
  | error e s => exact .error rfl

theorem transcribed_simulates :
    Simulates machine transcribed fun (_ : Unit) m (t : Machine × List Printing) => m = t.1 where
  lookup _ name := mirrors_noted (machine.lookup name)
  assign _ name v := mirrors_noted (machine.assign name v)
  write _ text := by
    rintro _ t rfl
    exact mirrors_noted (machine.write text) t.1 (t.1, t.2 ++ [⟨text, t.1.scopes⟩]) rfl
  declare := by
    rintro _ name v _ t rfl
    rfl
  scope := by
    rintro _ _ t rfl
    refine ⟨(), rfl, ?_⟩
    rintro _ t' rfl
    rfl

end Primitives

/-- What the run of a program comes to write. -/
def Program.prints (fuel : Nat) (program : Program) (m : Machine) : List Printing :=
  (Primitives.stateAfter (Primitives.transcribed.executeAll fuel program (m, []))).2

theorem Program.transcribed_run (fuel : Nat) (program : Program) (m : Machine) :
    Primitives.Alike (fun m (t : Machine × List Printing) => m = t.1)
      (Stmt.executeAll fuel program m) (Primitives.transcribed.executeAll fuel program (m, [])) := by
  rw [← Primitives.executeAll_machine]
  exact Primitives.transcribed_simulates.executeAll fuel program () m (m, []) rfl

end Blockscript

import Blockscript.Proofs.Running.Prints
import Blockscript.Proofs.Running.ScopeNames
import Blockscript.Proofs.Running.Shortened
import Blockscript.Proofs.Sessions.Runs
import Mathlib.Data.List.DropRight

/-!
Runs with less room. With less room in its output a program does the same until it comes upon a
text that does not fit, and there it ends. What it wrote is what fits of the whole output.
-/
namespace Blockscript

open Primitives (Alike Mirrors Simulates Frames Shortened Outruns Overtakes machine transcribed
  stateAfter beside onScopes)

theorem Chain.leave_suffix (c : Chain) : c.leave.scopes <:+ c.scopes := by
  obtain ⟨inner, outer⟩ := c
  cases outer with
  | nil => exact List.suffix_refl _
  | cons s rest => exact List.suffix_cons inner _

structure Abreast (o o' : Output) (s t : Machine × List Printing) : Prop where
  prints : s.2 = t.2
  scopes : s.1.scopes = t.1.scopes
  output : s.1.output = o.after (printed s.2)
  output' : t.1.output = o'.after (printed t.2)
  holds : o'.Holds (printed t.2)

/-- The second was stopped by its last text, with the scopes that were seen just before it, as
    far as they are not left yet. -/
structure Behind (o o' : Output) (s t : Machine × List Printing) : Prop where
  output : s.1.output = o.after (printed s.2)
  output' : t.1.output = o'.after (printed t.2)
  before : t.2 <+: s.2
  stopped : ∃ prints last, t.2 = prints ++ [last] ∧ o'.Holds (printed prints) ∧
    ¬ o'.Holds (printed t.2) ∧ t.1.scopes.scopes <:+ last.scopes.scopes

section

variable {o o' : Output}

theorem outruns_onScopes {step : Evaluation Value}
    (other : ∀ c e c', step c = .error e c' → ∀ fault, e ≠ .output fault) :
    Outruns (Abreast o o') (Behind o o') (beside (onScopes step)) (beside (onScopes step)) where
  shortened := by
    rintro ⟨m, prints⟩ ⟨m', prints'⟩ ⟨same, scopes, output, output', holds⟩
    simp only [beside, onScopes]
    rw [show m.scopes = m'.scopes from scopes]
    cases done : step m'.scopes with
    | ok v c => exact .ok ⟨same, rfl, output, output', holds⟩
    | error e c =>
      refine .error ?_ ⟨same, rfl, output, output', holds⟩
      intro fault failed
      exact other _ e c done fault (Stop.failed.inj failed)
  keeps := by
    rintro ⟨m, prints⟩ t ⟨output, output', before, stopped⟩
    simp only [beside, onScopes]
    cases step m.scopes <;> exact ⟨output, output', before, stopped⟩

theorem write_transcribed (text : String) (m : Machine) (prints : List Printing)
    (output : m.output = o.after (printed prints)) :
    let prints' := prints ++ [⟨text, m.scopes⟩]
    stateAfter (transcribed.write text (m, prints)) =
        (⟨m.scopes, o.after (printed prints')⟩, prints') ∧
      (o.Holds (printed prints) → (o.Holds (printed prints') ∧
        transcribed.write text (m, prints) = .ok () (⟨m.scopes, o.after (printed prints')⟩, prints')) ∨
        (¬ o.Holds (printed prints') ∧ transcribed.write text (m, prints) =
          .error (.failed (.output .full)) (⟨m.scopes, o.after (printed prints')⟩, prints'))) := by
  have taken := o.write_after (printed prints) text
  have fits := o.write_holds (printed prints) text
  rw [← output, ← printed_append prints ⟨text, m.scopes⟩] at taken fits
  simp only [transcribed, beside, machine, Execution.write]
  generalize m.output.write text = result at taken fits
  obtain ⟨output', whole⟩ := result
  obtain rfl := taken
  cases whole with
  | true => exact ⟨rfl, fun held => .inl ⟨(fits held).mp rfl, rfl⟩⟩
  | false => exact ⟨rfl, fun held => .inr ⟨fun all => Bool.noConfusion ((fits held).mpr all), rfl⟩⟩

theorem outruns_write (less : ∀ bytes, o'.Holds bytes → o.Holds bytes) (text : String) :
    Outruns (Abreast o o') (Behind o o') (transcribed.write text) (transcribed.write text) where
  shortened := by
    rintro ⟨m, prints⟩ ⟨m', prints'⟩ ⟨same, scopes, output, output', holds⟩
    obtain rfl : prints = prints' := same
    obtain ⟨state, wide⟩ := write_transcribed text m prints output
    obtain ⟨-, narrow⟩ := write_transcribed text m' prints output'
    rw [scopes] at state wide
    rcases narrow holds with ⟨holds', narrow⟩ | ⟨full, narrow⟩
    · rcases wide (less _ holds) with ⟨-, wide⟩ | ⟨full, -⟩
      · rw [wide, narrow]
        exact .ok ⟨rfl, rfl, rfl, rfl, holds'⟩
      · exact absurd (less _ holds') full
    · rw [narrow]
      apply Shortened.short
      rw [state]
      exact ⟨rfl, rfl, List.prefix_refl _, prints, _, rfl, holds, full, List.suffix_refl _⟩
  keeps := by
    rintro ⟨m, prints⟩ t ⟨output, output', before, stopped⟩
    rw [(write_transcribed text m prints output).1]
    exact ⟨rfl, output', before.trans (List.prefix_append _ _), stopped⟩

theorem overtakes_transcribed (less : ∀ bytes, o'.Holds bytes → o.Holds bytes) :
    Overtakes transcribed transcribed (Abreast o o') (Behind o o') where
  lookup name := by
    apply outruns_onScopes
    intro c e c' failed
    unfold Evaluation.lookup at failed
    split at failed
    · cases failed
    · cases failed
      nofun
  assign name v := by
    apply outruns_onScopes
    intro c e c' failed
    unfold Evaluation.assign at failed
    split at failed
    · cases failed
    · cases failed
      nofun
  write := outruns_write less
  declare := by
    rintro name v s t ⟨same, scopes, output, output', holds⟩
    refine ⟨same, ?_, output, output', holds⟩
    exact congrArg (Chain.declare · name.lexeme v) scopes
  declare_alone := by
    rintro name v s t ⟨output, output', before, stopped⟩
    exact ⟨output, output', before, stopped⟩
  enter := by
    rintro s t ⟨same, scopes, output, output', holds⟩
    exact ⟨same, congrArg Chain.enter scopes, output, output', holds⟩
  enter_alone := by
    rintro s t ⟨output, output', before, stopped⟩
    exact ⟨output, output', before, stopped⟩
  leave := by
    rintro _ _ s t ⟨same, scopes, output, output', holds⟩
    exact ⟨same, congrArg Chain.leave scopes, output, output', holds⟩
  leave_short := by
    rintro _ _ s t ⟨output, output', before, prints, last, split, holds, full, seen⟩
    exact ⟨output, output', before, prints, last, split, holds, full, (Chain.leave_suffix _).trans seen⟩
  leave_alone := by
    rintro _ s t ⟨output, output', before, stopped⟩
    exact ⟨output, output', before, stopped⟩

end

theorem Primitives.Alike.ended {R : Machine → Machine → Prop} {r r' : EStateM.Result Stop Machine Unit}
    (alike : Alike R r r') (ended : Execution.Ended r) : Execution.Ended r' := by
  cases alike with
  | ok left => nofun
  | error left =>
    rintro m ⟨⟩
    exact ended _ rfl

def Refused (r : EStateM.Result Stop Machine Unit) : Prop :=
  ∃ fault m, r = .error (.failed (.output fault)) m

namespace Program

variable {o o' : Output} (fuel : Nat) (program : Program) (scopes : Chain)

/-- The run ends at the first of the texts that does not fit, with the scopes seen just before
    it, as far as they were there from the start. -/
def CutShort (m : Machine) (prints : List Printing) : Prop :=
  ∃ before last behind m', prints = before ++ last :: behind ∧
    m.output.Holds (printed before) ∧ ¬ m.output.Holds (printed (before ++ [last])) ∧
    program.prints fuel m = before ++ [last] ∧
    Stmt.executeAll fuel program m = .error (.failed (.output .full)) m' ∧
    m'.scopes.scopes = last.scopes.scopes.rtake m.scopes.scopes.length

theorem output_prints (m : Machine) :
    (stateAfter (Stmt.executeAll fuel program m)).output =
      m.output.after (printed (program.prints fuel m)) := by
  have start : Abreast m.output m.output (m, []) (m, []) :=
    ⟨rfl, rfl, m.output.after_empty.symm, m.output.after_empty.symm, fun _ _ => Nat.zero_le _⟩
  have both := ((overtakes_transcribed fun _ => id).executeAll fuel program).shortened _ _ start
  rw [(program.transcribed_run fuel m).stateAfter]
  rcases both.split with ⟨alike, _⟩ | ⟨t, _, left⟩
  · exact alike.stateAfter.output
  · exact left.output

theorem abreast_or_short (less : ∀ bytes, o'.Holds bytes → o.Holds bytes) :
    (Alike (fun m m' => m'.scopes = m.scopes) (Stmt.executeAll fuel program ⟨scopes, o⟩)
        (Stmt.executeAll fuel program ⟨scopes, o'⟩) ∧
      ¬ Refused (Stmt.executeAll fuel program ⟨scopes, o⟩) ∧
      program.prints fuel ⟨scopes, o'⟩ = program.prints fuel ⟨scopes, o⟩ ∧
      o'.Holds (printed (program.prints fuel ⟨scopes, o⟩))) ∨
    program.CutShort fuel ⟨scopes, o'⟩ (program.prints fuel ⟨scopes, o⟩) := by
  have start : Abreast o o' (⟨scopes, o⟩, []) (⟨scopes, o'⟩, []) :=
    ⟨rfl, rfl, o.after_empty.symm, o'.after_empty.symm, fun _ _ => Nat.zero_le _⟩
  have both := ((overtakes_transcribed less).executeAll fuel program).shortened _ _ start
  have told := program.transcribed_run fuel ⟨scopes, o⟩
  have told' := program.transcribed_run fuel ⟨scopes, o'⟩
  have depth := (Primitives.names_frames.executeAll fuel program ⟨scopes, o'⟩).depth
  rw [Primitives.executeAll_machine] at depth
  unfold CutShort prints
  generalize Stmt.executeAll fuel program ⟨scopes, o⟩ = wide at told ⊢
  generalize Stmt.executeAll fuel program ⟨scopes, o'⟩ = narrow at told' depth ⊢
  generalize transcribed.executeAll fuel program (⟨scopes, o⟩, []) = wide' at both told ⊢
  generalize transcribed.executeAll fuel program (⟨scopes, o'⟩, []) = narrow' at both told' ⊢
  cases both with
  | ok left =>
    cases told with | ok at_ => ?_
    cases told' with | ok at_' => ?_
    subst at_ at_'
    exact .inl ⟨.ok left.scopes.symm, by rintro ⟨_, _, ⟨⟩⟩, left.prints.symm, left.prints ▸ left.holds⟩
  | error other left =>
    cases told with | error at_ => ?_
    cases told' with | error at_' => ?_
    subst at_ at_'
    refine .inl ⟨.error left.scopes.symm, ?_, left.prints.symm, left.prints ▸ left.holds⟩
    rintro ⟨fault, m, ⟨⟩⟩
    exact other fault rfl
  | @short _ t left =>
    cases told' with | error at_' => ?_
    subst at_'
    obtain ⟨-, -, ⟨behind, front⟩, before, last, split, holds, full, seen⟩ := left
    rw [split] at full front
    refine .inr ⟨before, last, behind, t.1, ?_, holds, full, split, rfl, ?_⟩
    · rw [← front, List.append_assoc, List.singleton_append]
    · rw [List.rtake, ← depth]
      exact List.suffix_iff_eq_drop.mp seen

end Program

namespace Output

variable {written : ByteArray} {n : Nat} {room : Option Nat} {bytes : ByteArray}

theorem holds_some : Holds ⟨written, some n⟩ bytes ↔ bytes.size ≤ n := by
  simp [Holds]

theorem holds_more (less : ∀ m ∈ room, n ≤ m) (bytes : ByteArray) :
    Holds ⟨written, some n⟩ bytes → Holds ⟨written, room⟩ bytes := by
  intro fits m known
  exact Nat.le_trans (holds_some.mp fits) (less m known)

theorem taken_size (o : Output) (bytes : ByteArray) : (o.taken bytes).size ≤ bytes.size := by
  unfold taken
  split
  · exact Nat.le_refl _
  · rw [ByteArray.size_extract]
    omega

theorem taken_extract (less : ∀ m ∈ room, n ≤ m) :
    (taken ⟨written, room⟩ bytes).extract 0 n = bytes.extract 0 n := by
  cases room with
  | none => rfl
  | some m =>
    simp only [taken, ByteArray.extract_extract, Nat.zero_add]
    rw [Nat.min_eq_left (less m rfl)]

theorem taken_fits (less : ∀ m ∈ room, n ≤ m) (fits : (taken ⟨written, room⟩ bytes).size ≤ n) :
    bytes.size ≤ n ∨ room = some n := by
  cases room with
  | none => exact .inl fits
  | some m =>
    have most := less m rfl
    simp only [taken, ByteArray.size_extract] at fits
    by_cases all : bytes.size ≤ n
    · exact .inl all
    · exact .inr (congrArg some (by omega))

end Output

theorem printed_size_le {prints more : List Printing} (front : prints <+: more) :
    (printed prints).size ≤ (printed more).size := by
  obtain ⟨rest, rfl⟩ := front
  rw [printed_join, ByteArray.size_append]
  exact Nat.le_add_right _ _

theorem printed_prefix {prints more : List Printing} (front : prints <+: more) {n : Nat}
    (full : n ≤ (printed prints).size) : (printed more).extract 0 n = (printed prints).extract 0 n := by
  obtain ⟨rest, rfl⟩ := front
  rw [printed_join, ByteArray.extract_append, Nat.zero_sub, Nat.sub_eq_zero_of_le full]
  rw [ByteArray.extract_same, ByteArray.append_empty]

/-- With less room a program prints the beginning of the same output. If all of it fits, the run
    ends alike; if not, it ends at the first text that does not fit, and nothing runs after it. -/
theorem Program.executeAll_truncated (fuel : Nat) (program : Program) (scopes : Chain)
    (written : ByteArray) {n : Nat} {room : Option Nat} (less : ∀ m ∈ room, n ≤ m) :
    let wide := Stmt.executeAll fuel program ⟨scopes, written, room⟩
    let narrow := Stmt.executeAll fuel program ⟨scopes, written, some n⟩
    (Execution.Ended wide → Execution.Ended narrow) ∧
    ∃ out, (stateAfter wide).output.written = written ++ out ∧
      (stateAfter narrow).output.written = written ++ out.extract 0 n ∧
      (out.size ≤ n ∧ ¬ Refused wide → Alike (fun m m' => m'.scopes = m.scopes) wide narrow) ∧
      (¬ (out.size ≤ n ∧ ¬ Refused wide) →
        program.CutShort fuel ⟨scopes, written, some n⟩
          (program.prints fuel ⟨scopes, written, room⟩)) := by
  intro wide narrow
  have output := congrArg Output.written (program.output_prints fuel ⟨scopes, written, room⟩)
  have output' := congrArg Output.written (program.output_prints fuel ⟨scopes, written, some n⟩)
  have more : ∀ bytes, Output.Holds ⟨written, some n⟩ bytes → Output.Holds ⟨written, room⟩ bytes :=
    Output.holds_more less
  rcases program.abreast_or_short fuel scopes more with ⟨alike, free, same, holds⟩ | short
  · have all := Nat.le_trans (Output.taken_size ⟨written, room⟩ _) (Output.holds_some.mp holds)
    refine ⟨alike.ended, _, output, ?_, fun _ => alike, fun unfit => absurd ⟨all, free⟩ unfit⟩
    rw [same] at output'
    rw [Output.taken_extract less]
    exact output'
  · obtain ⟨before, last, behind, m', split, -, full, prints, stopped, -⟩ := id short
    have front : before ++ [last] <+: program.prints fuel ⟨scopes, written, room⟩ :=
      ⟨behind, by rw [split, List.append_assoc, List.singleton_append]⟩
    rw [Output.holds_some, Nat.not_le] at full
    refine ⟨?_, _, output, ?_, ?_, fun _ => short⟩
    · intro _ m same
      cases stopped.symm.trans same
    · rw [prints] at output'
      rw [Output.taken_extract less, printed_prefix front (Nat.le_of_lt full)]
      exact output'
    · -- what was refused with less room cannot have fitted with more
      rintro ⟨fits, free⟩
      rcases Output.taken_fits less fits with all | equal
      · have more := printed_size_le front
        omega
      · exfalso
        apply free
        refine ⟨.full, m', ?_⟩
        rw [← stopped]
        simp only [wide, equal]

/-- `var a; { print nil; print a = true; }` with room for 6 of its 9 bytes: the second text is cut
    off, and the value assigned on the way stays. -/
theorem Program.executeAll_truncated_block :
    let program : Program := [.declare ⟨.identifier, "a", 1⟩ none, .block [.print (.literal .nil),
      .print (.assign ⟨.identifier, "a", 1⟩ (.literal (.bool true)))]]
    (∀ m ∈ some 9, 6 ≤ m) ∧ program.CutShort 0 ⟨.global, .empty (some 6)⟩
      (program.prints 0 ⟨.global, .empty (some 9)⟩) := by
  intro program
  have less : ∀ m ∈ some 9, 6 ≤ m := by simp
  obtain ⟨_, out, wrote, _, _, short⟩ := program.executeAll_truncated 0 .global .empty less
  refine ⟨less, short ?_⟩
  rintro ⟨fits, _⟩
  have all := congrArg ByteArray.size wrote
  have nine : (stateAfter (Stmt.executeAll 0 program ⟨.global, .empty (some 9)⟩)).output.written.size =
      9 := by decide +kernel
  rw [ByteArray.size_append] at all
  change _ = 0 + out.size at all
  have nine' := nine.symm.trans all
  omega

end Blockscript

import Blockscript.Reading.Basic

/-!
Going on after an error. A recovering reader cannot fail: it notes the errors of
what it gave up and goes on with the tokens after it.
-/
namespace Blockscript

structure Recovered (α : Type) where
  value : α
  rest : List Token
  errors : List Error

def Recovering (α : Type) : Type := List Token → Recovered α

namespace Recovering

instance : Monad Recovering where
  pure value := fun tokens => ⟨value, tokens, []⟩
  bind reader next := fun tokens =>
    let first := reader tokens
    let second := next first.value first.rest
    ⟨second.value, second.rest, first.errors ++ second.errors⟩

theorem bind_apply {α β : Type} (reader : Recovering α) (next : α → Recovering β)
    (tokens : List Token) :
    (reader >>= next) tokens =
      ⟨(next (reader tokens).value (reader tokens).rest).value,
        (next (reader tokens).value (reader tokens).rest).rest,
        (reader tokens).errors ++ (next (reader tokens).value (reader tokens).rest).errors⟩ :=
  rfl

def ofReader {α : Type} (reader : Reader α) : Recovering (Except Error α) := fun tokens =>
  match reader tokens with
  | .ok value rest => ⟨.ok value, rest, []⟩
  | .error e rest => ⟨.error e, rest, []⟩

end Recovering

/-- A reader that can fail, but notes errors of parts it gave up before. -/
abbrev PartReader := ExceptT Error Recovering

instance : MonadLift Reader PartReader := ⟨Recovering.ofReader⟩

namespace PartReader

theorem bind_of_ok {α β : Type} {reader : PartReader α} {next : α → PartReader β}
    {tokens rest : List Token} {value : α} {errors : List Error}
    (h : reader tokens = ⟨.ok value, rest, errors⟩) :
    (reader >>= next) tokens =
      ⟨(next value rest).value, (next value rest).rest, errors ++ (next value rest).errors⟩ := by
  simp only [bind, ExceptT.bind, ExceptT.mk, ExceptT.bindCont, h]

theorem bind_of_error {α β : Type} {reader : PartReader α} {next : α → PartReader β}
    {tokens rest : List Token} {e : Error} {errors : List Error}
    (h : reader tokens = ⟨.error e, rest, errors⟩) :
    (reader >>= next) tokens = ⟨.error e, rest, errors⟩ := by
  simp [bind, ExceptT.bind, ExceptT.mk, ExceptT.bindCont, h, pure]

theorem lift_of_ok {α : Type} {reader : Reader α} {tokens rest : List Token} {value : α}
    (h : reader tokens = .ok value rest) :
    (liftM reader : PartReader α) tokens = ⟨.ok value, rest, []⟩ := by
  simp [liftM, monadLift, MonadLift.monadLift, Recovering.ofReader, h]

theorem lift_of_error {α : Type} {reader : Reader α} {tokens rest : List Token} {e : Error}
    (h : reader tokens = .error e rest) :
    (liftM reader : PartReader α) tokens = ⟨.error e, rest, []⟩ := by
  simp [liftM, monadLift, MonadLift.monadLift, Recovering.ofReader, h]

end PartReader

/-- Takes tokens until just after a semicolon or just before a word that starts a
    statement. Every step takes a token, so a list as long as the tokens bounds the steps. -/
def resumeWithin : List Token → List Token → List Token
  | _ :: bound, tokens =>
    match Reader.advance tokens with
    | .ok t rest =>
      if t.kind = .semicolon then rest
      else if rest.head?.any (·.kind.startsStatement) then rest
      else resumeWithin bound rest
    | .error _ rest => rest
  | [], tokens => tokens

/-- Goes on behind what failed. At least one token is dropped, but never the end of the
    source. -/
def resume (tokens : List Token) : List Token := resumeWithin tokens tokens

@[simp] theorem resume_nil : resume [] = [] := rfl

theorem resume_cons (t : Token) (rest : List Token) :
    resume (t :: rest) =
      if t.isEnd then t :: rest
      else if t.kind = .semicolon then rest
      else if ∃ next ∈ rest.head?, next.kind.startsStatement = true then rest
      else resume rest := by
  cases ends : t.isEnd with
  | true => rw [resume, resumeWithin, Reader.advance_of_end ends]; rfl
  | false =>
    simp only [resume, resumeWithin, Reader.advance_cons ends, Option.any_eq_true,
      Option.mem_def, Bool.false_eq_true, ↓reduceIte]

theorem resume_length_le (tokens : List Token) : (resume tokens).length ≤ tokens.length := by
  induction tokens with
  | nil => exact Nat.le_refl 0
  | cons t rest ih =>
    have fewer : (resume rest).length ≤ (t :: rest).length := Nat.le_succ_of_le ih
    rw [resume_cons]
    split
    · exact Nat.le_refl _
    split
    · exact Nat.le_succ _
    split
    · exact Nat.le_succ _
    · exact fewer

def recover {α : Type} (reader : PartReader α) : Recovering (Option α) := fun tokens =>
  match reader.run tokens with
  | ⟨.ok value, rest, errors⟩ => ⟨some value, rest, errors⟩
  | ⟨.error e, rest, errors⟩ => ⟨none, resume rest, errors ++ [e]⟩

end Blockscript

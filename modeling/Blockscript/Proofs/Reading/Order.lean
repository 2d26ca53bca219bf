import Blockscript.Proofs.Reading.Programs

/-!
Errors of the grammar in the order of the source. Every error points at a token, and no two
of them at the same one unless it is the end.
-/
namespace Blockscript

def Error.At (tokens : List Token) (place : Nat) (e : Error) : Prop :=
  ∃ t fault, tokens[place]? = some t ∧ e = .grammar t fault

/-- The first place stands before the second, or both are the end of the source. -/
def Token.Before (tokens : List Token) (first second : Nat) : Prop :=
  first < second ∨ first = second ∧ ∃ t, tokens[first]? = some t ∧ t.isEnd = true

def InOrder (tokens : List Token) (errors : List Error) : Prop :=
  ∃ places : List Nat, places.Pairwise (Token.Before tokens) ∧
    List.Forall₂ (Error.At tokens) places errors

namespace InOrder

variable {t : Token} {tokens : List Token} {errors : List Error}

theorem nil : InOrder tokens [] := ⟨[], .nil, .nil⟩

theorem shifted (h : InOrder tokens errors) :
    ∃ places : List Nat, (∀ place ∈ places, 0 < place) ∧
      places.Pairwise (Token.Before (t :: tokens)) ∧
      List.Forall₂ (Error.At (t :: tokens)) places errors := by
  obtain ⟨places, apart, located⟩ := h
  refine ⟨places.map (· + 1), ?_, ?_, ?_⟩
  · intro place among
    obtain ⟨before, -, rfl⟩ := List.mem_map.mp among
    exact Nat.succ_pos before
  · rw [List.pairwise_map]
    refine apart.imp fun {first second} before => ?_
    rcases before with less | ⟨rfl, last⟩
    · exact .inl (Nat.succ_lt_succ less)
    · exact .inr ⟨rfl, last⟩
  · rw [List.forall₂_map_left_iff]
    exact located

theorem behind (h : InOrder tokens errors) : InOrder (t :: tokens) errors := by
  obtain ⟨places, -, apart, located⟩ := h.shifted (t := t)
  exact ⟨places, apart, located⟩

theorem at_first (h : InOrder tokens errors) (fault : GrammarFault) :
    InOrder (t :: tokens) (.grammar t fault :: errors) := by
  obtain ⟨places, later, apart, located⟩ := h.shifted (t := t)
  have first : ∀ place ∈ places, Token.Before (t :: tokens) 0 place :=
    fun place among => .inl (later place among)
  exact ⟨0 :: places, .cons first apart, .cons ⟨t, fault, rfl, rfl⟩ located⟩

theorem at_end (h : InOrder (t :: tokens) errors) (last : t.isEnd = true) (fault : GrammarFault) :
    InOrder (t :: tokens) (.grammar t fault :: errors) := by
  obtain ⟨places, apart, located⟩ := h
  have first : ∀ place ∈ places, Token.Before (t :: tokens) 0 place := by
    intro place _
    rcases Nat.eq_zero_or_pos place with rfl | later
    · exact .inr ⟨rfl, t, rfl, last⟩
    · exact .inl later
  exact ⟨0 :: places, .cons first apart, .cons ⟨t, fault, rfl, rfl⟩ located⟩

theorem grammatical (h : InOrder tokens errors) :
    ∀ e ∈ errors, ∃ t fault, e = .grammar t fault := by
  obtain ⟨places, -, located⟩ := h
  induction located with
  | nil => exact fun e noted => absurd noted List.not_mem_nil
  | cons here _ ih =>
    obtain ⟨t, fault, -, same⟩ := here
    exact List.forall_mem_cons.mpr ⟨⟨t, fault, same⟩, ih⟩

end InOrder

theorem Along.inOrder {tokens rest : List Token} {errors : List Error}
    (h : Along tokens rest errors) (ends : ∃ t ∈ tokens, t.isEnd = true) :
    InOrder tokens errors := by
  have beyond : ∀ {t : Token} {tokens : List Token}, t.kind ≠ .endOfFile →
      (∃ u ∈ t :: tokens, u.isEnd = true) → ∃ u ∈ tokens, u.isEnd = true := by
    intro t tokens before ends
    obtain ⟨u, among, last⟩ := ends
    rcases List.mem_cons.mp among with rfl | later
    · exact absurd (decide_eq_true_iff.mp last) before
    · exact ⟨u, later, last⟩
  induction h with
  | here => exact .nil
  | past before _ ih => exact (ih (beyond before ends)).behind
  | note before own _ ih => exact (ih (beyond before ends)).at_first _
  | @ended tokens rest errors last fault own more ih =>
    cases tokens with
    | nil =>
      obtain ⟨t, among, -⟩ := ends
      cases among
    | cons t tokens => exact (ih ends).at_end (decide_eq_true_iff.mpr (last t rfl)) fault

def Error.BeforeEnd (e : Error) : Prop := ∃ t fault, e = .grammar t fault ∧ t.isEnd = false

namespace Along

variable {stop : Token} {tokens rest ts after : List Token} {errors : List Error}

theorem towards (h : Along tokens rest errors) (ends : stop.kind = .endOfFile)
    (h' : Along tokens (stop :: after) []) : Along rest (stop :: after) [] := by
  induction h with
  | here => exact h'
  | past before _ ih | note before _ _ ih =>
    cases h' with
    | here => exact absurd ends before
    | past _ more => exact ih more
  | ended _ _ _ ih => exact ih h'

theorem upTo {earlier late : List Error} (h : Along tokens rest (earlier ++ late)) :
    ∃ between, Along tokens between earlier := by
  generalize same : earlier ++ late = errors at h
  induction h generalizing earlier with
  | here =>
    obtain ⟨rfl, rfl⟩ := List.append_eq_nil_iff.mp same
    exact ⟨_, .here _⟩
  | past before _ ih =>
    obtain ⟨between, along⟩ := ih same
    exact ⟨between, .past before along⟩
  | note before own _ ih =>
    rcases List.append_eq_cons_iff.mp same with ⟨rfl, _⟩ | ⟨earlier, rfl, rfl⟩
    · exact ⟨_, .here _⟩
    · obtain ⟨between, along⟩ := ih rfl
      exact ⟨between, .note before own along⟩
  | ended ends own _ ih =>
    rcases List.append_eq_cons_iff.mp same with ⟨rfl, _⟩ | ⟨earlier, rfl, rfl⟩
    · exact ⟨_, .here _⟩
    · obtain ⟨between, along⟩ := ih rfl
      exact ⟨between, .ended ends own along⟩

theorem inOrder_front (h : Along (ts ++ stop :: after) rest errors) (ends : stop.isEnd = true)
    (before : ∀ t ∈ ts, t.isEnd = false) (early : ∀ e ∈ errors, e.BeforeEnd) :
    InOrder ts errors := by
  -- A token that is passed stands in front of the end.
  have passed : ∀ {t : Token} {ts tokens}, t.kind ≠ .endOfFile → ts ++ stop :: after = t :: tokens →
      ∃ more, ts = t :: more ∧ more ++ stop :: after = tokens := by
    intro t ts tokens other split
    rcases List.append_eq_cons_iff.mp split with ⟨-, same⟩ | ⟨more, rfl, rfl⟩
    · obtain ⟨rfl, -⟩ := List.cons.inj same
      exact absurd (of_decide_eq_true ends) other
    · exact ⟨more, rfl, rfl⟩
  generalize split : ts ++ stop :: after = tokens at h
  induction h generalizing ts with
  | here => exact .nil
  | past other _ ih =>
    obtain ⟨more, rfl, same⟩ := passed other split
    exact (ih (List.forall_mem_cons.mp before).2 early same).behind
  | note other own _ ih =>
    obtain ⟨more, rfl, same⟩ := passed other split
    exact (ih (List.forall_mem_cons.mp before).2 (List.forall_mem_cons.mp early).2 same).at_first _
  | @ended tokens rest errors last fault own _ ih =>
    obtain ⟨u, fault', same, other⟩ := (List.forall_mem_cons.mp early).1
    subst split
    cases ts with
    | nil =>
      obtain ⟨rfl, -⟩ : stop = u ∧ fault = fault' := by simpa [errorAt] using same
      rw [ends] at other
      cases other
    | cons t ts =>
      have here : t.isEnd = true := decide_eq_true (last t rfl)
      rw [before t List.mem_cons_self] at here
      cases here

end Along

theorem InOrder.strict {ts : List Token} {errors : List Error} (h : InOrder ts errors)
    (before : ∀ t ∈ ts, t.isEnd = false) :
    ∃ places : List Nat, places.Pairwise (· < ·) ∧ List.Forall₂ (Error.At ts) places errors := by
  obtain ⟨places, apart, located⟩ := h
  refine ⟨places, apart.imp fun order => ?_, located⟩
  rcases order with less | ⟨rfl, t, found, last⟩
  · exact less
  · rw [before t (List.mem_of_getElem? found)] at last
    cases last

theorem Error.At.append {ts : List Token} {place : Nat} {e : Error} (h : e.At ts place)
    (more : List Token) : place < ts.length ∧ e.At (ts ++ more) place := by
  obtain ⟨t, fault, found, same⟩ := h
  obtain ⟨inside, -⟩ := List.getElem?_eq_some_iff.mp found
  exact ⟨inside, t, fault, by rw [List.getElem?_append_left inside, found], same⟩

theorem Program.read_inOrder {tokens : List Token} (ends : ∃ t ∈ tokens, t.isEnd = true) :
    InOrder tokens (read tokens).errors :=
  (read_takes tokens).inOrder ends

/-- They bear tokens of the text, and are told in the grammar's own words. -/
theorem Program.read_blames {tokens : List Token} (ends : ∃ t ∈ tokens, t.isEnd = true) :
    ∀ e ∈ (read tokens).errors,
      ∃ t ∈ tokens, ∃ fault, fault.isOwn = true ∧ e = .grammar t fault := by
  intro e noted
  rcases read_takes.noted tokens e noted with blamed | rfl
  · exact blamed
  · obtain ⟨t, fault, same⟩ := (read_inOrder ends).grammatical _ noted
    cases same

end Blockscript

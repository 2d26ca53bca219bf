import Blockscript.Proofs.Outlines.Quoting
import Mathlib.Data.List.Forall2

/-!
What an outline looks like, whatever it is an outline of: words, quoted texts, and brackets with
a word in front of the rest. It can be read in one way only.
-/
namespace Blockscript

inductive Shape where
  | word (text : List Char)
  | quoted (text : List Char)
  | node (head : List Char) (parts : List Shape)

namespace Shape

mutual

def render : Shape → List Char
  | .word text => text
  | .quoted text => '"' :: (text.flatMap Text.quotedChar ++ ['"'])
  | .node head parts => '(' :: (head ++ renderAll parts ++ [')'])
termination_by structural shape => shape

def renderAll : List Shape → List Char
  | [] => []
  | part :: rest => ' ' :: (render part ++ renderAll rest)
termination_by structural parts => parts

end

def isMark (c : Char) : Bool := c == ' ' || c == '(' || c == ')' || c == '"'

structure IsWord (text : List Char) : Prop where
  some : text ≠ []
  plain : ∀ c ∈ text, (!isMark c) = true

instance (text : List Char) : Decidable (IsWord text) :=
  decidable_of_iff (text ≠ [] ∧ text.all (!isMark ·) = true)
    ⟨fun word => ⟨word.1, List.all_eq_true.mp word.2⟩,
      fun word => ⟨word.some, List.all_eq_true.mpr word.plain⟩⟩

mutual

def Sound : Shape → Prop
  | .word text => IsWord text
  | .quoted _ => True
  | .node head parts => IsWord head ∧ AllSound parts
termination_by structural shape => shape

def AllSound : List Shape → Prop
  | [] => True
  | part :: rest => Sound part ∧ AllSound rest
termination_by structural parts => parts

end

def Delimited (text : List Char) : Prop := ∀ c ∈ text.head?, (!isMark c) = false

variable {text text' rest rest' : List Char}

theorem IsWord.unique (h : IsWord text) (h' : IsWord text') (ends : Delimited rest)
    (ends' : Delimited rest') (same : text ++ rest = text' ++ rest') : text = text' ∧ rest = rest' :=
  Text.run_unique h.plain h'.plain ends ends' same

theorem IsWord.opens (h : IsWord text) : ∃ c more, text = c :: more ∧ c ≠ '"' ∧ c ≠ '(' := by
  obtain ⟨some, plain⟩ := h
  cases text with
  | nil => exact absurd rfl some
  | cons c more =>
    have first := plain c List.mem_cons_self
    refine ⟨c, more, rfl, ?_, ?_⟩
    · rintro rfl
      cases first
    · rintro rfl
      cases first

theorem delimited_renderAll (parts : List Shape) (rest : List Char) :
    Delimited (renderAll parts ++ ')' :: rest) := by
  cases parts with
  | nil =>
    rintro c ⟨rfl⟩
    rfl
  | cons part parts =>
    rintro c ⟨rfl⟩
    rfl

theorem render_quoted (text rest : List Char) : (quoted text).render ++ rest =
    '"' :: (text.flatMap Text.quotedChar ++ '"' :: rest) := by
  simp [render]

theorem render_node (head : List Char) (parts : List Shape) (rest : List Char) :
    (node head parts).render ++ rest = '(' :: (head ++ (renderAll parts ++ ')' :: rest)) := by
  simp [render]

theorem renderAll_cons (part : Shape) (parts : List Shape) (rest : List Char) :
    renderAll (part :: parts) ++ rest = ' ' :: (part.render ++ (renderAll parts ++ rest)) := by
  simp [renderAll]

mutual

/-- A shape at the front of a text is told by the text. -/
theorem render_read : ∀ (x y : Shape) {rest rest' : List Char}, x.Sound → y.Sound →
    Delimited rest → Delimited rest' → x.render ++ rest = y.render ++ rest' → x = y ∧ rest = rest'
  | .word text, .word text', rest, rest', sound, sound', ends, ends', same => by
    obtain ⟨rfl, rfl⟩ := IsWord.unique sound sound' ends ends' same
    exact ⟨rfl, rfl⟩
  | .word text, .quoted text', rest, rest', sound, _, _, _, same => by
    obtain ⟨c, more, rfl, quote, _⟩ := IsWord.opens sound
    exact absurd (List.cons.inj same).1 quote
  | .word text, .node head' parts', rest, rest', sound, _, _, _, same => by
    obtain ⟨c, more, rfl, _, bracket⟩ := IsWord.opens sound
    exact absurd (List.cons.inj same).1 bracket
  | .quoted text, .word text', rest, rest', _, sound', _, _, same => by
    obtain ⟨c, more, rfl, quote, _⟩ := IsWord.opens sound'
    exact absurd (List.cons.inj same).1.symm quote
  | .quoted text, .quoted text', rest, rest', _, _, _, _, same => by
    rw [render_quoted, render_quoted] at same
    obtain ⟨rfl, rfl⟩ := Text.quoted_read (List.cons.inj same).2
    exact ⟨rfl, rfl⟩
  | .quoted text, .node head' parts', rest, rest', _, _, _, _, same =>
    absurd (List.cons.inj same).1 (by decide)
  | .node head parts, .word text', rest, rest', _, sound', _, _, same => by
    obtain ⟨c, more, rfl, _, bracket⟩ := IsWord.opens sound'
    exact absurd (List.cons.inj same).1.symm bracket
  | .node head parts, .quoted text', rest, rest', _, _, _, _, same =>
    absurd (List.cons.inj same).1 (by decide)
  | .node head parts, .node head' parts', rest, rest', ⟨first, more⟩, ⟨first', more'⟩, _, _,
      same => by
    rw [render_node, render_node] at same
    obtain ⟨rfl, behind⟩ := first.unique first' (delimited_renderAll parts rest)
      (delimited_renderAll parts' rest') (List.cons.inj same).2
    obtain ⟨rfl, rfl⟩ := renderAll_read parts parts' more more' behind
    exact ⟨rfl, rfl⟩

theorem renderAll_read : ∀ (xs ys : List Shape) {rest rest' : List Char}, AllSound xs → AllSound ys →
    renderAll xs ++ ')' :: rest = renderAll ys ++ ')' :: rest' → xs = ys ∧ rest = rest'
  | [], [], rest, rest', _, _, same => ⟨rfl, (List.cons.inj same).2⟩
  | [], y :: ys, rest, rest', _, _, same => absurd (List.cons.inj same).1 (by decide)
  | x :: xs, [], rest, rest', _, _, same => absurd (List.cons.inj same).1 (by decide)
  | x :: xs, y :: ys, rest, rest', ⟨first, more⟩, ⟨first', more'⟩, same => by
    rw [renderAll_cons, renderAll_cons] at same
    obtain ⟨rfl, behind⟩ := render_read x y first first' (delimited_renderAll xs rest)
      (delimited_renderAll ys rest') (List.cons.inj same).2
    obtain ⟨rfl, rfl⟩ := renderAll_read xs ys more more' behind
    exact ⟨rfl, rfl⟩

end

/-- No two shapes look alike. -/
theorem render_injective {x y : Shape} (sound : x.Sound) (sound' : y.Sound)
    (same : x.render = y.render) : x = y := by
  have ends : Delimited [] := by
    rintro c ⟨⟩
  have both : x.render ++ [] = y.render ++ [] := by rw [same]
  exact (render_read x y sound sound' ends ends both).1

end Shape

end Blockscript

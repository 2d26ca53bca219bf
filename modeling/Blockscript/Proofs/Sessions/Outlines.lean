import Blockscript.Proofs.Outlines.Decoding

/-!
Outlines tell programs apart. What is not told is on which lines things stand, and a literal too
great for a double from the name that it prints as.
-/
namespace Blockscript

theorem Stmt.outlines_eq_iff {body body' : List Stmt} (legible : Stmt.AllLegible body)
    (legible' : Stmt.AllLegible body') : Stmt.outlines body = Stmt.outlines body' ↔
      Stmt.allRelined noLine (Stmt.allNamed body) = Stmt.allRelined noLine (Stmt.allNamed body') := by
  rw [Stmt.outlines_eq, Stmt.outlines_eq]
  constructor
  · intro same
    have shapes := Shape.texts_injective (Stmt.shapes_sound body legible)
      (Stmt.shapes_sound body' legible') same
    rw [← Stmt.stmts_shapes body legible, shapes, Stmt.stmts_shapes body' legible']
  · intro same
    rw [← Stmt.shapes_face noLine body legible, same, Stmt.shapes_face noLine body' legible']

theorem Compiles.legible {source : String} {last : Nat} {tokens : List Token} {program : Program}
    (h : Compiles source last tokens program) : Stmt.AllLegible program := by
  obtain ⟨outcomes, scans, _, rfl⟩ := h.scanned
  exact ensures_legible.declarations h.derived scans.lexemes

namespace Session

/-- Of two sources without errors, the statements have the same outlines if and only if they are the
    same but for lines, once every infinite literal is a name. -/
theorem outlines_faithful {s s' : Session} {source source' : String}
    (clean : (s.parse source).2.diagnostics.hadError = false)
    (clean' : (s'.parse source').2.diagnostics.hadError = false) :
    Stmt.outlines (s.parse source).1 = Stmt.outlines (s'.parse source').1 ↔
      Stmt.allRelined noLine (Stmt.allNamed (s.parse source).1) =
        Stmt.allRelined noLine (Stmt.allNamed (s'.parse source').1) := by
  obtain ⟨_, _, compiles⟩ := compiles_of_parse clean
  obtain ⟨_, _, compiles'⟩ := compiles_of_parse clean'
  exact Stmt.outlines_eq_iff compiles.legible compiles'.legible

theorem outlines_faithful_blanks :
    let parsed := (start none).parse "a=-\"(b\";"
    let parsed' := (start none).parse "a = - // c\n\"(b\" ;"
    parsed.2.diagnostics.hadError = false ∧ parsed'.2.diagnostics.hadError = false ∧
      Stmt.allRelined noLine (Stmt.allNamed parsed.1) =
        Stmt.allRelined noLine (Stmt.allNamed parsed'.1) := by
  intro parsed parsed'
  have clean : parsed.2.diagnostics.hadError = false := by decide +kernel
  have clean' : parsed'.2.diagnostics.hadError = false := by decide +kernel
  have same : Stmt.outlines parsed.1 = Stmt.outlines parsed'.1 := by decide +kernel
  exact ⟨clean, clean', (outlines_faithful clean clean').mp same⟩

end Session

end Blockscript

import JavaGraft.Proofs.Course.Units
import JavaGraft.Proofs.Tree.Nodes

/-!
# Walks through source files

A walk that goes into every node of a tree follows the source (`JavaGraft.parseUnit_walk`): no node
starts before the one that was met last, and every statement and every expression is met once. That
nothing starts too early is due to the places that nodes are given while they are read, which are in
order; that nothing is missed holds of every tree.

No walk goes into the annotations of anything but a type, and none into default values. The
expressions in there are not met (`JavaGraft.not_lists_parts_annotatedLocal`).
-/

namespace JavaGraft

/-- What a walk through a source file meets if it goes into every node. -/
def SourceUnit.walk (u : SourceUnit) : List Label :=
  (Outline.listings (fun _ => false) 0 u.outlines).map Prod.snd

theorem SourceUnit.walk_eq (u : SourceUnit) : u.walk = Outline.allLabels u.outlines :=
  Outline.allLabels_listings 0 u.outlines

/-- **A walk follows the source.** No node that is met starts before the last one did, and every
statement and expression is met once. -/
theorem parseUnit_walk (source : List Char) (n : Nat) :
    ((parseUnit source n).unit.walk.filterMap Label.span?).Pairwise
        (fun s t => s.offset ≤ t.offset) ∧
      Node.Lists Node.children ((parseUnit source n).unit.types.map .typeDecl)
        ((parseUnit source n).unit.walk.filterMap Label.code?) := by
  obtain ⟨-, -, hordered⟩ := parseUnit_sound source n
  generalize (parseUnit source n).unit = u at hordered ⊢
  rw [u.walk_eq]
  exact ⟨u.inside.pairwise (fun s => le_refl s.offset) hordered, u.met⟩

/-- A class with a local variable that has an annotation. -/
def annotatedLocal : List Char := "class A \x7b void m() \x7b @B(1) int x; \x7d \x7d".toList

/-- The value of the annotation of a local variable is an expression that a walk does not meet. -/
theorem not_lists_parts_annotatedLocal : (parseUnit annotatedLocal 0).errors = [] ∧
    ¬ Node.Lists Node.parts ((parseUnit annotatedLocal 0).unit.types.map .typeDecl)
      ((parseUnit annotatedLocal 0).unit.walk.filterMap Label.code?) := by
  refine ⟨by decide +kernel, fun ⟨paths, _, hpaths, hfound⟩ => ?_⟩
  -- two paths lead to code: one to the declaration, and one on to the value of its annotation
  have hcode : ∀ path ∈ [[0, 0, 0, 0], [0, 0, 0, 0, 0, 0, 0]], (Node.reached Node.parts
      ((parseUnit annotatedLocal 0).unit.types.map .typeDecl) path).any Node.isCode = true := by
    decide +kernel
  have hmem : ∀ path ∈ [[0, 0, 0, 0], [0, 0, 0, 0, 0, 0, 0]], path ∈ paths :=
    fun path hpath => (hpaths path).mpr ((Option.any_eq_true _ _).mp (hcode path hpath))
  -- but only the declaration is met
  have hone : paths.length = 1 := by
    have hlength := congrArg List.length hfound
    rw [List.length_map, List.length_map] at hlength
    rw [hlength]
    decide +kernel
  obtain ⟨path, rfl⟩ := List.length_eq_one_iff.mp hone
  have hfirst := List.mem_singleton.mp (hmem [0, 0, 0, 0] (by decide))
  have hsecond := List.mem_singleton.mp (hmem [0, 0, 0, 0, 0, 0, 0] (by decide))
  exact absurd (hfirst.trans hsecond.symm) (by decide)

end JavaGraft

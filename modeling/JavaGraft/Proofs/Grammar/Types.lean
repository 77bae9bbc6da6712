import JavaGraft.Grammar.Modifiers
import JavaGraft.Proofs.Grammar.Parallel

/-!
# Two runs of the rules for types, annotations and modifiers

Given parsers for the recursive parts whose two runs correspond, so do those of each rule. Each
proof goes through its rule from one step to the next.
-/

namespace JavaGraft

namespace Correspondence

/-- The recursive parts of two grammars have corresponding runs. -/
structure Respects (c : Correspondence) (g g' : Rules) : Prop where
  rounds : c.SameRounds g.rounds g'.rounds
  expr : ∀ power, c.Parallel (c.Same Expr.relabeled) (g.expr power) (g'.expr power)
  type : c.Parallel (c.Same TypeExpr.relabeled) g.type g'.type
  annot : c.Parallel (c.Same Annot.relabeled) g.annot g'.annot
  element : c.Parallel (c.Same Element.relabeled) g.element g'.element
  block : c.Parallel (c.Same Block.relabeled) g.block g'.block
  stmt : c.Parallel (c.Same Stmt.relabeled) g.stmt g'.stmt
  classBody : ∀ name, c.Parallel (c.SameList Member.relabeled)
    (g.classBody name) (g'.classBody name)
  typeDecl : ∀ m m', c.Same Modifiers.relabeled m m' →
    c.Parallel (c.Same TypeDecl.relabeled) (g.typeDecl m) (g'.typeDecl m')

theorem respects_none (c : Correspondence) : c.Respects .none .none where
  rounds := .inl rfl
  expr _ := .exhausted
  type := .exhausted
  annot := .exhausted
  element := .exhausted
  block := .exhausted
  stmt := .exhausted
  classBody _ := .exhausted
  typeDecl _ _ _ := .exhausted

/-- Where the first grammar is exhausted at once, the second one can be any with wider bounds. -/
theorem respects_none_left {c : Correspondence} (h : c.wider) (g : Rules) :
    c.Respects .none g where
  rounds := .inr ⟨h, Nat.zero_le _⟩
  expr _ := .exhausted_left h
  type := .exhausted_left h
  annot := .exhausted_left h
  element := .exhausted_left h
  block := .exhausted_left h
  stmt := .exhausted_left h
  classBody _ := .exhausted_left h
  typeDecl _ _ _ := .exhausted_left h

end Correspondence

namespace Grammar

open Correspondence

variable {c : Correspondence} {g g' : Rules}

/-! ### Names -/

theorem parallel_nextSegment? :
    c.Parallel (c.SameOption Ident.relabeled) nextSegment? nextSegment? := by
  unfold nextSegment?
  refine Parallel.get.bind fun s s' hs => Parallel.get.bind fun t t' ht => ?_
  refine .ite (by rw [hs.next.kind, (ht.nth 1).kind]) ?_ (.pure rfl)
  refine (Parallel.discard .advance).bind fun _ _ _ => Parallel.identifier.bind fun i i' hi => ?_
  exact .pure (by simp only [SameOption, Option.map_some, hi])

theorem parallel_path (hg : c.Respects g g') :
    c.Parallel (c.Same Path.relabeled) (path g) (path g') := by
  unfold path
  refine Parallel.identifier.bind fun first first' hfirst => ?_
  refine (Parallel.collect hg.rounds parallel_nextSegment?).bind fun others others' hothers => ?_
  refine (Parallel.spanFrom (Same.span Ident.span_relabeled hfirst)).bind fun s s' hs => .pure ?_
  simp only [Same, Path.relabeled, List.map_cons, hfirst, hothers, hs]

/-! ### Type arguments -/

variable (hg : c.Respects g g')

include hg

theorem parallel_typeArg : c.Parallel (c.Same TypeArg.relabeled) (typeArg g) (typeArg g') := by
  unfold typeArg
  refine (Parallel.eat? _).bind fun mark mark' hmark => ?_
  cases hmark with
  | none =>
    refine hg.type.bind fun t t' ht => .pure ?_
    simp only [Same, TypeArg.relabeled, ht]
  | some hmark =>
    refine .whether (.eat _) ?_ (.whether (.eat _) ?_ ?_)
    · refine hg.type.bind fun t t' ht => (Parallel.spanFrom hmark.span).bind fun s s' hs => .pure ?_
      simp only [Same, TypeArg.relabeled, ht, hs]
    · refine hg.type.bind fun t t' ht => (Parallel.spanFrom hmark.span).bind fun s s' hs => .pure ?_
      simp only [Same, TypeArg.relabeled, ht, hs]
    · refine (Parallel.spanFrom hmark.span).bind fun s s' hs => .pure ?_
      simp only [Same, TypeArg.relabeled, hs]

theorem parallel_typeArgs :
    c.Parallel (c.SameList TypeArg.relabeled) (typeArgs g) (typeArgs g') := by
  unfold typeArgs
  refine (Parallel.discard (.expect _)).bind fun _ _ _ => ?_
  refine .joining (R := c.SameList TypeArg.relabeled) (.check _) (.pure rfl)
    (.sepBy hg.rounds _ (parallel_typeArg hg)) fun as as' has => ?_
  exact Parallel.closeAngle.bind fun _ _ _ => .pure has

theorem parallel_typeArgs? :
    c.Parallel (c.SameList TypeArg.relabeled) (typeArgs? g) (typeArgs? g') :=
  .whether (.check _) (parallel_typeArgs hg) (.pure rfl)

theorem parallel_bounds :
    c.Parallel (c.SameList TypeExpr.relabeled) (bounds g) (bounds g') :=
  .whether (.eat _) (.sepBy hg.rounds _ hg.type) (.pure rfl)

theorem parallel_typeParam :
    c.Parallel (c.Same TypeParam.relabeled) (typeParam g) (typeParam g') := by
  unfold typeParam
  refine Parallel.identifier.bind fun i i' hi => (parallel_bounds hg).bind fun ts ts' hts => ?_
  refine (Parallel.spanFrom (Same.span Ident.span_relabeled hi)).bind fun s s' hs => .pure ?_
  simp only [Same, TypeParam.relabeled, hi, hts, hs]

theorem parallel_typeParams :
    c.Parallel (c.SameList TypeParam.relabeled) (typeParams g) (typeParams g') := by
  refine .whether (.eat _) ?_ (.pure rfl)
  refine (Parallel.sepBy hg.rounds _ (parallel_typeParam hg)).bind fun ps ps' hps => ?_
  exact Parallel.closeAngle.bind fun _ _ _ => .pure hps

/-! ### Types -/

theorem parallel_namedType :
    c.Parallel (fun x x' => c.SameList Ident.relabeled x.1 x'.1 ∧
      c.SameList TypeArg.relabeled x.2 x'.2) (namedType g) (namedType g') := by
  refine .iterate (B := c.SameList Ident.relabeled) (fun found found' hfound => ?_) hg.rounds rfl
  refine Parallel.identifier.bind fun i i' hi => (parallel_typeArgs? hg).bind fun as as' has => ?_
  refine Parallel.get.bind fun s s' hs => Parallel.get.bind fun t t' ht => ?_
  refine .ite (by rw [hs.next.kind, (ht.nth 1).kind]) ?_ ?_
  · exact (Parallel.discard .advance).bind fun _ _ _ => .pure (.inl (Parallel.same_cons hi hfound))
  · exact .pure (.inr ⟨Parallel.same_reverse (Parallel.same_cons hi hfound), has⟩)

theorem parallel_plainType :
    c.Parallel (c.Same TypeExpr.relabeled) (plainType g) (plainType g') := by
  unfold plainType
  refine Parallel.peek.bind fun t t' ht => ?_
  simp only [ht.kind, ht.text]
  cases primitiveOf? t'.kind with
  | some p =>
    refine (Parallel.discard .advance).bind fun _ _ _ => .pure ?_
    simp only [Same, TypeExpr.relabeled, TypeBase.relabeled, TypeArg.allRelabeled, ht.span]
  | none =>
    refine .ite .rfl (.rejectNext _) ?_
    refine Parallel.get.bind fun s s' hs => ?_
    refine .ite (by rw [(hs.nth 1).kind]) ?_ ?_
    · refine (Parallel.discard .advance).bind fun _ _ _ => .pure ?_
      simp only [Same, TypeExpr.relabeled, TypeBase.relabeled, TypeArg.allRelabeled, ht.span]
    · refine (parallel_namedType hg).bind fun x x' hx => ?_
      refine (Parallel.spanFrom ht.span).bind fun s s' hs => .pure ?_
      simp only [Same, TypeExpr.relabeled, TypeBase.relabeled, Path.relabeled,
        TypeArg.allRelabeled_eq_map, hx.1, hx.2, hs]

theorem parallel_annot? :
    c.Parallel (c.SameOption Annot.relabeled) (annot? g) (annot? g') := by
  unfold annot?
  refine Parallel.get.bind fun s s' hs => Parallel.get.bind fun t t' ht => ?_
  refine .ite (by rw [hs.next.kind, (ht.nth 1).kind]) ?_ (.pure rfl)
  exact hg.annot.bind fun a a' ha => .pure (congrArg some ha)

omit hg in
/-- Types that correspond still do with the same brackets and corresponding spans. -/
theorem same_withDims {t t' : TypeExpr} (ht : c.Same TypeExpr.relabeled t t') (n : Nat)
    {s s' : Span} (hs : c.SameSpan s s') :
    c.Same TypeExpr.relabeled { t with dims := n, span := s }
      { t' with dims := n, span := s' } := by
  cases t
  cases t'
  simp only [Same, TypeExpr.relabeled, TypeExpr.mk.injEq] at ht ⊢
  exact ⟨ht.1, ht.2.1, trivial, hs⟩

theorem parallel_type : c.Parallel (c.Same TypeExpr.relabeled) (type g) (type g') := by
  unfold type
  refine (Parallel.discard (.collect hg.rounds (parallel_annot? hg))).bind fun _ _ _ => ?_
  refine (parallel_plainType hg).bind fun t t' ht => Parallel.dims.bind fun n n' hn => ?_
  refine .ite (by rw [hn]) (.pure ht) ?_
  refine (Parallel.spanFrom (Same.span TypeExpr.span_relabeled ht)).bind fun s s' hs => .pure ?_
  subst hn
  exact same_withDims ht n hs

theorem parallel_typesBehind (word : Keyword) :
    c.Parallel (c.SameList TypeExpr.relabeled) (typesBehind g word) (typesBehind g' word) :=
  .whether (.eat _) (.sepBy hg.rounds _ hg.type) (.pure rfl)

/-! ### Annotations -/

theorem parallel_elementList :
    c.Parallel (c.Same Element.relabeled) (elementList g) (elementList g') := by
  unfold elementList
  refine (Parallel.expect _).bind fun t t' ht => ?_
  refine (Parallel.sepUntil hg.rounds _ _ hg.element).bind fun es es' hes => ?_
  refine (Parallel.expect _).bind fun u u' hu => .pure ?_
  simp only [Same, Element.relabeled, Element.allRelabeled_eq_map, hes, ht.span.merge hu.span]

theorem parallel_element : c.Parallel (c.Same Element.relabeled) (element g) (element g') := by
  unfold element
  refine Parallel.peek.bind fun t t' ht => ?_
  rw [ht.kind]
  split
  · refine hg.annot.bind fun a a' ha => .pure ?_
    simp only [Same, Element.relabeled, ha]
  · exact parallel_elementList hg
  · refine (hg.expr _).bind fun e e' he => .pure ?_
    simp only [Same, Element.relabeled, he]

theorem parallel_namedArg :
    c.Parallel (c.Same AnnotArg.relabeled) (namedArg g) (namedArg g') := by
  unfold namedArg
  refine Parallel.identifier.bind fun i i' hi => ?_
  refine (Parallel.discard (.expect _)).bind fun _ _ _ => hg.element.bind fun v v' hv => ?_
  refine (Parallel.spanFrom (Same.span Ident.span_relabeled hi)).bind fun s s' hs => .pure ?_
  simp only [Same, AnnotArg.relabeled, Option.map_some, hi, hv, hs]

theorem parallel_annotArgs :
    c.Parallel (c.SameList AnnotArg.relabeled) (annotArgs g) (annotArgs g') := by
  unfold annotArgs
  refine Parallel.get.bind fun s s' hs => Parallel.get.bind fun t t' ht => ?_
  refine .ite (by rw [hs.next.kind, (ht.nth 1).kind]) (.sepBy hg.rounds _ (parallel_namedArg hg)) ?_
  refine .whether (.check _) (.pure rfl) (hg.element.bind fun v v' hv => .pure ?_)
  simp only [SameList, List.map_cons, List.map_nil, AnnotArg.relabeled, Option.map_none, hv,
    Same.span Element.span_relabeled hv]

theorem parallel_annot : c.Parallel (c.Same Annot.relabeled) (annot g) (annot g') := by
  unfold annot
  refine (Parallel.expect _).bind fun t t' ht => (parallel_path hg).bind fun p p' hp => ?_
  have hend : ∀ as as', c.SameList AnnotArg.relabeled as as' →
      c.Parallel (c.Same Annot.relabeled)
        (do return ⟨p, as, ← Parser.spanFrom t.span⟩)
        (do return ⟨p', as', ← Parser.spanFrom t'.span⟩) := by
    intro as as' has
    refine (Parallel.spanFrom ht.span).bind fun s s' hs => .pure ?_
    simp only [Same, Annot.relabeled, AnnotArg.allRelabeled_eq_map, hp, has, hs]
  refine .whether (.eat _) ?_ (hend _ _ rfl)
  refine (parallel_annotArgs hg).bind fun as as' has => ?_
  exact (Parallel.discard (.expect _)).bind fun _ _ _ => hend _ _ has

/-! ### Modifiers -/

/-- Modifiers found so far that correspond. -/
def SameFound (c : Correspondence) (x x' : Flags × List Annot) : Prop :=
  x.1 = x'.1 ∧ c.SameList Annot.relabeled x.2 x'.2

theorem parallel_modifierStep {x x' : Flags × List Annot} (hx : SameFound c x x') :
    c.Parallel (Sum.LiftRel (SameFound c) (SameFound c)) (modifierStep g x)
      (modifierStep g' x') := by
  obtain ⟨flags, annots⟩ := x
  obtain ⟨flags', annots'⟩ := x'
  obtain ⟨rfl, hannots⟩ := hx
  unfold modifierStep
  refine (parallel_annot? hg).bind fun a a' ha => ?_
  cases a <;> cases a' <;> simp only [SameOption, Option.map_some, Option.map_none, reduceCtorEq,
    Option.some.injEq] at ha
  · refine Parallel.peek.bind fun t t' ht => Parallel.get.bind fun s s' hs => ?_
    have hflag : modifierFlag? t (s.nth 1) = modifierFlag? t' (s'.nth 1) := by
      simp only [modifierFlag?, ht.kind, ht.text, (hs.nth 1).kind]
    rw [hflag]
    cases modifierFlag? t' (s'.nth 1) with
    | none => exact .pure (.inr ⟨rfl, Parallel.same_reverse hannots⟩)
    | some flag =>
      have hend : c.Parallel (Sum.LiftRel (SameFound c) (SameFound c))
          (pure (.inl (flags ||| flag, annots))) (pure (.inl (flags ||| flag, annots'))) :=
        .pure (.inl ⟨rfl, hannots⟩)
      refine (Parallel.discard .advance).bind fun _ _ _ => .ite .rfl ?_ hend
      refine (Parallel.record ?_).bind fun _ _ _ => hend
      simp only [Same, ParseError.relabeled, ParseFault.relabeled, ht.text, ht.span]
  · exact .pure (.inl ⟨rfl, Parallel.same_cons ha hannots⟩)

theorem parallel_modifiers :
    c.Parallel (c.Same Modifiers.relabeled) (modifiers g) (modifiers g') := by
  unfold modifiers
  refine Parallel.peek.bind fun t t' ht => ?_
  refine (Parallel.iterate (B := SameFound c) (fun x x' hx => parallel_modifierStep hg hx)
    hg.rounds ⟨rfl, rfl⟩).bind fun x x' hx => Parallel.get.bind fun s s' hs => .pure ?_
  obtain ⟨flags, annots⟩ := x
  obtain ⟨flags', annots'⟩ := x'
  obtain ⟨rfl, hannots⟩ := hx
  -- where spans do not matter the two runs may choose differently, and both choices are spans
  have hspan : c.SameSpan
      (if !s.consumed.isEmpty && t.span.offset ≤ s.previous.span.offset then
        t.span.merge s.previous.span else t.span.atStart)
      (if !s'.consumed.isEmpty && t'.span.offset ≤ s'.previous.span.offset then
        t'.span.merge s'.previous.span else t'.span.atStart) := by
    rcases hs.consumed with hany | hconsumed
    · exact hany _ _
    · have hempty : s.consumed.isEmpty = s'.consumed.isEmpty := by
        rw [Bool.eq_iff_iff, List.isEmpty_iff_length_eq_zero, List.isEmpty_iff_length_eq_zero,
          hconsumed.length_eq]
      simpa only [hempty] using sameSpan_of (c := c)
        (fun start last => if !s.consumed.isEmpty && start.offset ≤ last.offset
          then start.merge last else start.atStart) ht.span hs.previous
  simp only [Same, Modifiers.relabeled, Annot.allRelabeled_eq_map, hannots, Modifiers.mk.injEq,
    true_and]
  exact hspan

end Grammar

end JavaGraft

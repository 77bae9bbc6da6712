import JavaGraft.Grammar.Decl
import JavaGraft.Proofs.Grammar.Statements

/-!
# Two runs of the rules for declarations

The rules for members, types and whole source files have corresponding runs if the recursive parts
have.
-/

namespace JavaGraft.Grammar

open Correspondence

variable {c : Correspondence} {g g' : Rules} (hg : c.Respects g g')

include hg

/-! ### Members -/

theorem parallel_param : c.Parallel (c.Same Param.relabeled) (param g) (param g') := by
  unfold param
  refine Parallel.peek.bind fun t t' ht => (parallel_modifiers hg).bind fun m m' hm => ?_
  refine hg.type.bind fun type type' htype => (Parallel.eat _).bind fun v v' hv => ?_
  refine Parallel.identifier.bind fun i i' hi => Parallel.dims.bind fun n n' hn => ?_
  refine (Parallel.spanFrom ht.span).bind fun s s' hs => .pure ?_
  simp only [Same, Param.relabeled, TypeExpr.addDims_relabeled, hm, htype, hv, hi, hn, hs]

theorem parallel_params : c.Parallel (c.SameList Param.relabeled) (params g) (params g') := by
  unfold params
  refine (Parallel.discard (.expect _)).bind fun _ _ _ => ?_
  refine .joining (R := c.SameList Param.relabeled) (.check _) (.pure rfl)
    (.sepBy hg.rounds _ (parallel_param hg)) fun ps ps' hps => ?_
  exact (Parallel.discard (.expect _)).bind fun _ _ _ => .pure hps

theorem parallel_initializer :
    c.Parallel (c.Same Member.relabeled) (initializer g) (initializer g') := by
  unfold initializer
  refine Parallel.peek.bind fun t t' ht => (Parallel.eat _).bind fun st st' hst => ?_
  refine hg.block.bind fun b b' hb => (Parallel.spanFrom ht.span).bind fun s s' hs => .pure ?_
  simp only [Same, Member.relabeled, hst, hb, hs]

section

variable {m m' : Modifiers} {tps tps' : List TypeParam} {t t' : TypeExpr} {start start' : Span}
  (hm : c.Same Modifiers.relabeled m m') (htps : c.SameList TypeParam.relabeled tps tps')
  (ht : c.Same TypeExpr.relabeled t t') (hstart : c.SameSpan start start')

include hm hstart

include htps in
theorem parallel_constructor :
    c.Parallel (c.Same Member.relabeled) (constructor g m tps start)
      (constructor g' m' tps' start') := by
  unfold constructor
  refine Parallel.identifier.bind fun i i' hi => (parallel_params hg).bind fun ps ps' hps => ?_
  refine (parallel_typesBehind hg _).bind fun ts ts' hts => hg.block.bind fun b b' hb => ?_
  refine (Parallel.spanFrom hstart).bind fun s s' hs => .pure ?_
  simp only [Same, Member.relabeled, Param.allRelabeled_eq_map, hm, htps, hi, hps, hts, hb, hs]

include htps ht in
theorem parallel_method :
    c.Parallel (c.Same Member.relabeled) (method g m tps t start)
      (method g' m' tps' t' start') := by
  unfold method
  refine Parallel.identifier.bind fun i i' hi => (parallel_params hg).bind fun ps ps' hps => ?_
  refine Parallel.dims.bind fun n n' hn => (parallel_typesBehind hg _).bind fun ts ts' hts => ?_
  refine .joining (R := c.SameOption Element.relabeled) (.eat _) hg.element.wrap (.pure rfl)
    fun d d' hd => ?_
  refine .joining (R := c.SameOption Block.relabeled) (.eat _) (.pure rfl) hg.block.wrap
    fun b b' hb => ?_
  refine (Parallel.spanFrom hstart).bind fun s s' hs => .pure ?_
  simp only [Same, Member.relabeled, TypeExpr.addDims_relabeled, Param.allRelabeled_eq_map,
    Element.optionRelabeled_eq_map, Block.optionRelabeled_eq_map, hm, htps, ht, hn, hi, hps, hts,
    hd, hb, hs]

include ht in
theorem parallel_fields :
    c.Parallel (c.Same Member.relabeled) (fields g m t start) (fields g' m' t' start') := by
  unfold fields
  refine (parallel_varDeclarators hg).bind fun vs vs' hvs => ?_
  refine (Parallel.discard (.expect _)).bind fun _ _ _ => ?_
  refine (Parallel.spanFrom hstart).bind fun s s' hs => .pure ?_
  simp only [Same, Member.relabeled, VarDeclarator.allRelabeled_eq_map, hm, ht, hvs, hs]

theorem parallel_typedMember (typeName : String) :
    c.Parallel (c.Same Member.relabeled) (typedMember g typeName m start)
      (typedMember g' typeName m' start') := by
  unfold typedMember
  refine (parallel_typeParams hg).bind fun tps tps' htps => Parallel.peek.bind fun u u' hu => ?_
  refine Parallel.get.bind fun s s' hs => ?_
  refine .ite (by rw [hu.kind, hu.text, (hs.nth 1).kind])
    (parallel_constructor hg hm htps hstart) ?_
  refine hg.type.bind fun t t' ht => Parallel.get.bind fun s s' hs => ?_
  refine Parallel.get.bind fun r r' hr => ?_
  exact .ite (by rw [hs.next.kind, (hr.nth 1).kind]) (parallel_method hg hm htps ht hstart)
    (parallel_fields hg hm ht hstart)

end

theorem parallel_member (typeName : String) :
    c.Parallel (c.SameOption Member.relabeled) (member g typeName) (member g' typeName) := by
  unfold member
  refine Parallel.peek.bind fun t t' ht => .whether (.eat _) (.pure rfl) ?_
  refine Parallel.get.bind fun s s' hs => Parallel.get.bind fun r r' hr => ?_
  refine Parallel.get.bind fun q q' hq => .ite ?_ ?_ ?_
  · rw [hs.next.kind, hr.next.kind, (hq.nth 1).kind]
  · exact (parallel_initializer hg).bind fun m m' hm => .pure (congrArg some hm)
  · refine (parallel_modifiers hg).bind fun m m' hm => Parallel.peek.bind fun u u' hu => ?_
    refine .ite (by rw [hu.kind]) ?_ ?_
    · refine (hg.typeDecl m m' hm).bind fun d d' hd => .pure ?_
      simp only [SameOption, Option.map_some, Member.relabeled, hd]
    · refine (parallel_typedMember hg hm ht.span typeName).bind fun m m' hm => .pure ?_
      exact congrArg some hm

theorem parallel_members (typeName : String) :
    c.Parallel (c.SameList Member.relabeled) (members g typeName) (members g' typeName) :=
  .collectWhile hg.rounds (.before _) (.recovering (parallel_member hg typeName))

theorem parallel_classBody (typeName : String) :
    c.Parallel (c.SameList Member.relabeled) (classBody g typeName) (classBody g' typeName) := by
  unfold classBody
  refine (Parallel.discard (.expect _)).bind fun _ _ _ => ?_
  refine (parallel_members hg typeName).bind fun ms ms' hms => ?_
  exact (Parallel.discard (.expect _)).bind fun _ _ _ => .pure hms

/-! ### Types -/

theorem parallel_enumConstant :
    c.Parallel (c.Same EnumConstant.relabeled) (enumConstant g) (enumConstant g') := by
  unfold enumConstant
  refine Parallel.peek.bind fun t t' ht => ?_
  refine (Parallel.collect (f := Annot.relabeled) hg.rounds ?_).bind fun as as' has => ?_
  · refine .whether (.check _) ?_ (.pure rfl)
    exact hg.annot.bind fun a a' ha => .pure (congrArg some ha)
  refine Parallel.identifier.bind fun i i' hi => ?_
  refine .joining (R := c.SameList Expr.relabeled) (.check _) (parallel_arguments hg) (.pure rfl)
    fun es es' hes => .whether (.check _) ?_ ?_
  · refine (hg.classBody _).bind fun ms ms' hms => ?_
    refine (Parallel.spanFrom ht.span).bind fun s s' hs => .pure ?_
    simp only [Same, EnumConstant.relabeled, Annot.allRelabeled_eq_map, Expr.allRelabeled_eq_map,
      Member.allRelabeled_eq_map, has, hi, hes, hms, hs]
  · refine (Parallel.spanFrom ht.span).bind fun s s' hs => .pure ?_
    simp only [Same, EnumConstant.relabeled, Annot.allRelabeled_eq_map, Expr.allRelabeled_eq_map,
      has, hi, hes, hs]

theorem parallel_enumConstants :
    c.Parallel (c.SameList EnumConstant.relabeled) (enumConstants g) (enumConstants g') := by
  refine .iterate (B := c.SameList EnumConstant.relabeled) (fun found found' hfound => ?_)
    hg.rounds rfl
  refine (Parallel.kindAt 0).bind fun kind kind' hkind => ?_
  refine .ite (by rw [hkind]) (.pure (.inr (Parallel.same_reverse hfound))) ?_
  refine (parallel_enumConstant hg).bind fun k k' hk => .whether (.eat _) ?_ ?_
  · exact .pure (.inl (Parallel.same_cons hk hfound))
  · exact .pure (.inr (Parallel.same_reverse (Parallel.same_cons hk hfound)))

/-- Constants and members that correspond. -/
def SameBody (c : Correspondence) (x x' : List EnumConstant × List Member) : Prop :=
  c.SameList EnumConstant.relabeled x.1 x'.1 ∧ c.SameList Member.relabeled x.2 x'.2

theorem parallel_enumBody (typeName : String) :
    c.Parallel (SameBody c) (enumBody g typeName) (enumBody g' typeName) := by
  unfold enumBody
  refine (Parallel.discard (.expect _)).bind fun _ _ _ => ?_
  refine (parallel_enumConstants hg).bind fun cs cs' hcs => ?_
  refine .joining (R := c.SameList Member.relabeled) (.eat _) (parallel_members hg typeName)
    (.pure rfl) fun ms ms' hms => ?_
  exact (Parallel.discard (.expect _)).bind fun _ _ _ => .pure ⟨hcs, hms⟩

omit hg in
theorem parallel_typeKind : c.Parallel Eq typeKind typeKind := by
  unfold typeKind
  refine Parallel.get.bind fun s s' hs => ?_
  simp only [hs.next.kind, (hs.nth 1).kind]
  split
  · exact (Parallel.discard .advance).bind fun _ _ _ => .pure rfl
  · exact (Parallel.discard .advance).bind fun _ _ _ => .pure rfl
  · exact (Parallel.discard .advance).bind fun _ _ _ => .pure rfl
  · refine .ite .rfl ?_ (.rejectNext _)
    refine (Parallel.discard .advance).bind fun _ _ _ => ?_
    exact (Parallel.discard .advance).bind fun _ _ _ => .pure rfl
  · exact .rejectNext _

/-- Supertypes that correspond. -/
def SameSupertypes (c : Correspondence) (x x' : Option TypeExpr × List TypeExpr) : Prop :=
  c.SameOption TypeExpr.relabeled x.1 x'.1 ∧ c.SameList TypeExpr.relabeled x.2 x'.2

theorem parallel_supertypes (kind : TypeKind) :
    c.Parallel (SameSupertypes c) (supertypes g kind) (supertypes g' kind) := by
  cases kind with
  | classType =>
    refine .joining (R := c.SameOption TypeExpr.relabeled) (.eat _) hg.type.wrap (.pure rfl)
      fun t t' ht => ?_
    exact (parallel_typesBehind hg _).bind fun ts ts' hts => .pure ⟨ht, hts⟩
  | interfaceType =>
    exact (parallel_typesBehind hg _).bind fun ts ts' hts => .pure ⟨rfl, hts⟩
  | enumType => exact (parallel_typesBehind hg _).bind fun ts ts' hts => .pure ⟨rfl, hts⟩
  | annotType => exact .pure ⟨rfl, rfl⟩

theorem parallel_typeDecl {m m' : Modifiers} (hm : c.Same Modifiers.relabeled m m') :
    c.Parallel (c.Same TypeDecl.relabeled) (typeDecl g m) (typeDecl g' m') := by
  have hspan : c.SameSpan m.span m'.span := Same.span Modifiers.span_relabeled hm
  unfold typeDecl
  refine Parallel.peek.bind fun t t' ht => parallel_typeKind.bind fun kind kind' hkind => ?_
  refine Parallel.identifier.bind fun i i' hi => ?_
  refine (parallel_typeParams hg).bind fun tps tps' htps => ?_
  subst hkind
  refine (parallel_supertypes hg kind).bind fun x x' hx => ?_
  -- the span starts at the modifiers of both, or at the word of both
  have hstart : c.SameSpan (if m.span.isEmpty then t.span else m.span)
      (if m'.span.isEmpty then t'.span else m'.span) :=
    sameSpan_of (fun first span => if span.isEmpty then first else span) ht.span hspan
  have hname : i.name = i'.name := by
    simpa only [Ident.name_relabeled] using congrArg Ident.name hi
  have hend : ∀ y y', SameBody c y y' →
      c.Parallel (c.Same TypeDecl.relabeled)
        (do return ⟨m, kind, i, tps, x.1, x.2, y.1, y.2,
          ← Parser.spanFrom (if m.span.isEmpty then t.span else m.span)⟩)
        (do return ⟨m', kind, i', tps', x'.1, x'.2, y'.1, y'.2,
          ← Parser.spanFrom (if m'.span.isEmpty then t'.span else m'.span)⟩) := by
    intro y y' hy
    refine (Parallel.spanFrom hstart).bind fun s s' hs => .pure ?_
    simp only [Same, TypeDecl.relabeled, EnumConstant.allRelabeled_eq_map,
      Member.allRelabeled_eq_map, hm, hi, htps, hx.1, hx.2, hy.1, hy.2, hs]
  rw [← hname]
  refine .ite .rfl ((parallel_enumBody hg _).bind hend) ?_
  exact (hg.classBody _).bind fun ms ms' hms => hend ([], ms) ([], ms') ⟨rfl, hms⟩

/-! ### Source files -/

theorem parallel_package : c.Parallel (c.Same Path.relabeled) (package g) (package g') := by
  unfold package
  refine (Parallel.discard (.expect _)).bind fun _ _ _ => (parallel_path hg).bind fun p p' hp => ?_
  exact (Parallel.discard (.expect _)).bind fun _ _ _ => .pure hp

theorem parallel_importSegments :
    c.Parallel (fun x x' => c.SameList Ident.relabeled x.1 x'.1 ∧ x.2 = x'.2) (importSegments g)
      (importSegments g') := by
  unfold importSegments
  refine Parallel.identifier.bind fun first first' hfirst => ?_
  refine .iterate (B := c.SameList Ident.relabeled) (fun found found' hfound => ?_) hg.rounds
    (Parallel.same_cons hfirst rfl)
  refine .whether (.eat _) (.whether (.eat _) ?_ ?_) ?_
  · exact .pure (.inr ⟨Parallel.same_reverse hfound, rfl⟩)
  · exact Parallel.identifier.bind fun i i' hi => .pure (.inl (Parallel.same_cons hi hfound))
  · exact .pure (.inr ⟨Parallel.same_reverse hfound, rfl⟩)

theorem parallel_importDecl :
    c.Parallel (c.Same ImportDecl.relabeled) (importDecl g) (importDecl g') := by
  unfold importDecl
  refine (Parallel.expect _).bind fun t t' ht => (Parallel.eat _).bind fun st st' hst => ?_
  refine Parallel.peek.bind fun u u' hu => (parallel_importSegments hg).bind fun x x' hx => ?_
  refine (Parallel.spanFrom hu.span).bind fun s s' hs => ?_
  refine (Parallel.discard (.expect _)).bind fun _ _ _ => ?_
  refine (Parallel.spanFrom ht.span).bind fun r r' hr => .pure ?_
  simp only [Same, ImportDecl.relabeled, Path.relabeled, hx.1, hx.2, hst, hs, hr]

theorem parallel_topLevel :
    c.Parallel (c.SameOption TypeDecl.relabeled) (topLevel g) (topLevel g') := by
  unfold topLevel
  refine .whether (.eat _) (.pure rfl) ?_
  refine (parallel_modifiers hg).bind fun m m' hm => ?_
  exact (hg.typeDecl m m' hm).bind fun d d' hd => .pure (congrArg some hd)

theorem parallel_sourceUnit :
    c.Parallel (c.Same SourceUnit.relabeled) (sourceUnit g) (sourceUnit g') := by
  unfold sourceUnit
  refine Parallel.peek.bind fun t t' ht => ?_
  refine .joining (R := c.SameOption Path.relabeled) (.check _)
    (.recovering (parallel_package hg).wrap) (.pure rfl) fun p p' hp => ?_
  refine (Parallel.collectWhile hg.rounds (.check _)
    (.recovering (parallel_importDecl hg).wrap)).bind fun is is' his => ?_
  refine (Parallel.collectWhile hg.rounds ?_ (.recovering (parallel_topLevel hg))).bind
    fun ds ds' hds => ?_
  · exact Parallel.atEnd.bind fun b b' hb => .pure (by rw [hb])
  · refine (Parallel.spanFrom ht.span).bind fun s s' hs => .pure ?_
    simp only [Same, SourceUnit.relabeled, hp, his, hds, hs]

end JavaGraft.Grammar

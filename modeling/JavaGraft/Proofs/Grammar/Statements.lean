import JavaGraft.Grammar.Stmt
import JavaGraft.Proofs.Grammar.Expressions

/-!
# Two runs of the rules for statements

The rules for statements have corresponding runs if the recursive parts have. Recovery from an
error within a block skips the same tokens in both.
-/

namespace JavaGraft.Grammar

open Correspondence

variable {c : Correspondence} {g g' : Rules} (hg : c.Respects g g')

include hg

/-! ### Variables -/

theorem parallel_varDeclarator :
    c.Parallel (c.Same VarDeclarator.relabeled) (varDeclarator g) (varDeclarator g') := by
  unfold varDeclarator
  refine Parallel.identifier.bind fun i i' hi => Parallel.dims.bind fun n n' hn => ?_
  subst hn
  have hend : ∀ e e', c.SameOption Expr.relabeled e e' →
      c.Parallel (c.Same VarDeclarator.relabeled)
        (do return ⟨i, n, e, ← Parser.spanFrom i.span⟩)
        (do return ⟨i', n, e', ← Parser.spanFrom i'.span⟩) := by
    intro e e' he
    refine (Parallel.spanFrom (Same.span Ident.span_relabeled hi)).bind fun s s' hs => .pure ?_
    simp only [Same, VarDeclarator.relabeled, Expr.optionRelabeled_eq_map, hi, he, hs]
  refine .whether (.eat _) ?_ (hend _ _ rfl)
  refine (Parallel.check _).bind fun b b' hb => ?_
  refine (Parallel.wrap (.ite ?_ (parallel_arrayInit hg) (hg.expr 0))).bind hend
  rw [hb]

theorem parallel_varDeclarators :
    c.Parallel (c.SameList VarDeclarator.relabeled) (varDeclarators g) (varDeclarators g') :=
  .sepBy hg.rounds _ (parallel_varDeclarator hg)

section

variable {m m' : Modifiers} {start start' : Span} (hm : c.Same Modifiers.relabeled m m')
  (hstart : c.SameSpan start start')

include hm hstart

theorem parallel_openLocalVar :
    c.Parallel (c.Same Stmt.relabeled) (openLocalVar g m start) (openLocalVar g' m' start') := by
  unfold openLocalVar
  refine hg.type.bind fun t t' ht => (parallel_varDeclarators hg).bind fun vs vs' hvs => ?_
  refine (Parallel.spanFrom hstart).bind fun s s' hs => .pure ?_
  simp only [Same, Stmt.relabeled, VarDeclarator.allRelabeled_eq_map, hm, ht, hvs, hs]

theorem parallel_localVar :
    c.Parallel (c.Same Stmt.relabeled) (localVar g m start) (localVar g' m' start') := by
  unfold localVar
  refine hg.type.bind fun t t' ht => (parallel_varDeclarators hg).bind fun vs vs' hvs => ?_
  refine (Parallel.discard (.expect _)).bind fun _ _ _ => ?_
  refine (Parallel.spanFrom hstart).bind fun s s' hs => .pure ?_
  simp only [Same, Stmt.relabeled, VarDeclarator.allRelabeled_eq_map, hm, ht, hvs, hs]

end

theorem parallel_declaration :
    c.Parallel (c.Same Stmt.relabeled) (declaration g) (declaration g') := by
  unfold declaration
  refine Parallel.peek.bind fun t t' ht => (parallel_modifiers hg).bind fun m m' hm => ?_
  refine Parallel.peek.bind fun u u' hu => .ite (by rw [hu.kind]) ?_ ?_
  · refine (hg.typeDecl m m' hm).bind fun d d' hd => .pure ?_
    simp only [Same, Stmt.relabeled, hd]
  · exact parallel_localVar hg hm ht.span

/-! ### Simple statements -/

theorem parallel_condition : c.Parallel (c.Same Expr.relabeled) (condition g) (condition g') := by
  unfold condition
  refine (Parallel.discard (.expect _)).bind fun _ _ _ => (hg.expr 0).bind fun e e' he => ?_
  exact (Parallel.discard (.expect _)).bind fun _ _ _ => .pure he

theorem parallel_exprStmt : c.Parallel (c.Same Stmt.relabeled) (exprStmt g) (exprStmt g') := by
  unfold exprStmt
  refine Parallel.peek.bind fun t t' ht => (hg.expr 0).bind fun e e' he => ?_
  refine (Parallel.discard (.expect _)).bind fun _ _ _ => ?_
  refine (Parallel.spanFrom ht.span).bind fun s s' hs => .pure ?_
  simp only [Same, Stmt.relabeled, he, hs]

theorem parallel_returning : c.Parallel (c.Same Stmt.relabeled) (returning g) (returning g') := by
  unfold returning
  refine (Parallel.expect _).bind fun t t' ht => ?_
  refine .joining (R := c.SameOption Expr.relabeled) (.check _) (.pure rfl) (hg.expr 0).wrap
    fun e e' he => ?_
  refine (Parallel.discard (.expect _)).bind fun _ _ _ => ?_
  refine (Parallel.spanFrom ht.span).bind fun s s' hs => .pure ?_
  simp only [Same, Stmt.relabeled, Expr.optionRelabeled_eq_map, he, hs]

omit hg in
theorem same_label {t t' : Option Token} (ht : Option.Rel c.SameToken t t') :
    c.SameOption Ident.relabeled (t.map fun t => ⟨t.text, t.span⟩)
      (t'.map fun t => ⟨t.text, t.span⟩) := by
  cases ht with
  | none => rfl
  | some h => simp only [SameOption, Option.map_some, Ident.relabeled, h.text, h.span]

omit hg in
theorem parallel_jump {build : Option Ident → Span → Stmt}
    (hbuild : ∀ ρ label span,
      (build label span).relabeled ρ = build (label.map (Ident.relabeled ρ)) (ρ.span span)) :
    c.Parallel (c.Same Stmt.relabeled) (jump build) (jump build) := by
  unfold jump
  refine Parallel.advance.bind fun t t' ht => (Parallel.eat? _).bind fun l l' hl => ?_
  refine (Parallel.discard (.expect _)).bind fun _ _ _ => ?_
  refine (Parallel.spanFrom ht.span).bind fun s s' hs => .pure ?_
  rw [Same, hbuild, hbuild, same_label hl, hs]

theorem parallel_throwing : c.Parallel (c.Same Stmt.relabeled) (throwing g) (throwing g') := by
  unfold throwing
  refine (Parallel.expect _).bind fun t t' ht => (hg.expr 0).bind fun e e' he => ?_
  refine (Parallel.discard (.expect _)).bind fun _ _ _ => ?_
  refine (Parallel.spanFrom ht.span).bind fun s s' hs => .pure ?_
  simp only [Same, Stmt.relabeled, he, hs]

theorem parallel_assertion : c.Parallel (c.Same Stmt.relabeled) (assertion g) (assertion g') := by
  unfold assertion
  refine (Parallel.expect _).bind fun t t' ht => (hg.expr 0).bind fun e e' he => ?_
  refine .joining (R := c.SameOption Expr.relabeled) (.eat _) (hg.expr 0).wrap (.pure rfl)
    fun m m' hm => ?_
  refine (Parallel.discard (.expect _)).bind fun _ _ _ => ?_
  refine (Parallel.spanFrom ht.span).bind fun s s' hs => .pure ?_
  simp only [Same, Stmt.relabeled, Expr.optionRelabeled_eq_map, he, hm, hs]

/-! ### Statements with bodies -/

theorem parallel_block : c.Parallel (c.Same Block.relabeled) (block g) (block g') := by
  unfold block
  refine (Parallel.expect _).bind fun t t' ht => ?_
  refine (Parallel.collectWhile hg.rounds (.before _) (.recovering hg.stmt.wrap)).bind
    fun ss ss' hss => ?_
  refine (Parallel.expect _).bind fun u u' hu => .pure ?_
  simp only [Same, Block.relabeled, Stmt.allRelabeled_eq_map, hss, ht.span.merge hu.span]

theorem parallel_ifStmt : c.Parallel (c.Same Stmt.relabeled) (ifStmt g) (ifStmt g') := by
  unfold ifStmt
  refine (Parallel.expect _).bind fun t t' ht => (parallel_condition hg).bind fun e e' he => ?_
  refine hg.stmt.bind fun a a' ha => .whether (.eat _) ?_ ?_
  · refine hg.stmt.bind fun b b' hb => (Parallel.spanFrom ht.span).bind fun s s' hs => .pure ?_
    simp only [Same, Stmt.relabeled, he, ha, hb, hs]
  · refine (Parallel.spanFrom ht.span).bind fun s s' hs => .pure ?_
    simp only [Same, Stmt.relabeled, he, ha, hs]

theorem parallel_whileStmt : c.Parallel (c.Same Stmt.relabeled) (whileStmt g) (whileStmt g') := by
  unfold whileStmt
  refine (Parallel.expect _).bind fun t t' ht => (parallel_condition hg).bind fun e e' he => ?_
  refine hg.stmt.bind fun a a' ha => (Parallel.spanFrom ht.span).bind fun s s' hs => .pure ?_
  simp only [Same, Stmt.relabeled, he, ha, hs]

theorem parallel_doStmt : c.Parallel (c.Same Stmt.relabeled) (doStmt g) (doStmt g') := by
  unfold doStmt
  refine (Parallel.expect _).bind fun t t' ht => hg.stmt.bind fun a a' ha => ?_
  refine (Parallel.discard (.expect _)).bind fun _ _ _ => ?_
  refine (parallel_condition hg).bind fun e e' he => ?_
  refine (Parallel.discard (.expect _)).bind fun _ _ _ => ?_
  refine (Parallel.spanFrom ht.span).bind fun s s' hs => .pure ?_
  simp only [Same, Stmt.relabeled, he, ha, hs]

section

variable {m m' : Modifiers} {start start' : Span} (hm : c.Same Modifiers.relabeled m m')
  (hstart : c.SameSpan start start')

include hm hstart

theorem parallel_forEach :
    c.Parallel (c.Same Stmt.relabeled) (forEach g m start) (forEach g' m' start') := by
  unfold forEach
  refine hg.type.bind fun t t' ht => Parallel.identifier.bind fun i i' hi => ?_
  refine (Parallel.discard (.expect _)).bind fun _ _ _ => (hg.expr 0).bind fun e e' he => ?_
  refine (Parallel.discard (.expect _)).bind fun _ _ _ => hg.stmt.bind fun a a' ha => ?_
  refine (Parallel.spanFrom hstart).bind fun s s' hs => .pure ?_
  simp only [Same, Stmt.relabeled, hm, ht, hi, he, ha, hs]

theorem parallel_forInit (declares : Bool) :
    c.Parallel (c.SameList Stmt.relabeled) (forInit g declares m start)
      (forInit g' declares m' start') := by
  unfold forInit
  refine .ite .rfl ?_ (.whether (.check _) (.pure rfl) ?_)
  · refine (parallel_openLocalVar hg hm hstart).bind fun a a' ha => .pure ?_
    simp only [SameList, List.map_cons, List.map_nil, ha]
  · refine (Parallel.sepBy hg.rounds _ (hg.expr 0)).bind fun es es' hes => .pure ?_
    have hmap : ∀ (ρ : Relabeling) (es : List Expr),
        (es.map fun e => Stmt.expr e e.span).map (Stmt.relabeled ρ)
          = (es.map (Expr.relabeled ρ)).map fun e => Stmt.expr e e.span := by
      intro ρ es
      simp only [List.map_map, Function.comp_def, Stmt.relabeled, Expr.span_relabeled]
    rw [SameList, hmap, hmap, hes]

theorem parallel_forLoop (declares : Bool) {start₂ start₂' : Span}
    (hstart₂ : c.SameSpan start₂ start₂') :
    c.Parallel (c.Same Stmt.relabeled) (forLoop g declares m start start₂)
      (forLoop g' declares m' start' start₂') := by
  unfold forLoop
  refine (parallel_forInit hg hm hstart declares).bind fun i i' hi => ?_
  refine (Parallel.discard (.expect _)).bind fun _ _ _ => ?_
  refine .joining (R := c.SameOption Expr.relabeled) (.check _) (.pure rfl) (hg.expr 0).wrap
    fun e e' he => ?_
  refine (Parallel.discard (.expect _)).bind fun _ _ _ => ?_
  refine .joining (R := c.SameList Expr.relabeled) (.check _) (.pure rfl)
    (.sepBy hg.rounds _ (hg.expr 0)) fun us us' hus => ?_
  refine (Parallel.discard (.expect _)).bind fun _ _ _ => hg.stmt.bind fun a a' ha => ?_
  refine (Parallel.spanFrom hstart₂).bind fun s s' hs => .pure ?_
  simp only [Same, Stmt.relabeled, Stmt.allRelabeled_eq_map, Expr.allRelabeled_eq_map,
    Expr.optionRelabeled_eq_map, hi, he, hus, ha, hs]

end

omit hg in
/-- Modifiers that correspond are there on both sides or on neither. -/
theorem same_flags {m m' : Modifiers} (hm : c.Same Modifiers.relabeled m m') :
    m.flags = m'.flags ∧ m.annots.isEmpty = m'.annots.isEmpty := by
  cases m
  cases m'
  simp only [Same, Modifiers.relabeled, Annot.allRelabeled_eq_map, Modifiers.mk.injEq] at hm
  exact ⟨hm.1, SameList.isEmpty hm.2.1⟩

theorem parallel_forStmt : c.Parallel (c.Same Stmt.relabeled) (forStmt g) (forStmt g') := by
  unfold forStmt
  refine (Parallel.expect _).bind fun t t' ht => (Parallel.discard (.expect _)).bind fun _ _ _ => ?_
  refine Parallel.peek.bind fun u u' hu => (parallel_modifiers hg).bind fun m m' hm => ?_
  refine Parallel.get.bind fun s s' hs => ?_
  simp only [(same_flags hm).1, (same_flags hm).2, Lookahead.isVarDecl_congr hs.ahead,
    Lookahead.isElementLoop_congr hs.ahead]
  exact .ite .rfl (parallel_forEach hg hm ht.span) (parallel_forLoop hg hm hu.span _ ht.span)

theorem parallel_resource : c.Parallel (c.Same Stmt.relabeled) (resource g) (resource g') := by
  unfold resource
  refine Parallel.peek.bind fun t t' ht => (parallel_modifiers hg).bind fun m m' hm => ?_
  refine Parallel.get.bind fun s s' hs => ?_
  refine .ite ?_ (parallel_openLocalVar hg hm ht.span) ?_
  · rw [(same_flags hm).1, Lookahead.isVarDecl_congr hs.ahead]
  · refine (hg.expr 0).bind fun e e' he => .pure ?_
    simp only [Same, Stmt.relabeled, he, Same.span Expr.span_relabeled he]

theorem parallel_catchClause? :
    c.Parallel (c.SameOption CatchClause.relabeled) (catchClause? g) (catchClause? g') := by
  unfold catchClause?
  refine (Parallel.eat? _).bind fun t t' ht => ?_
  cases ht with
  | none => exact .pure rfl
  | some ht =>
    refine (Parallel.discard (.expect _)).bind fun _ _ _ => ?_
    refine (parallel_modifiers hg).bind fun m m' hm => ?_
    refine (Parallel.sepBy hg.rounds _ hg.type).bind fun ts ts' hts => ?_
    refine Parallel.identifier.bind fun i i' hi => ?_
    refine (Parallel.discard (.expect _)).bind fun _ _ _ => hg.block.bind fun b b' hb => ?_
    refine (Parallel.spanFrom ht.span).bind fun s s' hs => .pure ?_
    simp only [SameOption, Option.map_some, CatchClause.relabeled, hm, hts, hi, hb, hs]

theorem parallel_tryRest {start start' : Span} (hstart : c.SameSpan start start')
    {rs rs' : List Stmt} (hrs : c.SameList Stmt.relabeled rs rs') :
    c.Parallel (c.Same Stmt.relabeled) (tryRest g start rs) (tryRest g' start' rs') := by
  unfold tryRest
  refine hg.block.bind fun b b' hb => ?_
  refine (Parallel.collect hg.rounds (parallel_catchClause? hg)).bind fun cs cs' hcs => ?_
  refine .joining (R := c.SameOption Block.relabeled) (.eat _) hg.block.wrap (.pure rfl)
    fun f f' hf => .ite ?_ (.rejectNext _) ?_
  · rw [SameList.isEmpty hcs, SameOption.isNone hf, SameList.isEmpty hrs]
  · refine (Parallel.spanFrom hstart).bind fun s s' hs => .pure ?_
    simp only [Same, Stmt.relabeled, Stmt.allRelabeled_eq_map, CatchClause.allRelabeled_eq_map,
      Block.optionRelabeled_eq_map, hrs, hb, hcs, hf, hs]

theorem parallel_tryStmt : c.Parallel (c.Same Stmt.relabeled) (tryStmt g) (tryStmt g') := by
  rw [tryStmt_eq, tryStmt_eq]
  refine (Parallel.expect _).bind fun t t' ht => ?_
  refine .whether (.eat _) ?_ (parallel_tryRest hg ht.span rfl)
  refine (Parallel.sepUntil hg.rounds _ _ (parallel_resource hg)).bind fun rs rs' hrs => ?_
  exact (Parallel.discard (.expect _)).bind fun _ _ _ => parallel_tryRest hg ht.span hrs

theorem parallel_caseLabel : c.Parallel (c.Same Expr.relabeled) (caseLabel g) (caseLabel g') := by
  unfold caseLabel
  refine Parallel.get.bind fun s s' hs => Parallel.get.bind fun t t' ht => ?_
  refine .ite (by simp only [(hs.nth 1).kind, ht.next.kind]) ?_ (hg.expr _)
  refine Parallel.identifier.bind fun i i' hi => .pure ?_
  simp only [Same, Expr.relabeled, hi]

theorem parallel_caseLabels :
    c.Parallel (c.SameList Expr.relabeled) (caseLabels g) (caseLabels g') := by
  refine .whether (.eat _) (.pure rfl) ?_
  exact (Parallel.discard (.expect _)).bind fun _ _ _ => .sepBy hg.rounds _ (parallel_caseLabel hg)

omit hg in
theorem parallel_caseGoesOn : c.Parallel Eq caseGoesOn caseGoesOn :=
  (Parallel.kindAt 0).bind fun _ _ hk => .pure (by rw [hk])

theorem parallel_switchCase :
    c.Parallel (c.Same SwitchCase.relabeled) (switchCase g) (switchCase g') := by
  unfold switchCase
  refine Parallel.peek.bind fun t t' ht => (parallel_caseLabels hg).bind fun ls ls' hls => ?_
  have hend : ∀ ss ss', c.SameList Stmt.relabeled ss ss' →
      c.Parallel (c.Same SwitchCase.relabeled) (do return ⟨ls, ss, ← Parser.spanFrom t.span⟩)
        (do return ⟨ls', ss', ← Parser.spanFrom t'.span⟩) := by
    intro ss ss' hss
    refine (Parallel.spanFrom ht.span).bind fun s s' hs => .pure ?_
    simp only [Same, SwitchCase.relabeled, Expr.allRelabeled_eq_map, Stmt.allRelabeled_eq_map,
      hls, hss, hs]
  refine .whether (.eat _) ?_ ?_
  · refine hg.stmt.bind fun a a' ha => hend _ _ ?_
    simp only [SameList, List.map_cons, List.map_nil, ha]
  · refine (Parallel.discard (.expect _)).bind fun _ _ _ => ?_
    exact (Parallel.collectWhile hg.rounds parallel_caseGoesOn (.recovering hg.stmt.wrap)).bind hend

theorem parallel_switch : c.Parallel (c.Same Stmt.relabeled) (switch g) (switch g') := by
  unfold switch
  refine (Parallel.expect _).bind fun t t' ht => (parallel_condition hg).bind fun e e' he => ?_
  refine (Parallel.discard (.expect _)).bind fun _ _ _ => ?_
  refine (Parallel.collectWhile hg.rounds (.before _) (parallel_switchCase hg).wrap).bind
    fun cs cs' hcs => ?_
  refine (Parallel.discard (.expect _)).bind fun _ _ _ => ?_
  refine (Parallel.spanFrom ht.span).bind fun s s' hs => .pure ?_
  simp only [Same, Stmt.relabeled, SwitchCase.allRelabeled_eq_map, he, hcs, hs]

theorem parallel_synchronizedStmt :
    c.Parallel (c.Same Stmt.relabeled) (synchronizedStmt g) (synchronizedStmt g') := by
  unfold synchronizedStmt
  refine (Parallel.expect _).bind fun t t' ht => (parallel_condition hg).bind fun e e' he => ?_
  refine hg.block.bind fun b b' hb => (Parallel.spanFrom ht.span).bind fun s s' hs => .pure ?_
  simp only [Same, Stmt.relabeled, he, hb, hs]

theorem parallel_labeled : c.Parallel (c.Same Stmt.relabeled) (labeled g) (labeled g') := by
  unfold labeled
  refine Parallel.identifier.bind fun i i' hi => (Parallel.discard (.expect _)).bind fun _ _ _ => ?_
  refine hg.stmt.bind fun a a' ha => ?_
  refine (Parallel.spanFrom (Same.span Ident.span_relabeled hi)).bind fun s s' hs => .pure ?_
  simp only [Same, Stmt.relabeled, hi, ha, hs]

/-! ### All statements -/

theorem parallel_varOrExpr : c.Parallel (c.Same Stmt.relabeled) (varOrExpr g) (varOrExpr g') := by
  unfold varOrExpr
  refine Parallel.get.bind fun s s' hs => ?_
  refine .ite (by rw [Lookahead.isVarDecl_congr hs.ahead]) ?_ (parallel_exprStmt hg)
  refine parallel_localVar hg ?_ hs.next.span
  simp only [Same, Modifiers.absent, Modifiers.relabeled, Annot.allRelabeled,
    sameSpan_refl (c := c) .absent]

theorem parallel_wordStmt (word : Keyword) :
    c.Parallel (c.Same Stmt.relabeled) (wordStmt g word) (wordStmt g' word) := by
  unfold wordStmt
  split
  · exact parallel_ifStmt hg
  · exact parallel_whileStmt hg
  · exact parallel_doStmt hg
  · exact parallel_forStmt hg
  · exact parallel_returning hg
  · exact parallel_jump fun _ _ _ => by simp only [Stmt.relabeled]
  · exact parallel_jump fun _ _ _ => by simp only [Stmt.relabeled]
  · exact parallel_throwing hg
  · exact parallel_tryStmt hg
  · exact parallel_switch hg
  · exact .whether (.checkNth _ _) (parallel_synchronizedStmt hg) (parallel_varOrExpr hg)
  · exact parallel_assertion hg
  all_goals first | exact parallel_declaration hg | exact parallel_varOrExpr hg

theorem parallel_stmt : c.Parallel (c.Same Stmt.relabeled) (stmt g) (stmt g') := by
  unfold stmt
  refine Parallel.peek.bind fun t t' ht => ?_
  rw [ht.kind]
  split
  · refine hg.block.bind fun b b' hb => .pure ?_
    simp only [Same, Stmt.relabeled, hb]
  · refine Parallel.advance.bind fun u u' hu => .pure ?_
    simp only [Same, Stmt.relabeled, hu.span]
  · exact parallel_declaration hg
  · exact .whether (.checkNth _ _) (parallel_labeled hg) (parallel_varOrExpr hg)
  · exact parallel_wordStmt hg _
  · exact parallel_varOrExpr hg

end JavaGraft.Grammar

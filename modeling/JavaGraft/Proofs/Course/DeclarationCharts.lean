import JavaGraft.Proofs.Course.StatementCharts
import JavaGraft.Proofs.Course.Units

/-!
# What the rules for declarations chart

With the rules for declarations, all rules of the grammar chart the places of their results
(`JavaGraft.charts_grammar`). So in every source file, with or without errors, the spots are in
increasing order: from left to right and from the outside to the inside, and those of one type
before those of the next (`JavaGraft.parseUnit_charted`).
-/

namespace JavaGraft

open Course

namespace Grammar

variable {source : List Char} {g : Rules} (h : g.Charts source)

include h

/-! ### Members -/

theorem charts_initializer : Charts source [] (initializer g) Member.spots := by
  unfold initializer
  refine .peeking fun t => .skip (eat rfl) fun isStatic => h.block.bind fun body => ?_
  exact .closing fun span => .pure rfl

theorem charts_constructor (m : Modifiers) (typeParams : List TypeParam) (start : Span) :
    Charts source [] (constructor g m typeParams start) Member.spots := by
  unfold constructor
  refine .skip identifier.stays fun name => .skip (gathers_params h.gathers).stays fun ps => ?_
  refine .skip (gathers_typesBehind h.gathers) fun throws => h.block.bind fun body => ?_
  exact .closing fun span => .pure (by simp [Member.spots])

theorem charts_method (m : Modifiers) (typeParams : List TypeParam) (returnType : TypeExpr)
    (start : Span) : Charts source [] (method g m typeParams returnType start) Member.spots := by
  unfold method
  have hdefault : Charts source [] (some <$> g.element) fun _ => [] :=
    (h.element.narrow fun _ => List.nil_sublist _).map fun _ => rfl
  have hbody : Charts source [] (some <$> g.block) Block.optionSpots := h.block.map fun _ => rfl
  refine .skip identifier.stays fun name => .skip (gathers_params h.gathers).stays fun ps => ?_
  refine .skip dims fun n => .skip (gathers_typesBehind h.gathers) fun throws => ?_
  refine .joinEat rfl _ hdefault (.pure rfl) fun default => ?_
  refine .joinEat rfl _ (.pure rfl) hbody fun body => .closing fun span => .pure ?_
  simp [Member.spots]

theorem charts_fields (m : Modifiers) (type : TypeExpr) (start : Span) :
    Charts source [] (fields g m type start) Member.spots := by
  unfold fields
  refine (charts_varDeclarators h).bind fun vars => .skip (expect rfl).discard.stays fun _ => ?_
  exact .closing fun span => .pure (by simp [Member.spots])

theorem charts_typedMember (typeName : String) (m : Modifiers) (start : Span) :
    Charts source [] (typedMember g typeName m start) Member.spots := by
  unfold typedMember
  refine .skip (gathers_typeParams h.gathers) fun typeParams => .peeking fun t => ?_
  refine .getting fun s => .ite (fun _ => charts_constructor h m typeParams start) fun _ => ?_
  refine .skip h.gathers.type.stays fun type => .getting fun s => .getting fun u => ?_
  exact .ite (fun _ => charts_method h m typeParams type start)
    fun _ => charts_fields h m type start

theorem charts_member (typeName : String) :
    Charts source [] (member g typeName) fun m => m.toList.flatMap Member.spots := by
  unfold member
  refine .peeking fun t => .ifEat rfl (.pure rfl) (.getting fun s => .getting fun u => ?_)
  refine .getting fun v => .ite (fun _ => ?_) fun _ => ?_
  · exact (charts_initializer h).bind fun m => .pure (by simp)
  · refine (charts_modifiers h).bind fun m => .peeking fun u => .ite (fun _ => ?_) fun _ => ?_
    · exact ChartsFrom.seq (h.typeDecl m) fun d => .pure (by simp [Member.spots])
    · refine .drop ?_ (List.nil_sublist _)
      exact (charts_typedMember h typeName m t.span).bind fun m => .pure (by simp)

theorem charts_members (typeName : String) :
    Charts source [] (members g typeName) Member.allSpots := by
  unfold members
  exact (Charts.collectWhile _ (before_eq _) (.recovering (gathers_member h.gathers typeName).stays
    (charts_member h typeName))).congr Member.allSpots_eq

theorem charts_classBody (typeName : String) :
    Charts source [] (classBody g typeName) Member.allSpots := by
  unfold classBody
  refine .skip (expect rfl).discard.stays fun _ => (charts_members h typeName).bind fun ms => ?_
  exact .skip (expect rfl).discard.stays fun _ => .pure rfl

/-! ### Types -/

theorem charts_enumConstant : Charts source [] (enumConstant g) EnumConstant.spots := by
  unfold enumConstant
  have hannot : Charts source [] (do
      if ← Parser.check Sign.atSign then return some (← g.annot) else return none)
      fun a => a.toList.flatMap fun _ => [] :=
    .ifNext (.pass h.annot fun _ => .pure rfl) (.pure rfl)
  refine .peeking fun t => .pass (Charts.collect hannot) fun annots => ?_
  refine .skip identifier.stays fun name => ?_
  refine .joinNext (Expr.allSpots .inside) (charts_arguments h)
    (.pure rfl) fun args => ?_
  refine .ifNext ((h.classBody "").bind fun body => .closing fun span => .pure ?_)
    (.closing fun span => .pure ?_) <;> simp [EnumConstant.spots, EnumConstant.allSpots]

theorem charts_enumConstants : Charts source [] (enumConstants g) EnumConstant.allSpots := by
  unfold enumConstants
  refine Charts.iterate (fun found => EnumConstant.allSpots found.reverse)
    (fun found => ?_) g.rounds []
  refine .kindAt_bind fun kind => .ite (fun _ => .pure rfl) fun _ => ?_
  refine (charts_enumConstant h).bind fun c => .ifEat rfl (.pure ?_) (.pure ?_) <;>
    simp [EnumConstant.allSpots_eq]

theorem charts_enumBody (typeName : String) : Charts source [] (enumBody g typeName) fun x =>
    EnumConstant.allSpots x.1 ++ Member.allSpots x.2 := by
  unfold enumBody
  refine .skip (expect rfl).discard.stays fun _ => (charts_enumConstants h).bind fun constants => ?_
  refine .joinEat rfl _ (charts_members h typeName) (.pure rfl) fun ms => ?_
  exact .skip (expect rfl).discard.stays fun _ => .pure rfl

theorem charts_typeDecl (m : Modifiers) :
    Charts source (Annot.allSpots m.annots) (typeDecl g m) TypeDecl.spots := by
  obtain ⟨flags, annots, place⟩ := m
  unfold typeDecl
  refine .peeking fun t => .skip gathers_typeKind fun kind => .skip identifier.stays fun name => ?_
  refine .skip (gathers_typeParams h.gathers) fun typeParams => ?_
  refine .skip (gathers_supertypes h.gathers kind) fun x => .ite (fun _ => ?_) fun _ => ?_
  · refine (charts_enumBody h _).bind fun body => .closing fun span => .pure ?_
    simp [TypeDecl.spots]
  · refine (h.classBody _).bind fun ms => .given (.closing fun span => .pure ?_)
    simp [TypeDecl.spots, EnumConstant.allSpots]

/-! ### Source files -/

theorem charts_sourceUnit :
    Charts source [] (sourceUnit g) fun u => u.types.flatMap TypeDecl.spots := by
  have htopLevel : Charts source [] (topLevel g) fun d => d.toList.flatMap TypeDecl.spots := by
    unfold topLevel
    refine .ifEat rfl (.pure rfl) ((charts_modifiers h).bind fun m => ?_)
    exact ChartsFrom.seq (h.typeDecl m) fun d => .pure (by simp)
  have hpackage : Moves source (some <$> package g) fun p => p.toList.map Path.extent :=
    gathers_package.map fun _ => rfl
  have himport : Moves source (some <$> importDecl g) fun d => d.toList.map ImportDecl.extent :=
    gathers_importDecl.map fun _ => rfl
  unfold sourceUnit
  refine .peeking fun t => .joinNext (fun _ => []) (.beyond hpackage.stays.recovering) (.pure rfl)
    fun name => ?_
  refine .skip (collectWhile _ (fun s => rfl) himport.stays.recovering.anywhere) fun imports => ?_
  refine (Charts.collectWhile _ (fun s => rfl) (.recovering
    (gathers_topLevel h.gathers).stays htopLevel)).bind fun types => ?_
  exact .closing fun span => .pure rfl

end Grammar

/-! ### All rules -/

theorem Rules.Charts.over {source : List Char} {g : Rules} (h : g.Charts source) (rounds : Nat) :
    (g.over rounds).Charts source where
  gathers := h.gathers.over rounds
  annot := Grammar.charts_annot h
  block := Grammar.charts_block h
  classBody := Grammar.charts_classBody h
  typeDecl := Grammar.charts_typeDecl h
  expr := Grammar.charts_expr h
  element := Grammar.charts_element h
  stmt := Grammar.charts_stmt h

/-- **All rules chart** the places of their results, at every depth. -/
theorem charts_grammar (source : List Char) (n : Nat) : (grammar n).Charts source := by
  induction n with
  | zero =>
    exact ⟨gathers_grammar source 0, .exhausted, .exhausted, fun _ => .exhausted,
      fun _ => .exhausted, fun _ => .exhausted, .exhausted, .exhausted⟩
  | succ n ih => exact ih.over n

/-- **In a source file the spots increase.** -/
theorem parseUnit_charted (source : List Char) (n : Nat) :
    ((parseUnit source n).unit.types.flatMap TypeDecl.spots).Pairwise (· < ·) := by
  obtain ⟨s', hrun, -⟩ := parseUnit_reads source n
  have hs := ParserState.regular_ofSource source n
  obtain ⟨-, -, hcharted⟩ := Grammar.charts_sourceUnit (charts_grammar source _) _ _ _ _ hs
    (ParserState.noted_ofSource source n) trivial (.nil _) hrun
  exact hcharted.increasing

end JavaGraft

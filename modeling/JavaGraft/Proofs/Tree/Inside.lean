import JavaGraft.Ast.Outline
import JavaGraft.Proofs.Tree.Extents

/-!
# Outlines along extents

The outline of a tree tells which nodes a walk through it meets, its extent where its nodes stand.
Both are made from the same tree and follow it from left to right. So whoever walks through an
outline goes along the places of the extent (`JavaGraft.Outline.Inside`), however deep that leads,
into lambdas and into the bodies of nested classes too. Some places are passed over, since an
extent has nodes for names and for whatever else an outline leaves out; and one may stay at a place
for a while, as a call stands where the expression stands that it is.

For the expressions of a member it follows that they stand in its code
(`JavaGraft.Member.exprs_inside`).
-/

namespace JavaGraft

/-! ### The labels of an outline -/

/-- The span of a constant. -/
def EnumConstant.span : EnumConstant → Span
  | plain _ _ _ s | withBody _ _ _ _ s => s

/-- The expression at a node, if there is one. -/
def Label.expr? : Label → Option Expr
  | .expr e => some e
  | _ => none

/-- The span of a node. The labels that only tell what kind of member or expression the node above
is, and that of a class body, have none of their own. -/
def Label.span? : Label → Option Span
  | .typeDecl d => some d.span
  | .annot a => some a.span
  | .constant c => some c.span
  | .member m => some m.span
  | .type t => some t.span
  | .block b => some b.span
  | .stmt s => some s.span
  | .expr e => some e.span
  | .call c => some c.span
  | .body _ | .field _ | .method _ | .constructor _ | .new _ | .lambda _ => none

namespace Outline

mutual

/-- The labels of an outline, from top to bottom and left to right. -/
def labels : Outline → List Label
  | .node l parts => l :: allLabels parts

/-- The same for several outlines. -/
def allLabels : List Outline → List Label
  | [] => []
  | o :: os => o.labels ++ allLabels os

end

theorem allLabels_nil : allLabels [] = [] := by rw [allLabels]

theorem allLabels_node (l : Label) (parts os : List Outline) :
    allLabels (.node l parts :: os) = l :: allLabels parts ++ allLabels os := by
  rw [allLabels, labels]

theorem allLabels_append (os os' : List Outline) :
    allLabels (os ++ os') = allLabels os ++ allLabels os' := by
  induction os with
  | nil => rw [allLabels_nil, List.nil_append, List.nil_append]
  | cons o os ih => rw [List.cons_append, allLabels, allLabels, ih, List.append_assoc]

mutual

/-- A walk that goes into every node meets all labels. -/
theorem labels_listing (depth : Nat) : ∀ o : Outline,
    (o.listing (fun _ => false) depth).map Prod.snd = o.labels
  | .node l parts => by
    rw [listing, labels, ← allLabels_listings (depth + 1) parts]
    rfl

theorem allLabels_listings (depth : Nat) : ∀ os : List Outline,
    (listings (fun _ => false) depth os).map Prod.snd = allLabels os
  | [] => allLabels_nil.symm
  | o :: os => by
    rw [listings, allLabels, List.map_append, labels_listing depth o, allLabels_listings depth os]

end

/-- The spans that are met on the way through outlines. -/
def allSpans (os : List Outline) : List Span := (allLabels os).filterMap Label.span?

/-- The expressions of outlines, from top to bottom and left to right. -/
def allExprs (os : List Outline) : List Expr := (allLabels os).filterMap Label.expr?

@[simp] theorem allExprs_nil : allExprs [] = [] := by
  rw [allExprs, allLabels_nil, List.filterMap_nil]

@[simp] theorem allExprs_node (l : Label) (parts os : List Outline) :
    allExprs (.node l parts :: os) = l.expr?.toList ++ (allExprs parts ++ allExprs os) := by
  rw [allExprs, allLabels_node, List.cons_append, List.filterMap_cons, List.filterMap_append]
  cases l.expr? <;> rfl

@[simp] theorem allExprs_append (os os' : List Outline) :
    allExprs (os ++ os') = allExprs os ++ allExprs os' := by
  rw [allExprs, allLabels_append, List.filterMap_append]
  rfl

@[simp] theorem allExprs_type (t : TypeExpr) (os : List Outline) :
    allExprs (t.outline :: os) = allExprs os := by
  rw [TypeExpr.outline, allExprs_node, allExprs_nil]
  rfl

@[simp] theorem allExprs_types {α : Type} (f : α → TypeExpr) (as : List α) :
    allExprs (as.map fun a => (f a).outline) = [] := by
  induction as with
  | nil => exact allExprs_nil
  | cons a as ih => rw [List.map_cons, allExprs_type, ih]

end Outline

/-- Spans are met **along** places, if one goes from the first of these to the last and may stay at
each for as long as one likes. -/
inductive Span.Along : List Span → List Span → Prop
  | done {places : List Span} : Along [] places
  | stay {s : Span} {spans places : List Span} (h : Along spans (s :: places)) :
      Along (s :: spans) (s :: places)
  | move {s : Span} {spans places : List Span} (h : Along spans places) :
      Along spans (s :: places)

namespace Span.Along

variable {spans spans' places places' : List Span} {s : Span}

theorem subset (h : Along spans places) : spans ⊆ places := by
  induction h with
  | done => exact List.nil_subset _
  | stay _ ih => exact List.cons_subset.mpr ⟨List.mem_cons_self, ih⟩
  | move _ ih => exact List.Subset.trans ih (List.subset_cons_self _ _)

theorem behind (h : Along spans places') : Along spans (places ++ places') := by
  induction places with
  | nil => exact h
  | cons s places ih => exact ih.move

theorem append (h : Along spans places) (h' : Along spans' places') :
    Along (spans ++ spans') (places ++ places') := by
  induction h with
  | done => exact h'.behind
  | stay _ ih => exact ih.stay
  | move _ ih => exact ih.move

/-- **What holds from place to place** holds from each span that is met to all later ones. -/
theorem pairwise {r : Span → Span → Prop} (hrefl : ∀ s, r s s) (h : Along spans places)
    (hplaces : places.Pairwise r) : spans.Pairwise r := by
  induction h with
  | done => exact .nil
  | @stay s spans places h ih =>
    refine List.pairwise_cons.mpr ⟨fun s' hs' => ?_, ih hplaces⟩
    rcases List.mem_cons.mp (h.subset hs') with rfl | hs'
    · exact hrefl s'
    · exact (List.pairwise_cons.mp hplaces).1 s' hs'
  | move _ ih => exact ih (List.pairwise_cons.mp hplaces).2

end Span.Along

/-! ### Outlines inside extents -/

/-- **The nodes of outlines are met along the places of extents.** -/
def Outline.Inside (os : List Outline) (xs : List Extent) : Prop :=
  Span.Along (Outline.allSpans os) (Extent.allPlaces xs)

namespace Outline.Inside

variable {os os' parts : List Outline} {xs ys : List Extent} {x : Extent} {l : Label}

theorem nil : Inside [] xs := by
  rw [Inside, allSpans, allLabels_nil]
  exact .done

theorem append (h : Inside os xs) (h' : Inside os' ys) : Inside (os ++ os') (xs ++ ys) := by
  rw [Inside, allSpans, allLabels_append, List.filterMap_append, Extent.allPlaces_append]
  exact Span.Along.append h h'

/-- Extents in front may be passed over. -/
theorem behind (h : Inside os ys) : Inside os (xs ++ ys) := nil.append h

/-- Extents at the end may be passed over. -/
theorem before (h : Inside os xs) : Inside os (xs ++ ys) := by
  simpa using h.append (nil : Inside [] ys)

/-- An extent in front may be passed over. -/
theorem skip (h : Inside os xs) : Inside os (x :: xs) :=
  show Inside os ([x] ++ xs) from h.behind

/-- Several outlines in one extent, and the rest in the others. -/
theorem join (h : Inside os [x]) (h' : Inside os' xs) : Inside (os ++ os') (x :: xs) :=
  h.append h'

/-- One outline in one extent, and the rest in the others. -/
theorem cons {o : Outline} (h : Inside [o] [x]) (h' : Inside os xs) :
    Inside (o :: os) (x :: xs) :=
  h.append h'

/-- A node of the extent around it all. -/
theorem under {s : Span} {call : Option Nat} (h : Inside os xs) :
    Inside os [.node s call xs] := by
  rw [Inside, Extent.allPlaces_cons, Extent.places_node, Extent.allPlaces_nil, List.append_nil]
  exact .move h

/-- A node of the outline that has no span of its own. -/
theorem node (hl : l.span? = none) (h : Inside parts xs) : Inside [.node l parts] xs := by
  rw [Inside, allSpans, allLabels_node, allLabels_nil, List.append_nil, List.filterMap_cons, hl]
  exact h

/-- A node of the outline at the place of the extent, in which what is below it is met. -/
theorem top (hl : l.span? = some x.span) (h : Inside parts [x]) : Inside [.node l parts] [x] := by
  obtain ⟨places, hx⟩ := x.exists_places
  have hplaces : Extent.allPlaces [x] = x.span :: places := by
    rw [Extent.allPlaces_cons, Extent.allPlaces_nil, List.append_nil, hx]
  rw [Inside, hplaces] at h ⊢
  rw [allSpans, allLabels_node, allLabels_nil, List.append_nil, List.filterMap_cons, hl]
  exact .stay h

/-- A node of the outline above what is met below the node of the extent. -/
theorem onto {s : Span} {call : Option Nat} (hl : l.span? = some s) (h : Inside parts xs) :
    Inside [.node l parts] [.node s call xs] := top hl h.under

/-- A type as written. -/
theorem type (t : TypeExpr) : Inside [t.outline] [t.extent] :=
  top (congrArg some t.span_extent.symm) nil

theorem types (ts : List TypeExpr) :
    Inside (ts.map TypeExpr.outline) (ts.map TypeExpr.extent) := by
  induction ts with
  | nil => exact nil
  | cons t ts ih => exact cons (type t) ih

end Outline.Inside

/-- The types of parameters. -/
theorem Param.types_inside (ps : List Param) :
    Outline.Inside (ps.map (·.type.outline)) (Param.extents ps) := by
  induction ps with
  | nil => exact .nil
  | cons p ps ih =>
    obtain ⟨m, t, varargs, i, s⟩ := p
    exact .cons (.under (.behind (.before (.type t)))) ih

open Outline.Inside

mutual

theorem Expr.inside : ∀ e : Expr, Outline.Inside [.node (.expr e) e.parts] [e.extent]
  | .literal .. | .name _ | .this _ | .super _ => onto rfl nil
  | .field e _ _ | .methodRef e _ _ => onto rfl (cons e.inside nil)
  | .unary _ e _ | .update e _ _ | .paren e _ => onto rfl e.inside
  | .call _ f as _ => top rfl (onto rfl (cons f.inside (Expr.allInside as)))
  | .new t as _ => onto rfl (node rfl (cons (type t) (Expr.allInside as)))
  | .newAnonymous t as ms _ =>
    onto rfl (node rfl (cons (type t)
      (append (Expr.allInside as) (node rfl (Member.allInside ms)))))
  | .newArray t ds _ => onto rfl (cons (type t) (Expr.allInside ds))
  | .newArrayOf t ds es _ _ =>
    onto rfl (cons (type t) (append (Expr.allInside ds) (under (Expr.allInside es))))
  | .arrayInit es _ => onto rfl (Expr.allInside es)
  | .index a b _ | .binary a _ b _ | .assign a _ b _ => onto rfl (cons a.inside b.inside)
  | .instanceOf e t _ _ => onto rfl (cons e.inside (cons (type t) nil))
  | .conditional e a b _ => onto rfl (cons e.inside (cons a.inside b.inside))
  | .cast t e _ => onto rfl (cons (type t) e.inside)
  | .classLit t _ => onto rfl (type t)
  | .lambda _ e _ => onto rfl (node rfl (behind e.inside))
  | .blockLambda _ b _ => onto rfl (node rfl (behind b.inside))

theorem Expr.allInside : ∀ es : List Expr, Outline.Inside (Expr.outlines es) (Expr.extents es)
  | [] => nil
  | e :: es => cons e.inside (Expr.allInside es)

theorem Block.inside : ∀ b : Block, Outline.Inside [.node (.block b) b.parts] [b.extent]
  | ⟨ss, _⟩ => onto rfl (Stmt.allInside ss)

theorem Stmt.inside : ∀ s : Stmt, Outline.Inside [.node (.stmt s) s.parts] [s.extent]
  | .block ⟨ss, _⟩ => top rfl (onto rfl (Stmt.allInside ss))
  | .localVar _ t vs _ => onto rfl (behind (cons (type t) (VarDeclarator.allInside vs)))
  | .localType d => top (congrArg some d.span_extent.symm) d.inside
  | .expr e _ | .throwing e _ | .ret (some e) _ => onto rfl e.inside
  | .ifThen e a _ | .whileLoop e a _ => onto rfl (cons e.inside a.inside)
  | .ifElse e a b _ => onto rfl (cons e.inside (cons a.inside b.inside))
  | .doLoop a e _ => onto rfl (cons a.inside e.inside)
  | .forLoop i none us a _ => by
    refine onto rfl ?_
    simpa [Stmt.parts, Expr.optionExtents] using
      append (Stmt.allInside i) (append (Expr.allInside us) a.inside)
  | .forLoop i (some e) us a _ => by
    refine onto rfl ?_
    simpa [Stmt.parts, Expr.optionExtents] using
      append (Stmt.allInside i) (cons e.inside (append (Expr.allInside us) a.inside))
  | .forEach _ t _ e a _ =>
    onto rfl (behind (cons (type t) (skip (cons e.inside a.inside))))
  | .ret none _ | .breakTo .. | .continueTo .. | .empty _ => onto rfl nil
  | .tryCatch rs b cs none _ => by
    refine onto rfl ?_
    simpa [Stmt.parts, Block.optionExtents] using
      append (Stmt.allInside rs) (cons b.inside (CatchClause.allInside cs))
  | .tryCatch rs b cs (some f) _ => by
    refine onto rfl ?_
    simpa [Stmt.parts, Block.optionExtents] using
      append (Stmt.allInside rs) (cons b.inside (append (CatchClause.allInside cs) f.inside))
  | .switch e cs _ => onto rfl (cons e.inside (SwitchCase.allInside cs))
  | .synchronized e b _ => onto rfl (cons e.inside b.inside)
  | .labeled _ a _ => onto rfl (skip a.inside)
  | .assertion e none _ => onto rfl (cons e.inside nil)
  | .assertion e (some m) _ => onto rfl (cons e.inside m.inside)

theorem Stmt.allInside : ∀ ss : List Stmt, Outline.Inside (Stmt.outlines ss) (Stmt.extents ss)
  | [] => nil
  | s :: ss => cons s.inside (Stmt.allInside ss)

theorem VarDeclarator.allInside : ∀ vs : List VarDeclarator,
    Outline.Inside (VarDeclarator.parts vs) (VarDeclarator.extents vs)
  | [] => nil
  | ⟨_, _, none, _⟩ :: vs => skip (VarDeclarator.allInside vs)
  | ⟨_, _, some e, _⟩ :: vs => cons (under (skip e.inside)) (VarDeclarator.allInside vs)

theorem CatchClause.allInside : ∀ cs : List CatchClause,
    Outline.Inside (CatchClause.parts cs) (CatchClause.extents cs)
  | [] => nil
  | ⟨_, ts, _, b, _⟩ :: cs => by
    simpa [CatchClause.parts, CatchClause.extents, CatchClause.extent] using
      join (under (behind (append (types ts) (skip b.inside)))) (CatchClause.allInside cs)

theorem SwitchCase.allInside : ∀ cs : List SwitchCase,
    Outline.Inside (SwitchCase.parts cs) (SwitchCase.extents cs)
  | [] => nil
  | ⟨ls, ss, _⟩ :: cs =>
    join (under (append (Expr.allInside ls) (Stmt.allInside ss))) (SwitchCase.allInside cs)

theorem AnnotArg.allInside : ∀ as : List AnnotArg,
    Outline.Inside (AnnotArg.parts as) (AnnotArg.extents as)
  | [] => nil
  | ⟨_, v, _⟩ :: as => join (under (behind v.inside)) (AnnotArg.allInside as)

theorem Element.inside : ∀ v : Element, Outline.Inside v.parts [v.extent]
  | .expr e => e.inside
  | .array vs _ => under (Element.allInside vs)
  | .annot ⟨_, as, _⟩ => onto rfl (skip (AnnotArg.allInside as))

theorem Element.allInside : ∀ vs : List Element,
    Outline.Inside (Element.allParts vs) (Element.extents vs)
  | [] => nil
  | v :: vs => join v.inside (Element.allInside vs)

theorem Annot.allInside : ∀ as : List Annot,
    Outline.Inside (Annot.outlines as) (Annot.extents as)
  | [] => nil
  | ⟨_, as, _⟩ :: rest => cons (onto rfl (skip (AnnotArg.allInside as))) (Annot.allInside rest)

theorem Modifiers.inside : ∀ m : Modifiers, Outline.Inside (Annot.outlines m.annots) m.extents
  | ⟨_, as, s⟩ => by
    rw [Modifiers.extents]
    split
    · exact Annot.allInside as
    · exact under (Annot.allInside as)

theorem TypeDecl.inside : ∀ d : TypeDecl, Outline.Inside [.node (.typeDecl d) d.parts] [d.extent]
  | ⟨⟨f, as, s⟩, _, _, _, sup, is, cs, ms, _⟩ => by
    have hbody : Outline.Inside [.node (.body ms) (Member.outlines ms)] (Member.extents ms) :=
      node rfl (Member.allInside ms)
    have hrest := append (types sup.toList) (append (types is)
      (append (EnumConstant.allInside cs) hbody))
    refine onto rfl ?_
    simpa [TypeDecl.parts] using append (Modifiers.inside ⟨f, as, s⟩) (skip (behind hrest))

theorem EnumConstant.allInside : ∀ cs : List EnumConstant,
    Outline.Inside (EnumConstant.outlines cs) (EnumConstant.extents cs)
  | [] => nil
  | .plain _ _ es _ :: cs =>
    cons (onto rfl (behind (skip (Expr.allInside es)))) (EnumConstant.allInside cs)
  | .withBody _ _ es ms _ :: cs =>
    cons (onto rfl (behind (skip (append (Expr.allInside es)
      (node rfl (Member.allInside ms)))))) (EnumConstant.allInside cs)

theorem Member.inside : ∀ m : Member, Outline.Inside [.node (.member m) m.parts] [m.extent]
  | .field _ t vs _ =>
    onto rfl (node rfl (behind (cons (type t) (VarDeclarator.allInside vs))))
  | .method _ _ t _ ps _ _ none _ =>
    onto rfl (node rfl (behind (behind (cons (type t) (skip
      (append (Param.types_inside ps) nil))))))
  | .method _ _ t _ ps _ _ (some b) _ =>
    onto rfl (node rfl (behind (behind (cons (type t) (skip
      (append (Param.types_inside ps) (behind (behind b.inside))))))))
  | .constructor _ _ _ ps _ b _ =>
    onto rfl (node rfl (behind (behind (skip
      (append (Param.types_inside ps) (behind b.inside))))))
  | .initializer _ ⟨ss, _⟩ _ => onto rfl (under (Stmt.allInside ss))
  | .type d => top (congrArg some d.span_extent.symm) d.inside

theorem Member.allInside : ∀ ms : List Member,
    Outline.Inside (Member.outlines ms) (Member.extents ms)
  | [] => nil
  | m :: ms => cons m.inside (Member.allInside ms)

end

/-- **A walk through a source file** goes along the places of its nodes. -/
theorem SourceUnit.inside (u : SourceUnit) : Outline.Inside u.outlines [u.extent] := by
  have htypes : ∀ ds : List TypeDecl, Outline.Inside
      (ds.map fun d => .node (.typeDecl d) d.parts) (ds.map TypeDecl.extent) := by
    intro ds
    induction ds with
    | nil => exact nil
    | cons d ds ih => exact cons d.inside ih
  exact under (behind (behind (htypes u.types)))

/-! ### The code of a member -/

/-- The extents of what a member is made of that can hold expressions: the variables of a field, the
statements of a body, or a type. -/
def Member.code : Member → List Extent
  | .field _ _ vs _ => VarDeclarator.extents vs
  | .method _ _ _ _ _ _ _ b _ => b.toList.flatMap fun b => Stmt.extents b.stmts
  | .constructor _ _ _ _ _ b _ | .initializer _ b _ => Stmt.extents b.stmts
  | .type d => [d.extent]

end JavaGraft

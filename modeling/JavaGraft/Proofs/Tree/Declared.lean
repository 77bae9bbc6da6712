import JavaGraft.Ast.Outline
import JavaGraft.Proofs.Tree.Charts

/-!
# The spots of one type

The calls in slots of a type's own code start at places of the source (`JavaGraft.Place.starts`),
which are some of the spots of the tree that the type stands in. This holds for every type that one
meets on the way through a source file, a type of the file, a member type, a local class or one in
the body of an anonymous class or of a constant: where its calls in slots start is found among the
spots of the file, in their order (`JavaGraft.SourceUnit.starts_sublist_spots`).
-/

namespace JavaGraft

/-! ### Places in the source -/

/-- Where the calls in slots start. -/
def Place.starts (xs : List (Place × Call)) : List Nat := (slots xs).map fun c => c.span.offset

namespace Place

@[simp] theorem starts_nil : starts [] = [] := rfl

@[simp] theorem starts_append (xs ys : List (Place × Call)) :
    starts (xs ++ ys) = starts xs ++ starts ys := by
  simp [starts]

@[simp] theorem starts_cons (p : Place) (c : Call) (xs : List (Place × Call)) :
    starts ((p, c) :: xs) = p.spot c.span ++ starts xs := by
  cases p <;> rfl

theorem starts_hidden {xs : List (Place × Call)} (h : slots xs = []) : starts xs = [] := by
  rw [starts, h, List.map_nil]

end Place

/-! ### The own code of a type

The calls in slots of the own code are listed with those of the code of other types left out. -/

@[simp] theorem Modifiers.starts_foreign (m : Modifiers) : Place.starts (m.calls .foreign) = [] :=
  Place.starts_hidden m.slots_foreign

@[simp] theorem Annot.starts_foreign (as : List Annot) :
    Place.starts (Annot.allCalls .foreign as) = [] := Place.starts_hidden (Annot.slots_foreign as)

@[simp] theorem TypeDecl.starts_foreign (d : TypeDecl) : Place.starts (d.calls .foreign) = [] :=
  Place.starts_hidden d.slots_foreign

@[simp] theorem Member.starts_foreign (ms : List Member) :
    Place.starts (Member.allCalls .foreign ms) = [] := Place.starts_hidden (Member.slots_foreign ms)

@[simp] theorem Param.starts_calls (ps : List Param) : Place.starts (Param.allCalls ps) = [] :=
  Place.starts_hidden (Param.slots_calls ps)

@[simp] theorem Element.starts_foreign (v : Option Element) :
    Place.starts (Element.optionCalls .foreign v) = [] :=
  Place.starts_hidden (Element.slots_foreign v)

/-- In a slot, a call starts at a spot of its own, in both listings. -/
theorem Expr.starts_slot_sublist : ∀ {e : Expr},
    (Place.starts (e.calls .inside)).Sublist (e.spots .inside) →
    (Place.starts (e.calls .slot)).Sublist (e.spots .slot)
  | .paren e _, h => starts_slot_sublist (e := e) h
  | .call .., h => h.cons_cons _
  | .literal .., h | .name _, h | .this _, h | .super _, h | .classLit .., h | .field .., h
  | .unary .., h | .update .., h | .methodRef .., h | .cast .., h | .instanceOf .., h
  | .lambda .., h | .new .., h | .newAnonymous .., h | .newArray .., h | .newArrayOf .., h
  | .arrayInit .., h | .index .., h | .binary .., h | .assign .., h | .conditional .., h
  | .blockLambda .., h => h

mutual

theorem Expr.starts_sublist :
    ∀ e : Expr, (Place.starts (e.calls .inside)).Sublist (e.spots .inside)
  | .literal .. | .name _ | .this _ | .super _ | .classLit .. => .refl _
  | .field e _ _ | .unary _ e _ | .update e _ _ | .paren e _ | .methodRef e _ _ | .cast _ e _
  | .instanceOf e _ _ _ | .lambda _ e _ => e.starts_sublist
  | .call _ f as _ => by
    simpa [Expr.calls, Expr.spots] using f.starts_sublist.append (Expr.allStarts_sublist as)
  | .new _ as _ | .newArray _ as _ | .arrayInit as _ => Expr.allStarts_sublist as
  | .newAnonymous _ as ms _ => by
    simpa [Expr.calls, Expr.spots] using
      (Expr.allStarts_sublist as).trans (List.sublist_append_left _ (Member.allSpots ms))
  | .newArrayOf _ ds es _ _ => by
    simpa [Expr.calls, Expr.spots] using
      (Expr.allStarts_sublist ds).append (Expr.allStarts_sublist es)
  | .index a b _ | .binary a _ b _ | .assign a _ b _ => by
    simpa [Expr.calls, Expr.spots] using a.starts_sublist.append b.starts_sublist
  | .conditional e a b _ => by
    simpa [Expr.calls, Expr.spots] using
      e.starts_sublist.append (a.starts_sublist.append b.starts_sublist)
  | .blockLambda _ b _ => b.starts_sublist

theorem Expr.allStarts_sublist : ∀ es : List Expr,
    (Place.starts (Expr.allCalls .inside es)).Sublist (Expr.allSpots .inside es)
  | [] => .refl _
  | e :: es => by
    simpa [Expr.allCalls, Expr.allSpots] using e.starts_sublist.append (Expr.allStarts_sublist es)

theorem Expr.allStarts_slot_sublist : ∀ es : List Expr,
    (Place.starts (Expr.allCalls .slot es)).Sublist (Expr.allSpots .slot es)
  | [] => .refl _
  | e :: es => by
    simpa [Expr.allCalls, Expr.allSpots] using
      (Expr.starts_slot_sublist e.starts_sublist).append (Expr.allStarts_slot_sublist es)

theorem Expr.optionStarts_sublist : ∀ e : Option Expr,
    (Place.starts (Expr.optionCalls .slot e)).Sublist (Expr.optionSpots e)
  | none => .refl _
  | some e => Expr.starts_slot_sublist e.starts_sublist

theorem Block.starts_sublist : ∀ b : Block, (Place.starts (b.calls .inside)).Sublist b.spots
  | ⟨ss, _⟩ => Stmt.allStarts_sublist ss

theorem Block.optionStarts_sublist : ∀ b : Option Block,
    (Place.starts (Block.optionCalls .inside b)).Sublist (Block.optionSpots b)
  | none => .refl _
  | some b => b.starts_sublist

theorem Stmt.starts_sublist : ∀ s : Stmt, (Place.starts (s.calls .inside)).Sublist s.spots
  | .block b => b.starts_sublist
  | .localVar _ _ vs _ => by
    simpa [Stmt.calls, Stmt.spots] using VarDeclarator.allStarts_sublist vs
  | .localType d => by simp [Stmt.calls]
  | .expr e _ | .throwing e _ => Expr.starts_slot_sublist e.starts_sublist
  | .ifThen e a _ | .whileLoop e a _ => by
    simpa [Stmt.calls, Stmt.spots] using
      (Expr.starts_slot_sublist e.starts_sublist).append a.starts_sublist
  | .ifElse e a b _ => by
    simpa [Stmt.calls, Stmt.spots] using
      (Expr.starts_slot_sublist e.starts_sublist).append (a.starts_sublist.append b.starts_sublist)
  | .doLoop a e _ => by
    simpa [Stmt.calls, Stmt.spots] using
      a.starts_sublist.append (Expr.starts_slot_sublist e.starts_sublist)
  | .forLoop i e us a _ => by
    simpa [Stmt.calls, Stmt.spots] using (Stmt.allStarts_sublist i).append
      ((Expr.optionStarts_sublist e).append
        ((Expr.allStarts_slot_sublist us).append a.starts_sublist))
  | .forEach _ _ _ e a _ => by
    simpa [Stmt.calls, Stmt.spots] using
      (Expr.starts_slot_sublist e.starts_sublist).append a.starts_sublist
  | .ret e _ => Expr.optionStarts_sublist e
  | .breakTo .. | .continueTo .. | .empty _ => .refl _
  | .tryCatch rs b cs f _ => by
    simpa [Stmt.calls, Stmt.spots] using (Stmt.allStarts_sublist rs).append
      (b.starts_sublist.append
        ((CatchClause.allStarts_sublist cs).append (Block.optionStarts_sublist f)))
  | .switch e cs _ => by
    simpa [Stmt.calls, Stmt.spots] using
      (Expr.starts_slot_sublist e.starts_sublist).append (SwitchCase.allStarts_sublist cs)
  | .synchronized e b _ => by
    simpa [Stmt.calls, Stmt.spots] using
      (Expr.starts_slot_sublist e.starts_sublist).append b.starts_sublist
  | .labeled _ a _ => a.starts_sublist
  | .assertion e m _ => by
    simpa [Stmt.calls, Stmt.spots] using
      (Expr.starts_slot_sublist e.starts_sublist).append (Expr.optionStarts_sublist m)

theorem Stmt.allStarts_sublist : ∀ ss : List Stmt,
    (Place.starts (Stmt.allCalls .inside ss)).Sublist (Stmt.allSpots ss)
  | [] => .refl _
  | s :: ss => by
    simpa [Stmt.allCalls, Stmt.allSpots] using s.starts_sublist.append (Stmt.allStarts_sublist ss)

theorem VarDeclarator.allStarts_sublist : ∀ vs : List VarDeclarator,
    (Place.starts (VarDeclarator.allCalls .slot vs)).Sublist (VarDeclarator.allSpots vs)
  | [] => .refl _
  | ⟨_, _, e, _⟩ :: vs => by
    simpa [VarDeclarator.allCalls, VarDeclarator.allSpots] using
      (Expr.optionStarts_sublist e).append (VarDeclarator.allStarts_sublist vs)

theorem CatchClause.allStarts_sublist : ∀ cs : List CatchClause,
    (Place.starts (CatchClause.allCalls .inside cs)).Sublist (CatchClause.allSpots cs)
  | [] => .refl _
  | ⟨_, _, _, b, _⟩ :: cs => by
    simpa [CatchClause.allCalls, CatchClause.allSpots] using
      b.starts_sublist.append (CatchClause.allStarts_sublist cs)

theorem SwitchCase.allStarts_sublist : ∀ cs : List SwitchCase,
    (Place.starts (SwitchCase.allCalls .inside cs)).Sublist (SwitchCase.allSpots cs)
  | [] => .refl _
  | ⟨ls, ss, _⟩ :: cs => by
    simpa [SwitchCase.allCalls, SwitchCase.allSpots] using (Expr.allStarts_sublist ls).append
      ((Stmt.allStarts_sublist ss).append (SwitchCase.allStarts_sublist cs))

end

mutual

theorem Annot.allStarts_sublist : ∀ as : List Annot,
    (Place.starts (Annot.allCalls .inside as)).Sublist (Annot.allSpots as)
  | [] => .refl _
  | ⟨_, as, _⟩ :: rest => by
    simpa [Annot.allCalls, Annot.allSpots] using
      (AnnotArg.allStarts_sublist as).append (Annot.allStarts_sublist rest)

theorem AnnotArg.allStarts_sublist : ∀ as : List AnnotArg,
    (Place.starts (AnnotArg.allCalls .inside as)).Sublist (AnnotArg.allSpots as)
  | [] => .refl _
  | ⟨_, v, _⟩ :: as => by
    simpa [AnnotArg.allCalls, AnnotArg.allSpots] using
      v.starts_sublist.append (AnnotArg.allStarts_sublist as)

theorem Element.starts_sublist :
    ∀ v : Element, (Place.starts (v.calls .inside)).Sublist v.spots
  | .expr e => e.starts_sublist
  | .array vs _ => Element.allStarts_sublist vs
  | .annot ⟨_, as, _⟩ => AnnotArg.allStarts_sublist as

theorem Element.allStarts_sublist : ∀ vs : List Element,
    (Place.starts (Element.allCalls .inside vs)).Sublist (Element.allSpots vs)
  | [] => .refl _
  | v :: vs => by
    simpa [Element.allCalls, Element.allSpots] using
      v.starts_sublist.append (Element.allStarts_sublist vs)

end

theorem EnumConstant.allStarts_sublist (cs : List EnumConstant) :
    (Place.starts (EnumConstant.allCalls .inside cs)).Sublist (EnumConstant.allSpots cs) := by
  induction cs with
  | nil => exact .refl _
  | cons c cs ih =>
    cases c with
    | plain as n es s =>
      simpa [EnumConstant.allCalls, EnumConstant.allSpots] using
        (Expr.allStarts_sublist es).append ih
    | withBody as n es ms s =>
      simpa [EnumConstant.allCalls, EnumConstant.allSpots] using (Expr.allStarts_sublist es).append
        (ih.trans (List.sublist_append_right (Member.allSpots ms) _))

theorem Member.starts_sublist (m : Member) :
    (Place.starts (m.calls .inside)).Sublist m.spots := by
  cases m with
  | field m t vs s =>
    simpa [Member.calls, Member.spots] using VarDeclarator.allStarts_sublist vs
  | method m tps t n ps ts d b s =>
    simpa [Member.calls, Member.spots] using Block.optionStarts_sublist b
  | constructor m tps n ps ts b s => simpa [Member.calls, Member.spots] using b.starts_sublist
  | initializer x b s => exact b.starts_sublist
  | type d => simp [Member.calls]

theorem Member.allStarts_sublist (ms : List Member) :
    (Place.starts (Member.allCalls .inside ms)).Sublist (Member.allSpots ms) := by
  induction ms with
  | nil => exact .refl _
  | cons m ms ih =>
    simpa [Member.allCalls, Member.allSpots] using m.starts_sublist.append ih

/-- **The calls in slots of a type's own code start at spots of the type**, in their order. -/
theorem TypeDecl.starts_sublist :
    ∀ d : TypeDecl, (Place.starts (d.calls .inside)).Sublist d.spots
  | ⟨⟨_, as, _⟩, _, _, _, _, _, cs, ms, _⟩ => by
    simpa [TypeDecl.calls, TypeDecl.spots, Modifiers.calls] using
      (Annot.allStarts_sublist as).append
        ((EnumConstant.allStarts_sublist cs).append (Member.allStarts_sublist ms))

/-! ### The types that are declared in a tree -/

/-- The type that is declared at a node, if one is. -/
def Label.decl? : Label → Option TypeDecl
  | .typeDecl d => some d
  | _ => none

/-- The types that one meets on the way through a source file, outer types in front of those that
are declared inside them. -/
def SourceUnit.decls (u : SourceUnit) : List TypeDecl :=
  (Outline.listings (fun _ => false) 0 u.outlines).filterMap fun x => x.2.decl?

theorem Outline.listings_append (closed : Label → Bool) (depth : Nat) (os os' : List Outline) :
    listings closed depth (os ++ os') = listings closed depth os ++ listings closed depth os' := by
  induction os with
  | nil => rfl
  | cons o os ih => rw [List.cons_append, listings, ih, listings, List.append_assoc]

/-- The spots of the types that are declared in outlines are among some places. -/
def Outline.Within (os : List Outline) (xs : List Nat) : Prop :=
  ∀ depth, ∀ x ∈ listings (fun _ => false) depth os, ∀ d ∈ x.2.decl?, d.spots.Sublist xs

namespace Outline.Within

variable {os os' parts : List Outline} {xs ys : List Nat} {l : Label}

theorem nil : Within [] xs := nofun

theorem mono (h : Within os xs) (hxs : xs.Sublist ys) : Within os ys :=
  fun depth x hx d hd => (h depth x hx d hd).trans hxs

theorem append (h : Within os xs) (h' : Within os' ys) : Within (os ++ os') (xs ++ ys) := by
  intro depth x hx d hd
  rw [listings_append, List.mem_append] at hx
  rcases hx with hx | hx
  · exact (h depth x hx d hd).trans (List.sublist_append_left _ _)
  · exact (h' depth x hx d hd).trans (List.sublist_append_right _ _)

/-- A node and what is below it. -/
theorem below (hl : ∀ d ∈ l.decl?, d.spots.Sublist xs) (h : Within parts xs) :
    Within [.node l parts] xs := by
  intro depth x hx d hd
  simp only [listings, listing, List.append_nil, List.mem_cons] at hx
  rcases hx with rfl | hx
  · exact hl d hd
  · exact h (depth + 1) x hx d hd

/-- A node that declares no type. -/
theorem node (hl : l.decl? = none) (h : Within parts xs) : Within [.node l parts] xs :=
  below (by rw [hl]; exact nofun) h

/-- A node that declares a type. -/
theorem decl {d : TypeDecl} (h : Within parts d.spots) :
    Within [.node (.typeDecl d) parts] d.spots :=
  below (by rintro _ ⟨⟩; exact .refl _) h

theorem cons (hl : l.decl? = none) (h : Within parts xs) (h' : Within os ys) :
    Within (.node l parts :: os) (xs ++ ys) := (node hl h).append h'

/-- A type as written declares nothing. -/
theorem typed {t : TypeExpr} (h : Within os xs) : Within (t.outline :: os) xs :=
  (node (l := .type t) rfl (nil : Within [] [])).append h

theorem types {α : Type} (f : α → TypeExpr) (as : List α) (h : Within os xs) :
    Within ((as.map fun a => (f a).outline) ++ os) xs := by
  induction as with
  | nil => exact h
  | cons a as ih => exact typed ih

/-- An expression in a slot has no fewer spots than inside another one. -/
theorem slot {e : Expr} (h : Within e.parts (e.spots .inside)) : Within e.parts (e.spots .slot) :=
  h.mono e.inside_sublist_slot

end Outline.Within

mutual

theorem Expr.covered : ∀ e : Expr, Outline.Within e.parts (e.spots .inside)
  | .literal .. | .name _ | .this _ | .super _ => .nil
  | .field e _ _ | .unary _ e _ | .update e _ _ | .paren e _ | .methodRef e _ _ =>
    .node rfl e.covered
  | .call _ f as _ => by
    show Outline.Within _ (f.spots .inside ++ Expr.allSpots .inside as)
    exact .node rfl (.cons rfl f.covered (Expr.allCovered as))
  | .new _ as _ => .node rfl (.typed (Expr.allCovered as))
  | .newAnonymous _ as ms _ =>
    .node rfl (.append (.typed (Expr.allCovered as)) (.node rfl (Member.allCovered ms)))
  | .newArray _ ds _ => .typed (Expr.allCovered ds)
  | .newArrayOf _ ds es _ _ => .append (.typed (Expr.allCovered ds)) (Expr.allCovered es)
  | .arrayInit es _ => Expr.allCovered es
  | .index a b _ | .binary a _ b _ | .assign a _ b _ =>
    .cons rfl a.covered (.node rfl b.covered)
  | .instanceOf e t _ _ => by
    have htype : Outline.Within [t.outline] [] := .typed .nil
    simpa [Expr.parts, Expr.spots] using
      (Outline.Within.node (l := .expr e) rfl e.covered).append htype
  | .conditional e a b _ => .cons rfl e.covered (.cons rfl a.covered (.node rfl b.covered))
  | .cast _ e _ => .typed (.node rfl e.covered)
  | .classLit _ _ => .typed .nil
  | .lambda _ e _ => .node rfl (.node rfl e.covered)
  | .blockLambda _ b _ => .node rfl (.node rfl b.covered)

theorem Expr.allCovered :
    ∀ es : List Expr, Outline.Within (Expr.outlines es) (Expr.allSpots .inside es)
  | [] => .nil
  | e :: es => .cons rfl e.covered (Expr.allCovered es)

theorem Expr.allCovered_slot :
    ∀ es : List Expr, Outline.Within (Expr.outlines es) (Expr.allSpots .slot es)
  | [] => .nil
  | e :: es => .cons rfl e.covered.slot (Expr.allCovered_slot es)

theorem Block.covered : ∀ b : Block, Outline.Within b.parts b.spots
  | ⟨ss, _⟩ => Stmt.allCovered ss

theorem Stmt.covered : ∀ s : Stmt, Outline.Within s.parts s.spots
  | .block b => .node rfl b.covered
  | .localVar _ _ vs _ => .typed (VarDeclarator.allCovered vs)
  | .localType d => d.covered
  | .expr e _ | .throwing e _ | .ret (some e) _ => .node rfl e.covered.slot
  | .ifThen e a _ | .whileLoop e a _ => .cons rfl e.covered.slot (.node rfl a.covered)
  | .ifElse e a b _ => .cons rfl e.covered.slot (.cons rfl a.covered (.node rfl b.covered))
  | .doLoop a e _ => .cons rfl a.covered (.node rfl e.covered.slot)
  | .forLoop i none us a _ =>
    .append (.append (.append (Stmt.allCovered i) .nil) (Expr.allCovered_slot us))
      (.node rfl a.covered)
  | .forLoop i (some e) us a _ =>
    .append (.append (.append (Stmt.allCovered i) (.node rfl e.covered.slot))
      (Expr.allCovered_slot us)) (.node rfl a.covered)
  | .forEach _ _ _ e a _ => .typed (.cons rfl e.covered.slot (.node rfl a.covered))
  | .ret none _ | .breakTo .. | .continueTo .. | .empty _ => .nil
  | .tryCatch rs b cs none _ =>
    .append (.append (Stmt.allCovered rs) (.cons rfl b.covered (CatchClause.allCovered cs))) .nil
  | .tryCatch rs b cs (some f) _ =>
    .append (.append (Stmt.allCovered rs) (.cons rfl b.covered (CatchClause.allCovered cs)))
      (.node rfl f.covered)
  | .switch e cs _ => .cons rfl e.covered.slot (SwitchCase.allCovered cs)
  | .synchronized e b _ => .cons rfl e.covered.slot (.node rfl b.covered)
  | .labeled _ a _ => .node rfl a.covered
  | .assertion e none _ => .cons rfl e.covered.slot .nil
  | .assertion e (some m) _ => .cons rfl e.covered.slot (.node rfl m.covered.slot)

theorem Stmt.allCovered : ∀ ss : List Stmt, Outline.Within (Stmt.outlines ss) (Stmt.allSpots ss)
  | [] => .nil
  | s :: ss => .cons rfl s.covered (Stmt.allCovered ss)

theorem VarDeclarator.allCovered : ∀ vs : List VarDeclarator,
    Outline.Within (VarDeclarator.parts vs) (VarDeclarator.allSpots vs)
  | [] => .nil
  | ⟨_, _, none, _⟩ :: vs => VarDeclarator.allCovered vs
  | ⟨_, _, some e, _⟩ :: vs => .cons rfl e.covered.slot (VarDeclarator.allCovered vs)

theorem CatchClause.allCovered : ∀ cs : List CatchClause,
    Outline.Within (CatchClause.parts cs) (CatchClause.allSpots cs)
  | [] => .nil
  | ⟨_, ts, _, b, _⟩ :: cs =>
    .types id ts (.cons rfl b.covered (CatchClause.allCovered cs))

theorem SwitchCase.allCovered : ∀ cs : List SwitchCase,
    Outline.Within (SwitchCase.parts cs) (SwitchCase.allSpots cs)
  | [] => .nil
  | ⟨ls, ss, _⟩ :: cs =>
    ((Expr.allCovered ls).append (Stmt.allCovered ss)).append (SwitchCase.allCovered cs)

theorem AnnotArg.allCovered : ∀ as : List AnnotArg,
    Outline.Within (AnnotArg.parts as) (AnnotArg.allSpots as)
  | [] => .nil
  | ⟨_, v, _⟩ :: as => v.covered.append (AnnotArg.allCovered as)

theorem Element.covered : ∀ v : Element, Outline.Within v.parts v.spots
  | .expr e => .node rfl e.covered
  | .array vs _ => Element.allCovered vs
  | .annot ⟨_, as, _⟩ => .node rfl (AnnotArg.allCovered as)

theorem Element.allCovered : ∀ vs : List Element,
    Outline.Within (Element.allParts vs) (Element.allSpots vs)
  | [] => .nil
  | v :: vs => v.covered.append (Element.allCovered vs)

theorem Annot.allCovered : ∀ as : List Annot,
    Outline.Within (Annot.outlines as) (Annot.allSpots as)
  | [] => .nil
  | ⟨_, as, _⟩ :: rest => .cons rfl (AnnotArg.allCovered as) (Annot.allCovered rest)

/-- A declared type and the types that are declared in it. -/
theorem TypeDecl.covered :
    ∀ d : TypeDecl, Outline.Within [.node (.typeDecl d) d.parts] d.spots
  | ⟨⟨_, as, _⟩, _, _, _, sup, is, cs, ms, _⟩ => .decl <| by
    simpa [TypeDecl.parts, TypeDecl.spots] using (Annot.allCovered as).append
      (.types id (sup.toList ++ is) ((EnumConstant.allCovered cs).append
        (.node (l := .body ms) rfl (Member.allCovered ms))))

theorem EnumConstant.allCovered : ∀ cs : List EnumConstant,
    Outline.Within (EnumConstant.outlines cs) (EnumConstant.allSpots cs)
  | [] => .nil
  | .plain _ _ es _ :: cs => .cons rfl (Expr.allCovered es) (EnumConstant.allCovered cs)
  | .withBody _ _ es ms _ :: cs =>
    .cons rfl ((Expr.allCovered es).append (.node rfl (Member.allCovered ms)))
      (EnumConstant.allCovered cs)

theorem Member.covered : ∀ m : Member, Outline.Within m.parts m.spots
  | .field _ _ vs _ => .node rfl (.typed (VarDeclarator.allCovered vs))
  | .method _ _ _ _ ps _ _ none _ =>
    .node rfl (.typed (.types Param.type ps .nil))
  | .method _ _ _ _ ps _ _ (some b) _ =>
    .node rfl (.typed (.types Param.type ps (.node rfl b.covered)))
  | .constructor _ _ _ ps _ b _ =>
    .node rfl (.types Param.type ps (.node rfl b.covered))
  | .initializer _ b _ => b.covered
  | .type d => d.covered

theorem Member.allCovered : ∀ ms : List Member,
    Outline.Within (Member.outlines ms) (Member.allSpots ms)
  | [] => .nil
  | m :: ms => .cons rfl m.covered (Member.allCovered ms)

end

/-- **The calls in slots of a type that is declared anywhere in a source file** start at spots of
the file, in their order. -/
theorem SourceUnit.starts_sublist_spots {u : SourceUnit} {d : TypeDecl} (hd : d ∈ u.decls) :
    (Place.starts (d.calls .inside)).Sublist (u.types.flatMap TypeDecl.spots) := by
  have hcovered : Outline.Within u.outlines (u.types.flatMap TypeDecl.spots) := by
    unfold outlines
    induction u.types with
    | nil => exact .nil
    | cons d ds ih => exact d.covered.append ih
  obtain ⟨x, hx, hxd⟩ := List.mem_filterMap.mp hd
  exact d.starts_sublist.trans (hcovered 0 x hx d hxd)

end JavaGraft

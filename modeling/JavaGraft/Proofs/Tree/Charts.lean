import JavaGraft.Proofs.Tree.Calls

/-!
# Where calls in slots start

Code may hold types with code of their own: member types, local classes, and those in the body of
an anonymous class or of a constant. The *spots* of a tree are where the calls in slots start in all
its code, whichever type it belongs to, from left to right and from the outside to the inside. Here
only the places in the source count. Of the annotations only those of types are looked into.

For an expression that is still being read it is not known yet whether it will fill a slot. So its
*chart* starts with the places of the expression itself, first outside and then inside each pair of
parentheses around it, and goes on with the spots inside (`JavaGraft.Expr.chart`). Whatever becomes
of the expression, its spots then are among the places of its chart, in their order.
-/

namespace JavaGraft

/-- Where a call starts, if it is in a slot. -/
def Place.spot : Place → Span → List Nat
  | slot, s => [s.offset]
  | _, _ => []

@[simp] theorem Place.spot_slot (s : Span) : slot.spot s = [s.offset] := rfl

@[simp] theorem Place.spot_inside (s : Span) : inside.spot s = [] := rfl

/-! ### Spots -/

mutual

/-- **The spots of an expression** at a place. -/
def Expr.spots (p : Place) : Expr → List Nat
  | .literal .. | .name _ | .this _ | .super _ | .classLit .. => []
  | .paren e _ => e.spots p
  | .field e _ _ | .unary _ e _ | .update e _ _ | .methodRef e _ _ | .cast _ e _
  | .instanceOf e _ _ _ | .lambda _ e _ => e.spots p.below
  | .call _ f as s => p.spot s ++ (f.spots p.below ++ Expr.allSpots p.below as)
  | .new _ as _ => Expr.allSpots p.below as
  | .newAnonymous _ as ms _ => Expr.allSpots p.below as ++ Member.allSpots ms
  | .newArray _ ds _ => Expr.allSpots p.below ds
  | .newArrayOf _ ds es _ _ => Expr.allSpots p.below ds ++ Expr.allSpots p.below es
  | .arrayInit es _ => Expr.allSpots p.below es
  | .index a b _ | .binary a _ b _ | .assign a _ b _ => a.spots p.below ++ b.spots p.below
  | .conditional e a b _ => e.spots p.below ++ (a.spots p.below ++ b.spots p.below)
  | .blockLambda _ b _ => b.spots

/-- The spots of expressions, each of them at the place. -/
def Expr.allSpots (p : Place) : List Expr → List Nat
  | [] => []
  | e :: es => e.spots p ++ Expr.allSpots p es

/-- The spots of an expression in a slot, if there is one. -/
def Expr.optionSpots : Option Expr → List Nat
  | none => []
  | some e => e.spots .slot

/-- The spots of a block. -/
def Block.spots : Block → List Nat
  | ⟨ss, _⟩ => Stmt.allSpots ss

/-- The spots of a block, if there is one. -/
def Block.optionSpots : Option Block → List Nat
  | none => []
  | some b => b.spots

/-- The spots of a statement. -/
def Stmt.spots : Stmt → List Nat
  | .block b => b.spots
  | .localVar _ _ vs _ => VarDeclarator.allSpots vs
  | .localType d => d.spots
  | .expr e _ | .throwing e _ => e.spots .slot
  | .ifThen e a _ | .whileLoop e a _ => e.spots .slot ++ a.spots
  | .ifElse e a b _ => e.spots .slot ++ (a.spots ++ b.spots)
  | .doLoop a e _ => a.spots ++ e.spots .slot
  | .forLoop i e us a _ =>
    Stmt.allSpots i ++ Expr.optionSpots e ++ Expr.allSpots .slot us ++ a.spots
  | .forEach _ _ _ e a _ => e.spots .slot ++ a.spots
  | .ret e _ => Expr.optionSpots e
  | .breakTo .. | .continueTo .. | .empty _ => []
  | .tryCatch rs b cs f _ =>
    Stmt.allSpots rs ++ (b.spots ++ CatchClause.allSpots cs) ++ Block.optionSpots f
  | .switch e cs _ => e.spots .slot ++ SwitchCase.allSpots cs
  | .synchronized e b _ => e.spots .slot ++ b.spots
  | .labeled _ a _ => a.spots
  | .assertion e m _ => e.spots .slot ++ Expr.optionSpots m

/-- The spots of statements. -/
def Stmt.allSpots : List Stmt → List Nat
  | [] => []
  | s :: ss => s.spots ++ Stmt.allSpots ss

/-- The spots of the initial values of variables. -/
def VarDeclarator.allSpots : List VarDeclarator → List Nat
  | [] => []
  | ⟨_, _, e, _⟩ :: vs => Expr.optionSpots e ++ VarDeclarator.allSpots vs

/-- The spots of handlers. -/
def CatchClause.allSpots : List CatchClause → List Nat
  | [] => []
  | ⟨_, _, _, b, _⟩ :: cs => b.spots ++ CatchClause.allSpots cs

/-- The spots of the groups of a `switch`. -/
def SwitchCase.allSpots : List SwitchCase → List Nat
  | [] => []
  | ⟨ls, ss, _⟩ :: cs => Expr.allSpots .inside ls ++ Stmt.allSpots ss ++ SwitchCase.allSpots cs

/-- The spots of annotations. -/
def Annot.allSpots : List Annot → List Nat
  | [] => []
  | ⟨_, as, _⟩ :: rest => AnnotArg.allSpots as ++ Annot.allSpots rest

/-- The spots of the arguments of an annotation. -/
def AnnotArg.allSpots : List AnnotArg → List Nat
  | [] => []
  | ⟨_, v, _⟩ :: as => v.spots ++ AnnotArg.allSpots as

/-- The spots of the value of an element. -/
def Element.spots : Element → List Nat
  | .expr e => e.spots .inside
  | .array es _ => Element.allSpots es
  | .annot ⟨_, as, _⟩ => AnnotArg.allSpots as

/-- The spots of several values. -/
def Element.allSpots : List Element → List Nat
  | [] => []
  | e :: es => e.spots ++ Element.allSpots es

/-- The spots of a declared type. -/
def TypeDecl.spots : TypeDecl → List Nat
  | ⟨⟨_, as, _⟩, _, _, _, _, _, cs, ms, _⟩ =>
    Annot.allSpots as ++ EnumConstant.allSpots cs ++ Member.allSpots ms

/-- The spots of constants. -/
def EnumConstant.allSpots : List EnumConstant → List Nat
  | [] => []
  | .plain _ _ es _ :: cs => Expr.allSpots .inside es ++ EnumConstant.allSpots cs
  | .withBody _ _ es ms _ :: cs =>
    Expr.allSpots .inside es ++ Member.allSpots ms ++ EnumConstant.allSpots cs

/-- The spots of a member. -/
def Member.spots : Member → List Nat
  | .field _ _ vs _ => VarDeclarator.allSpots vs
  | .method _ _ _ _ _ _ _ b _ => Block.optionSpots b
  | .constructor _ _ _ _ _ b _ | .initializer _ b _ => b.spots
  | .type d => d.spots

/-- The spots of members. -/
def Member.allSpots : List Member → List Nat
  | [] => []
  | m :: ms => m.spots ++ Member.allSpots ms

end

@[simp] theorem Expr.optionSpots_none : Expr.optionSpots none = [] := rfl

@[simp] theorem Expr.optionSpots_some (e : Expr) : Expr.optionSpots (some e) = e.spots .slot := rfl

@[simp] theorem Block.optionSpots_none : Block.optionSpots none = [] := rfl

@[simp] theorem Block.optionSpots_some (b : Block) : Block.optionSpots (some b) = b.spots := rfl

/-- An expression in a slot has the spots inside it, and perhaps one of its own. -/
theorem Expr.inside_sublist_slot : ∀ e : Expr, (e.spots .inside).Sublist (e.spots .slot)
  | .paren e _ => e.inside_sublist_slot
  | .call .. => List.sublist_cons_self _ _
  | .literal .. | .name _ | .this _ | .super _ | .classLit .. | .field .. | .unary .. | .update ..
  | .methodRef .. | .cast .. | .instanceOf .. | .lambda .. | .new .. | .newAnonymous ..
  | .newArray .. | .newArrayOf .. | .arrayInit .. | .index .. | .binary .. | .assign ..
  | .conditional .. | .blockLambda .. => .refl _

/-! ### Spots item by item -/

theorem Expr.allSpots_eq (p : Place) (es : List Expr) :
    Expr.allSpots p es = es.flatMap (spots p) := by
  induction es with
  | nil => rfl
  | cons e es ih => rw [Expr.allSpots, ih, List.flatMap_cons]

theorem Stmt.spots_localVar (m : Modifiers) (t : TypeExpr) (vars : List VarDeclarator)
    (span : Span) : (Stmt.localVar m t vars span).spots = VarDeclarator.allSpots vars := by
  rw [Stmt.spots]

theorem Stmt.allSpots_eq (ss : List Stmt) : Stmt.allSpots ss = ss.flatMap spots := by
  induction ss with
  | nil => rfl
  | cons s ss ih => rw [Stmt.allSpots, ih, List.flatMap_cons]

theorem VarDeclarator.allSpots_eq (vs : List VarDeclarator) :
    VarDeclarator.allSpots vs = vs.flatMap fun v => Expr.optionSpots v.init := by
  induction vs with
  | nil => rfl
  | cons v vs ih =>
    obtain ⟨i, n, e, s⟩ := v
    rw [VarDeclarator.allSpots, ih, List.flatMap_cons]

theorem CatchClause.allSpots_eq (cs : List CatchClause) :
    CatchClause.allSpots cs = cs.flatMap fun c => c.body.spots := by
  induction cs with
  | nil => rfl
  | cons c cs ih =>
    obtain ⟨m, ts, i, b, s⟩ := c
    rw [CatchClause.allSpots, ih, List.flatMap_cons]

theorem SwitchCase.allSpots_eq (cs : List SwitchCase) :
    SwitchCase.allSpots cs =
      cs.flatMap fun c => Expr.allSpots .inside c.labels ++ Stmt.allSpots c.body := by
  induction cs with
  | nil => rfl
  | cons c cs ih =>
    obtain ⟨ls, ss, s⟩ := c
    rw [SwitchCase.allSpots, ih, List.flatMap_cons]

theorem Annot.allSpots_eq (as : List Annot) :
    Annot.allSpots as = as.flatMap fun a => AnnotArg.allSpots a.args := by
  induction as with
  | nil => rfl
  | cons a as ih =>
    obtain ⟨n, args, s⟩ := a
    rw [Annot.allSpots, ih, List.flatMap_cons]

theorem AnnotArg.allSpots_eq (as : List AnnotArg) :
    AnnotArg.allSpots as = as.flatMap fun a => a.value.spots := by
  induction as with
  | nil => rfl
  | cons a as ih =>
    obtain ⟨i, v, s⟩ := a
    rw [AnnotArg.allSpots, ih, List.flatMap_cons]

theorem Element.allSpots_eq (vs : List Element) : Element.allSpots vs = vs.flatMap spots := by
  induction vs with
  | nil => rfl
  | cons v vs ih => rw [Element.allSpots, ih, List.flatMap_cons]

theorem Member.allSpots_eq (ms : List Member) : Member.allSpots ms = ms.flatMap spots := by
  induction ms with
  | nil => rfl
  | cons m ms ih => rw [Member.allSpots, ih, List.flatMap_cons]

/-- The spots of a constant. -/
def EnumConstant.spots (c : EnumConstant) : List Nat := EnumConstant.allSpots [c]

theorem EnumConstant.allSpots_eq (cs : List EnumConstant) :
    EnumConstant.allSpots cs = cs.flatMap spots := by
  induction cs with
  | nil => rfl
  | cons c cs ih => cases c <;> simp [EnumConstant.allSpots, spots, ih]

/-! ### Charts of expressions -/

/-- **The chart of an expression**: where it starts, outside and inside its parentheses, and the
spots inside it. -/
def Expr.chart : Expr → List Nat
  | .paren e s => s.offset :: e.chart
  | e => e.span.offset :: e.spots .inside

namespace Expr

theorem chart_eq (e : Expr) : ∃ rest, e.chart = e.span.offset :: rest := by
  cases e <;> exact ⟨_, rfl⟩

theorem start_mem_chart (e : Expr) : e.span.offset ∈ e.chart := by
  obtain ⟨rest, h⟩ := e.chart_eq
  rw [h]
  exact List.mem_cons_self

theorem chart_call (id : Nat) (f : Expr) (as : List Expr) (span : Span) :
    (Expr.call id f as span).chart
      = span.offset :: (f.spots .inside ++ Expr.allSpots .inside as) := by
  simp [chart, spots, Expr.span]

/-- Seen from outside, the places inside the parentheses are of no interest. -/
theorem outer_sublist_chart : ∀ e : Expr, (e.span.offset :: e.spots .inside).Sublist e.chart
  | .paren e _ => ((List.sublist_cons_self _ _).trans e.outer_sublist_chart).cons_cons _
  | .literal .. | .name _ | .this _ | .super _ | .classLit .. | .field .. | .call .. | .unary ..
  | .update .. | .methodRef .. | .cast .. | .instanceOf .. | .lambda .. | .new ..
  | .newAnonymous .. | .newArray .. | .newArrayOf .. | .arrayInit .. | .index .. | .binary ..
  | .assign .. | .conditional .. | .blockLambda .. => .refl _

theorem inner_sublist_chart (e : Expr) : (e.spots .inside).Sublist e.chart :=
  (List.sublist_cons_self _ _).trans e.outer_sublist_chart

/-- In a slot, the place inside the parentheses counts if a call stands there. -/
theorem slot_sublist_chart : ∀ e : Expr, (e.spots .slot).Sublist e.chart
  | .paren e _ => e.slot_sublist_chart.cons _
  | .call .. => .refl _
  | .literal .. | .name _ | .this _ | .super _ | .classLit .. | .field .. | .unary .. | .update ..
  | .methodRef .. | .cast .. | .instanceOf .. | .lambda .. | .new .. | .newAnonymous ..
  | .newArray .. | .newArrayOf .. | .arrayInit .. | .index .. | .binary .. | .assign ..
  | .conditional .. | .blockLambda .. => List.sublist_cons_self _ _

end Expr

end JavaGraft

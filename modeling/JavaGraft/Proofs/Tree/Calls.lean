import JavaGraft.Ast.Equality

/-!
# The calls of a tree

Every call that stands anywhere in a tree, from left to right, together with the `Place` where it
stands. Seen from a type whose own code is at issue, a call is in a *slot* if it is, parentheses
aside, an expression that stands in a statement or behind a variable on its own; it is *inside* if
it is part of such an expression or of a `switch` label; and it is *foreign* if it stands in
something that belongs to another type, or in annotations of members, parameters and variables.
What is below something foreign is foreign.

The listing starts from a place that the caller chooses. The place changes the marks only, never
the calls that are listed (`JavaGraft.TypeDecl.map_calls`), so that the numbers of the calls of a
tree (`JavaGraft.TypeDecl.callIds`) do not depend on it.
-/

namespace JavaGraft

/-! ### Places -/

/-- Where a call stands, seen from the type whose own code is at issue. -/
inductive Place where
  /-- The call is the whole of an expression that stands on its own. -/
  | slot
  /-- The call is in the own code, but fills no slot. -/
  | inside
  /-- The call is in code that belongs to another type, or in an annotation. -/
  | foreign
deriving DecidableEq, Repr

namespace Place

/-- The place of what is below an expression. -/
def below : Place → Place
  | slot | inside => inside
  | foreign => foreign

/-- The place of an expression that stands on its own in a statement. -/
def filled : Place → Place
  | slot | inside => slot
  | foreign => foreign

@[simp] theorem below_slot : slot.below = inside := rfl

@[simp] theorem below_inside : inside.below = inside := rfl

@[simp] theorem below_foreign : foreign.below = foreign := rfl

@[simp] theorem below_below (p : Place) : p.below.below = p.below := by cases p <;> rfl

@[simp] theorem filled_inside : inside.filled = slot := rfl

@[simp] theorem filled_foreign : foreign.filled = foreign := rfl

end Place

/-! ### The listing -/

mutual

/-- The calls of an expression at a place. Parentheses leave the place as it is. -/
def Expr.calls (p : Place) : Expr → List (Place × Call)
  | .literal .. | .name _ | .this _ | .super _ | .classLit .. => []
  | .paren e _ => e.calls p
  | .field e _ _ | .unary _ e _ | .update e _ _ | .methodRef e _ _ | .cast _ e _
  | .instanceOf e _ _ _ | .lambda _ e _ => e.calls p.below
  | .call id f as s => (p, ⟨id, f, as, s⟩) :: (f.calls p.below ++ Expr.allCalls p.below as)
  | .new _ as _ => Expr.allCalls p.below as
  | .newAnonymous _ as ms _ => Expr.allCalls p.below as ++ Member.allCalls .foreign ms
  | .newArray _ ds _ => Expr.allCalls p.below ds
  | .newArrayOf _ ds es _ _ => Expr.allCalls p.below ds ++ Expr.allCalls p.below es
  | .arrayInit es _ => Expr.allCalls p.below es
  | .index a b _ | .binary a _ b _ | .assign a _ b _ => a.calls p.below ++ b.calls p.below
  | .conditional e a b _ => e.calls p.below ++ a.calls p.below ++ b.calls p.below
  | .blockLambda _ b _ => b.calls p.below

/-- The calls of expressions, each of them at the place. -/
def Expr.allCalls (p : Place) : List Expr → List (Place × Call)
  | [] => []
  | e :: es => e.calls p ++ Expr.allCalls p es

/-- The calls of an expression, if there is one. -/
def Expr.optionCalls (p : Place) : Option Expr → List (Place × Call)
  | none => []
  | some e => e.calls p

/-- The calls of a block. -/
def Block.calls (p : Place) : Block → List (Place × Call)
  | ⟨ss, _⟩ => Stmt.allCalls p ss

/-- The calls of a block, if there is one. -/
def Block.optionCalls (p : Place) : Option Block → List (Place × Call)
  | none => []
  | some b => b.calls p

/-- The calls of a statement. -/
def Stmt.calls (p : Place) : Stmt → List (Place × Call)
  | .block b => b.calls p
  | .localVar m _ vs _ => m.calls .foreign ++ VarDeclarator.allCalls p.filled vs
  | .localType d => d.calls .foreign
  | .expr e _ | .throwing e _ => e.calls p.filled
  | .ifThen e a _ | .whileLoop e a _ => e.calls p.filled ++ a.calls p
  | .ifElse e a b _ => e.calls p.filled ++ a.calls p ++ b.calls p
  | .doLoop a e _ => a.calls p ++ e.calls p.filled
  | .forLoop i e us a _ =>
    Stmt.allCalls p i ++ Expr.optionCalls p.filled e ++ Expr.allCalls p.filled us ++ a.calls p
  | .forEach m _ _ e a _ => m.calls .foreign ++ e.calls p.filled ++ a.calls p
  | .ret e _ => Expr.optionCalls p.filled e
  | .breakTo .. | .continueTo .. | .empty _ => []
  | .tryCatch rs b cs f _ =>
    Stmt.allCalls p rs ++ b.calls p ++ CatchClause.allCalls p cs ++ Block.optionCalls p f
  | .switch e cs _ => e.calls p.filled ++ SwitchCase.allCalls p cs
  | .synchronized e b _ => e.calls p.filled ++ b.calls p
  | .labeled _ a _ => a.calls p
  | .assertion e m _ => e.calls p.filled ++ Expr.optionCalls p.filled m

/-- The calls of statements. -/
def Stmt.allCalls (p : Place) : List Stmt → List (Place × Call)
  | [] => []
  | s :: ss => s.calls p ++ Stmt.allCalls p ss

/-- The calls of the initial values of variables, which are at the place. -/
def VarDeclarator.allCalls (p : Place) : List VarDeclarator → List (Place × Call)
  | [] => []
  | ⟨_, _, e, _⟩ :: vs => Expr.optionCalls p e ++ VarDeclarator.allCalls p vs

/-- The calls of handlers. -/
def CatchClause.allCalls (p : Place) : List CatchClause → List (Place × Call)
  | [] => []
  | ⟨m, _, _, b, _⟩ :: cs => m.calls .foreign ++ b.calls p ++ CatchClause.allCalls p cs

/-- The calls of the groups of a `switch`. -/
def SwitchCase.allCalls (p : Place) : List SwitchCase → List (Place × Call)
  | [] => []
  | ⟨ls, ss, _⟩ :: cs =>
    Expr.allCalls p.below ls ++ Stmt.allCalls p ss ++ SwitchCase.allCalls p cs

/-- The calls of the annotations among modifiers. -/
def Modifiers.calls (p : Place) : Modifiers → List (Place × Call)
  | ⟨_, as, _⟩ => Annot.allCalls p as

/-- The calls of annotations. -/
def Annot.allCalls (p : Place) : List Annot → List (Place × Call)
  | [] => []
  | ⟨_, as, _⟩ :: rest => AnnotArg.allCalls p as ++ Annot.allCalls p rest

/-- The calls of the arguments of an annotation. -/
def AnnotArg.allCalls (p : Place) : List AnnotArg → List (Place × Call)
  | [] => []
  | ⟨_, v, _⟩ :: as => v.calls p ++ AnnotArg.allCalls p as

/-- The calls of the value of an element. -/
def Element.calls (p : Place) : Element → List (Place × Call)
  | .expr e => e.calls p
  | .array es _ => Element.allCalls p es
  | .annot ⟨_, as, _⟩ => AnnotArg.allCalls p as

/-- The calls of several values. -/
def Element.allCalls (p : Place) : List Element → List (Place × Call)
  | [] => []
  | e :: es => e.calls p ++ Element.allCalls p es

/-- The calls of a value, if there is one. -/
def Element.optionCalls (p : Place) : Option Element → List (Place × Call)
  | none => []
  | some e => e.calls p

/-- The calls of a declared type: of its annotations, its constants and its members. -/
def TypeDecl.calls (p : Place) : TypeDecl → List (Place × Call)
  | ⟨m, _, _, _, _, _, cs, ms, _⟩ =>
    m.calls p ++ EnumConstant.allCalls p cs ++ Member.allCalls p ms

/-- The calls of constants. The annotations and the body of a constant are foreign. -/
def EnumConstant.allCalls (p : Place) : List EnumConstant → List (Place × Call)
  | [] => []
  | .plain as _ es _ :: cs =>
    Annot.allCalls .foreign as ++ Expr.allCalls p es ++ EnumConstant.allCalls p cs
  | .withBody as _ es ms _ :: cs =>
    Annot.allCalls .foreign as ++ Expr.allCalls p es ++ Member.allCalls .foreign ms ++
      EnumConstant.allCalls p cs

/-- The calls of a member. What is declared in it, and a member type, is foreign. -/
def Member.calls (p : Place) : Member → List (Place × Call)
  | .field m _ vs _ => m.calls .foreign ++ VarDeclarator.allCalls p.filled vs
  | .method m _ _ _ ps _ d b _ =>
    m.calls .foreign ++ Param.allCalls ps ++ Element.optionCalls .foreign d ++
      Block.optionCalls p b
  | .constructor m _ _ ps _ b _ => m.calls .foreign ++ Param.allCalls ps ++ b.calls p
  | .initializer _ b _ => b.calls p
  | .type d => d.calls .foreign

/-- The calls of members. -/
def Member.allCalls (p : Place) : List Member → List (Place × Call)
  | [] => []
  | m :: ms => m.calls p ++ Member.allCalls p ms

/-- The calls of the annotations of parameters, all of them foreign. -/
def Param.allCalls : List Param → List (Place × Call)
  | [] => []
  | ⟨m, _, _, _, _⟩ :: ps => m.calls .foreign ++ Param.allCalls ps

end

/-! ### The place changes the marks only -/

/-- A call with its mark changed to foreign. -/
def Place.hide (x : Place × Call) : Place × Call := (foreign, x.2)

mutual

theorem Expr.map_hide (p : Place) : ∀ e : Expr, (e.calls p).map Place.hide = e.calls .foreign
  | .literal .. | .name _ | .this _ | .super _ | .classLit .. => rfl
  | .paren e _ | .field e _ _ | .unary _ e _ | .update e _ _ | .methodRef e _ _ | .cast _ e _
  | .instanceOf e _ _ _ | .lambda _ e _ => e.map_hide _
  | .call id f as s => by simp [Expr.calls, Place.hide, f.map_hide, Expr.allMap_hide _ as]
  | .new _ as _ | .newArray _ as _ | .arrayInit as _ => Expr.allMap_hide _ as
  | .newAnonymous _ as ms _ => by
    simp [Expr.calls, Expr.allMap_hide _ as, Member.allMap_hide _ ms]
  | .newArrayOf _ ds es _ _ => by simp [Expr.calls, Expr.allMap_hide _ ds, Expr.allMap_hide _ es]
  | .index a b _ | .binary a _ b _ | .assign a _ b _ => by
    simp [Expr.calls, a.map_hide, b.map_hide]
  | .conditional e a b _ => by simp [Expr.calls, e.map_hide, a.map_hide, b.map_hide]
  | .blockLambda _ b _ => b.map_hide _

theorem Expr.allMap_hide (p : Place) :
    ∀ es : List Expr, (Expr.allCalls p es).map Place.hide = Expr.allCalls .foreign es
  | [] => rfl
  | e :: es => by simp [Expr.allCalls, e.map_hide, Expr.allMap_hide _ es]

theorem Expr.optionMap_hide (p : Place) :
    ∀ e : Option Expr, (Expr.optionCalls p e).map Place.hide = Expr.optionCalls .foreign e
  | none => rfl
  | some e => e.map_hide p

theorem Block.map_hide (p : Place) : ∀ b : Block, (b.calls p).map Place.hide = b.calls .foreign
  | ⟨ss, _⟩ => Stmt.allMap_hide p ss

theorem Block.optionMap_hide (p : Place) :
    ∀ b : Option Block, (Block.optionCalls p b).map Place.hide = Block.optionCalls .foreign b
  | none => rfl
  | some b => b.map_hide p

theorem Stmt.map_hide (p : Place) : ∀ s : Stmt, (s.calls p).map Place.hide = s.calls .foreign
  | .block b => b.map_hide p
  | .localVar m _ vs _ => by
    simp [Stmt.calls, m.map_hide, VarDeclarator.allMap_hide _ vs]
  | .localType d => d.map_hide _
  | .expr e _ | .throwing e _ => e.map_hide _
  | .ifThen e a _ | .whileLoop e a _ => by simp [Stmt.calls, e.map_hide, a.map_hide]
  | .ifElse e a b _ => by simp [Stmt.calls, e.map_hide, a.map_hide, b.map_hide]
  | .doLoop a e _ => by simp [Stmt.calls, e.map_hide, a.map_hide]
  | .forLoop i e us a _ => by
    simp [Stmt.calls, Stmt.allMap_hide _ i, Expr.optionMap_hide _ e, Expr.allMap_hide _ us,
      a.map_hide]
  | .forEach m _ _ e a _ => by simp [Stmt.calls, m.map_hide, e.map_hide, a.map_hide]
  | .ret e _ => Expr.optionMap_hide _ e
  | .breakTo .. | .continueTo .. | .empty _ => rfl
  | .tryCatch rs b cs f _ => by
    simp [Stmt.calls, Stmt.allMap_hide _ rs, b.map_hide, CatchClause.allMap_hide _ cs,
      Block.optionMap_hide _ f]
  | .switch e cs _ => by simp [Stmt.calls, e.map_hide, SwitchCase.allMap_hide _ cs]
  | .synchronized e b _ => by simp [Stmt.calls, e.map_hide, b.map_hide]
  | .labeled _ a _ => a.map_hide p
  | .assertion e m _ => by simp [Stmt.calls, e.map_hide, Expr.optionMap_hide _ m]

theorem Stmt.allMap_hide (p : Place) :
    ∀ ss : List Stmt, (Stmt.allCalls p ss).map Place.hide = Stmt.allCalls .foreign ss
  | [] => rfl
  | s :: ss => by simp [Stmt.allCalls, s.map_hide, Stmt.allMap_hide _ ss]

theorem VarDeclarator.allMap_hide (p : Place) : ∀ vs : List VarDeclarator,
    (VarDeclarator.allCalls p vs).map Place.hide = VarDeclarator.allCalls .foreign vs
  | [] => rfl
  | ⟨_, _, e, _⟩ :: vs => by
    simp [VarDeclarator.allCalls, Expr.optionMap_hide _ e, VarDeclarator.allMap_hide _ vs]

theorem CatchClause.allMap_hide (p : Place) : ∀ cs : List CatchClause,
    (CatchClause.allCalls p cs).map Place.hide = CatchClause.allCalls .foreign cs
  | [] => rfl
  | ⟨m, _, _, b, _⟩ :: cs => by
    simp [CatchClause.allCalls, m.map_hide, b.map_hide, CatchClause.allMap_hide _ cs]

theorem SwitchCase.allMap_hide (p : Place) : ∀ cs : List SwitchCase,
    (SwitchCase.allCalls p cs).map Place.hide = SwitchCase.allCalls .foreign cs
  | [] => rfl
  | ⟨ls, ss, _⟩ :: cs => by
    simp [SwitchCase.allCalls, Expr.allMap_hide _ ls, Stmt.allMap_hide _ ss,
      SwitchCase.allMap_hide _ cs]

theorem Modifiers.map_hide (p : Place) :
    ∀ m : Modifiers, (m.calls p).map Place.hide = m.calls .foreign
  | ⟨_, as, _⟩ => Annot.allMap_hide p as

theorem Annot.allMap_hide (p : Place) :
    ∀ as : List Annot, (Annot.allCalls p as).map Place.hide = Annot.allCalls .foreign as
  | [] => rfl
  | ⟨_, as, _⟩ :: rest => by
    simp [Annot.allCalls, AnnotArg.allMap_hide _ as, Annot.allMap_hide _ rest]

theorem AnnotArg.allMap_hide (p : Place) :
    ∀ as : List AnnotArg, (AnnotArg.allCalls p as).map Place.hide = AnnotArg.allCalls .foreign as
  | [] => rfl
  | ⟨_, v, _⟩ :: as => by simp [AnnotArg.allCalls, v.map_hide, AnnotArg.allMap_hide _ as]

theorem Element.map_hide (p : Place) :
    ∀ v : Element, (v.calls p).map Place.hide = v.calls .foreign
  | .expr e => e.map_hide p
  | .array es _ => Element.allMap_hide p es
  | .annot ⟨_, as, _⟩ => AnnotArg.allMap_hide p as

theorem Element.allMap_hide (p : Place) :
    ∀ vs : List Element, (Element.allCalls p vs).map Place.hide = Element.allCalls .foreign vs
  | [] => rfl
  | v :: vs => by simp [Element.allCalls, v.map_hide, Element.allMap_hide _ vs]

theorem Element.optionMap_hide (p : Place) :
    ∀ v : Option Element, (Element.optionCalls p v).map Place.hide = Element.optionCalls .foreign v
  | none => rfl
  | some v => v.map_hide p

theorem TypeDecl.map_hide (p : Place) :
    ∀ d : TypeDecl, (d.calls p).map Place.hide = d.calls .foreign
  | ⟨m, _, _, _, _, _, cs, ms, _⟩ => by
    simp [TypeDecl.calls, m.map_hide, EnumConstant.allMap_hide _ cs, Member.allMap_hide _ ms]

theorem EnumConstant.allMap_hide (p : Place) : ∀ cs : List EnumConstant,
    (EnumConstant.allCalls p cs).map Place.hide = EnumConstant.allCalls .foreign cs
  | [] => rfl
  | .plain as _ es _ :: cs => by
    simp [EnumConstant.allCalls, Annot.allMap_hide _ as, Expr.allMap_hide _ es,
      EnumConstant.allMap_hide _ cs]
  | .withBody as _ es ms _ :: cs => by
    simp [EnumConstant.allCalls, Annot.allMap_hide _ as, Expr.allMap_hide _ es,
      Member.allMap_hide _ ms, EnumConstant.allMap_hide _ cs]

theorem Member.map_hide (p : Place) : ∀ m : Member, (m.calls p).map Place.hide = m.calls .foreign
  | .field m _ vs _ => by simp [Member.calls, m.map_hide, VarDeclarator.allMap_hide _ vs]
  | .method m _ _ _ ps _ d b _ => by
    simp [Member.calls, m.map_hide, Param.allMap_hide ps, Element.optionMap_hide _ d,
      Block.optionMap_hide _ b]
  | .constructor m _ _ ps _ b _ => by
    simp [Member.calls, m.map_hide, Param.allMap_hide ps, b.map_hide]
  | .initializer _ b _ => b.map_hide p
  | .type d => d.map_hide _

theorem Member.allMap_hide (p : Place) :
    ∀ ms : List Member, (Member.allCalls p ms).map Place.hide = Member.allCalls .foreign ms
  | [] => rfl
  | m :: ms => by simp [Member.allCalls, m.map_hide, Member.allMap_hide _ ms]

theorem Param.allMap_hide :
    ∀ ps : List Param, (Param.allCalls ps).map Place.hide = Param.allCalls ps
  | [] => rfl
  | ⟨m, _, _, _, _⟩ :: ps => by simp [Param.allCalls, m.map_hide, Param.allMap_hide ps]

end

/-! ### Consequences -/

/-- **The listing is the same for every place**, marks apart. -/
theorem TypeDecl.map_calls (d : TypeDecl) (p : Place) :
    (d.calls p).map Prod.snd = (d.calls .foreign).map Prod.snd := by
  rw [← d.map_hide p, List.map_map]
  rfl

/-- The numbers of the calls of a declared type, wherever they stand in it. -/
def TypeDecl.callIds (d : TypeDecl) : List Nat := (d.calls .foreign).map fun x => x.2.id

theorem TypeDecl.callIds_eq (d : TypeDecl) (p : Place) :
    d.callIds = (d.calls p).map fun x => x.2.id := by
  have h := congrArg (List.map Call.id) (d.map_calls p)
  rw [List.map_map, List.map_map] at h
  exact h.symm

/-- The calls that fill slots. -/
def Place.slots (xs : List (Place × Call)) : List Call :=
  xs.filterMap fun x => if x.1 = slot then some x.2 else none

namespace Place

@[simp] theorem slots_nil : slots [] = [] := rfl

@[simp] theorem slots_append (xs ys : List (Place × Call)) :
    slots (xs ++ ys) = slots xs ++ slots ys := List.filterMap_append

@[simp] theorem slots_cons_slot (c : Call) (xs : List (Place × Call)) :
    slots ((slot, c) :: xs) = c :: slots xs := rfl

@[simp] theorem slots_cons_inside (c : Call) (xs : List (Place × Call)) :
    slots ((inside, c) :: xs) = slots xs := rfl

theorem mem_slots {c : Call} {xs : List (Place × Call)} : c ∈ slots xs ↔ (slot, c) ∈ xs := by
  simp [slots]

/-- The calls in slots are among all calls, in their order. -/
theorem slots_sublist (xs : List (Place × Call)) : (slots xs).Sublist (xs.map Prod.snd) := by
  induction xs with
  | nil => exact .slnil
  | cons x xs ih =>
    obtain ⟨p, c⟩ := x
    cases p with
    | slot => exact ih.cons_cons c
    | inside => exact ih.cons c
    | foreign => exact ih.cons c

/-- A foreign call fills no slot. -/
theorem slots_map_hide (xs : List (Place × Call)) : slots (xs.map hide) = [] := by
  simp [slots, hide]

end Place

/-! Nothing foreign fills a slot. -/

@[simp] theorem Modifiers.slots_foreign (m : Modifiers) : Place.slots (m.calls .foreign) = [] := by
  rw [← m.map_hide .foreign, Place.slots_map_hide]

@[simp] theorem Annot.slots_foreign (as : List Annot) :
    Place.slots (Annot.allCalls .foreign as) = [] := by
  rw [← Annot.allMap_hide .foreign as, Place.slots_map_hide]

@[simp] theorem TypeDecl.slots_foreign (d : TypeDecl) : Place.slots (d.calls .foreign) = [] := by
  rw [← d.map_hide .foreign, Place.slots_map_hide]

@[simp] theorem Member.slots_foreign (ms : List Member) :
    Place.slots (Member.allCalls .foreign ms) = [] := by
  rw [← Member.allMap_hide .foreign ms, Place.slots_map_hide]

@[simp] theorem Param.slots_calls (ps : List Param) : Place.slots (Param.allCalls ps) = [] := by
  rw [← Param.allMap_hide ps, Place.slots_map_hide]

@[simp] theorem Element.slots_foreign (v : Option Element) :
    Place.slots (Element.optionCalls .foreign v) = [] := by
  rw [← Element.optionMap_hide .foreign v, Place.slots_map_hide]

/-! ### The own code -/

/-- A place in the own code. -/
def Place.IsOwn (p : Place) : Prop := p ≠ .foreign

theorem Place.isOwn_slot : Place.slot.IsOwn := nofun

theorem Place.isOwn_inside : Place.inside.IsOwn := nofun

theorem Place.IsOwn.below {p : Place} (hp : p.IsOwn) : p.below.IsOwn := by
  cases p <;> simp_all [Place.IsOwn]

theorem Place.IsOwn.filled {p : Place} (hp : p.IsOwn) : p.filled.IsOwn := by
  cases p <;> simp_all [Place.IsOwn, Place.filled]

/-- The calls that are not foreign. -/
def Place.own (xs : List (Place × Call)) : List (Place × Call) := xs.filter (·.1 ≠ .foreign)

@[simp] theorem Place.own_append (xs ys : List (Place × Call)) :
    own (xs ++ ys) = own xs ++ own ys := List.filter_append _ _

theorem Place.own_cons {p : Place} (hp : p.IsOwn) (c : Call) (xs : List (Place × Call)) :
    own ((p, c) :: xs) = (p, c) :: own xs := List.filter_cons_of_pos (decide_eq_true hp)

theorem Place.own_hidden {xs : List (Place × Call)} (h : xs.map hide = xs) : own xs = [] := by
  rw [← h, own, List.filter_map, List.map_eq_nil_iff, List.filter_eq_nil_iff]
  simp [hide]

@[simp] theorem Modifiers.own_foreign (m : Modifiers) : Place.own (m.calls .foreign) = [] :=
  Place.own_hidden (m.map_hide _)

@[simp] theorem TypeDecl.own_foreign (d : TypeDecl) : Place.own (d.calls .foreign) = [] :=
  Place.own_hidden (d.map_hide _)

@[simp] theorem Member.own_foreign (ms : List Member) :
    Place.own (Member.allCalls .foreign ms) = [] := Place.own_hidden (Member.allMap_hide _ ms)

@[simp] theorem Param.own_calls (ps : List Param) : Place.own (Param.allCalls ps) = [] :=
  Place.own_hidden (Param.allMap_hide ps)

@[simp] theorem Element.own_foreign (v : Option Element) :
    Place.own (Element.optionCalls .foreign v) = [] := Place.own_hidden (Element.optionMap_hide _ v)

/-! ### Piece by piece -/

/-- The calls of annotations, annotation by annotation. -/
theorem Annot.allCalls_eq_flatMap (p : Place) (as : List Annot) :
    Annot.allCalls p as = as.flatMap fun a => AnnotArg.allCalls p a.args := by
  induction as with
  | nil => rfl
  | cons a as ih =>
    obtain ⟨n, args, s⟩ := a
    rw [Annot.allCalls, ih, List.flatMap_cons]

/-- The calls of members, member by member. -/
theorem Member.allCalls_eq_flatMap (p : Place) (ms : List Member) :
    Member.allCalls p ms = ms.flatMap (·.calls p) := by
  induction ms with
  | nil => rfl
  | cons m ms ih => rw [Member.allCalls, ih, List.flatMap_cons]

end JavaGraft

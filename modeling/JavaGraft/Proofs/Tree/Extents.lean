import Mathlib.Data.List.Flatten
import JavaGraft.Proofs.Tree.Calls

/-!
# Where the nodes of a tree stand

What is left of a syntax tree if only the places of its nodes matter, and the numbers of its calls:
an `Extent` has a span, the number if it is a call, and the extents of its children in the order of
the tree. Names, paths and types are nodes as well. Modifiers that were not written have no place;
a variant that only wraps another node, such as a statement that is a block, has the place of
that node.

The numbers of the calls of a declared type can be read off its extent
(`JavaGraft.TypeDecl.calls_extent`).
-/

namespace JavaGraft

/-! ### Extents -/

/-- A node without what it says: its place, its number if it is a call, and its children. -/
inductive Extent where
  | node (span : Span) (call : Option Nat) (parts : List Extent)

namespace Extent

/-- A node without children. -/
abbrev leaf (span : Span) : Extent := node span none []

/-- The place of a node. -/
def span : Extent → Span
  | node s _ _ => s

@[simp] theorem span_node (s : Span) (call : Option Nat) (parts : List Extent) :
    (node s call parts).span = s := rfl

mutual

/-- The numbers of the calls of a tree, a call standing before its parts. -/
def calls : Extent → List Nat
  | node _ call parts => call.toList ++ allCalls parts

/-- The numbers of the calls of several trees. -/
def allCalls : List Extent → List Nat
  | [] => []
  | x :: xs => x.calls ++ allCalls xs

end

@[simp] theorem calls_node (s : Span) (call : Option Nat) (parts : List Extent) :
    (node s call parts).calls = call.toList ++ allCalls parts := by rw [calls]

@[simp] theorem allCalls_nil : allCalls [] = [] := by rw [allCalls]

@[simp] theorem allCalls_cons (x : Extent) (xs : List Extent) :
    allCalls (x :: xs) = x.calls ++ allCalls xs := by rw [allCalls]

@[simp] theorem allCalls_append (xs ys : List Extent) :
    allCalls (xs ++ ys) = allCalls xs ++ allCalls ys := by
  induction xs with
  | nil => simp
  | cons x xs ih => simp [ih, List.append_assoc]

theorem allCalls_sublist {xs ys : List Extent} (h : xs.Sublist ys) :
    (allCalls xs).Sublist (allCalls ys) := by
  induction h with
  | slnil => exact .refl _
  | cons y _ ih =>
    rw [allCalls_cons]
    exact ih.trans (List.sublist_append_right _ _)
  | cons_cons x _ ih =>
    rw [allCalls_cons, allCalls_cons]
    exact (List.Sublist.refl _).append ih

/-- Trees without calls. -/
theorem allCalls_map_nil {α : Type} {f : α → Extent} (h : ∀ a, (f a).calls = [])
    (as : List α) : allCalls (as.map f) = [] := by
  induction as with
  | nil => exact allCalls_nil
  | cons a as ih => rw [List.map_cons, allCalls_cons, h, ih, List.append_nil]

mutual

/-- The places of the nodes of an extent, a node standing before its parts. -/
def places : Extent → List Span
  | node s _ parts => s :: allPlaces parts

/-- The places of the nodes of several extents. -/
def allPlaces : List Extent → List Span
  | [] => []
  | x :: xs => x.places ++ allPlaces xs

end

@[simp] theorem places_node (s : Span) (call : Option Nat) (parts : List Extent) :
    (node s call parts).places = s :: allPlaces parts := by rw [places]

/-- The first place of an extent is that of its topmost node. -/
theorem exists_places (x : Extent) : ∃ below, x.places = x.span :: below := by
  cases x with
  | node s call parts => exact ⟨allPlaces parts, places_node s call parts⟩

@[simp] theorem allPlaces_nil : allPlaces [] = [] := by rw [allPlaces]

@[simp] theorem allPlaces_cons (x : Extent) (xs : List Extent) :
    allPlaces (x :: xs) = x.places ++ allPlaces xs := by rw [allPlaces]

@[simp] theorem allPlaces_append (xs ys : List Extent) :
    allPlaces (xs ++ ys) = allPlaces xs ++ allPlaces ys := by
  induction xs with
  | nil => simp
  | cons x xs ih => simp [ih]

theorem allPlaces_eq (xs : List Extent) : allPlaces xs = xs.flatMap places := by
  induction xs with
  | nil => rw [allPlaces_nil, List.flatMap_nil]
  | cons x xs ih => rw [allPlaces_cons, ih, List.flatMap_cons]

/-- A place in several extents is a place in one of them. -/
theorem mem_allPlaces {s : Span} {xs : List Extent} :
    s ∈ allPlaces xs ↔ ∃ x ∈ xs, s ∈ x.places := by
  rw [allPlaces_eq, List.mem_flatMap]

theorem allPlaces_sublist {xs ys : List Extent} (h : xs.Sublist ys) :
    (allPlaces xs).Sublist (allPlaces ys) := by
  rw [allPlaces_eq, allPlaces_eq]
  exact h.flatMap places

end Extent

/-! ### Names and types -/

/-- The extent of a name. -/
def Ident.extent (i : Ident) : Extent := .leaf i.span

/-- The extent of a dotted name. -/
def Path.extent (p : Path) : Extent := .node p.span none (p.segments.map Ident.extent)

/-- What of the base of a type is a node. -/
def TypeBase.extents : TypeBase → List Extent
  | .named path => [path.extent]
  | .primitive _ | .inferred => []

mutual

/-- The extent of a type. -/
def TypeExpr.extent : TypeExpr → Extent
  | ⟨base, args, _, span⟩ => .node span none (base.extents ++ TypeArg.extents args)

/-- The extents of type arguments. A type as an argument is no node of its own. -/
def TypeArg.extents : List TypeArg → List Extent
  | [] => []
  | .type t :: as => t.extent :: TypeArg.extents as
  | .wildcard s :: as => .leaf s :: TypeArg.extents as
  | .upper t s :: as => .node s none [t.extent] :: TypeArg.extents as
  | .lower t s :: as => .node s none [t.extent] :: TypeArg.extents as

end

/-- The extent of a type argument. -/
def TypeArg.extent : TypeArg → Extent
  | .type t => t.extent
  | .wildcard s => .leaf s
  | .upper t s | .lower t s => .node s none [t.extent]

theorem TypeArg.extents_eq_map (as : List TypeArg) : TypeArg.extents as = as.map extent := by
  induction as with
  | nil => rfl
  | cons a as ih => cases a <;> simp [TypeArg.extents, extent, ih]

/-- The extent of a type parameter. -/
def TypeParam.extent (p : TypeParam) : Extent :=
  .node p.span none (p.name.extent :: p.bounds.map TypeExpr.extent)

/-- The extents of the parameter of a lambda, which is no node of its own. -/
def LambdaParam.extents (p : LambdaParam) : List Extent :=
  p.type.toList.map TypeExpr.extent ++ [p.name.extent]

/-- The extent of an import. -/
def ImportDecl.extent (d : ImportDecl) : Extent := .node d.span none [d.path.extent]

/-! ### Expressions, statements and declarations -/

mutual

/-- The extent of an expression. -/
def Expr.extent : Expr → Extent
  | .literal _ s | .this s | .super s => .leaf s
  | .name i => i.extent
  | .field e i s | .methodRef e i s => .node s none [e.extent, i.extent]
  | .call id f as s => .node s (some id) (f.extent :: Expr.extents as)
  | .new t as s | .newArray t as s => .node s none (t.extent :: Expr.extents as)
  | .newAnonymous t as ms s => .node s none (t.extent :: (Expr.extents as ++ Member.extents ms))
  | .newArrayOf t ds es inner s =>
    .node s none (t.extent :: (Expr.extents ds ++ [.node inner none (Expr.extents es)]))
  | .arrayInit es s => .node s none (Expr.extents es)
  | .index a b s | .binary a _ b s | .assign a _ b s => .node s none [a.extent, b.extent]
  | .unary _ e s | .update e _ s | .paren e s => .node s none [e.extent]
  | .instanceOf e t i s =>
    .node s none (e.extent :: t.extent :: i.toList.map Ident.extent)
  | .conditional e a b s => .node s none [e.extent, a.extent, b.extent]
  | .cast t e s => .node s none [t.extent, e.extent]
  | .classLit t s => .node s none [t.extent]
  | .lambda ps e s => .node s none (ps.flatMap LambdaParam.extents ++ [e.extent])
  | .blockLambda ps b s => .node s none (ps.flatMap LambdaParam.extents ++ [b.extent])

/-- The extents of expressions. -/
def Expr.extents : List Expr → List Extent
  | [] => []
  | e :: es => e.extent :: Expr.extents es

/-- The extent of an expression, if there is one. -/
def Expr.optionExtents : Option Expr → List Extent
  | none => []
  | some e => [e.extent]

/-- The extent of a block. -/
def Block.extent : Block → Extent
  | ⟨ss, s⟩ => .node s none (Stmt.extents ss)

/-- The extent of a block, if there is one. -/
def Block.optionExtents : Option Block → List Extent
  | none => []
  | some b => [b.extent]

/-- The extent of a statement. -/
def Stmt.extent : Stmt → Extent
  | .block b => b.extent
  | .localVar m t vs s =>
    .node s none (m.extents ++ t.extent :: VarDeclarator.extents vs)
  | .localType d => d.extent
  | .expr e s | .throwing e s => .node s none [e.extent]
  | .ifThen e a s | .whileLoop e a s => .node s none [e.extent, a.extent]
  | .ifElse e a b s => .node s none [e.extent, a.extent, b.extent]
  | .doLoop a e s => .node s none [a.extent, e.extent]
  | .forLoop i e us a s =>
    .node s none (Stmt.extents i ++ (Expr.optionExtents e ++ (Expr.extents us ++ [a.extent])))
  | .forEach m t i e a s =>
    .node s none (m.extents ++ [t.extent, i.extent, e.extent, a.extent])
  | .ret e s => .node s none (Expr.optionExtents e)
  | .breakTo i s | .continueTo i s => .node s none (i.toList.map Ident.extent)
  | .tryCatch rs b cs f s =>
    .node s none
      (Stmt.extents rs ++ b.extent :: (CatchClause.extents cs ++ Block.optionExtents f))
  | .switch e cs s => .node s none (e.extent :: SwitchCase.extents cs)
  | .synchronized e b s => .node s none [e.extent, b.extent]
  | .labeled i a s => .node s none [i.extent, a.extent]
  | .assertion e m s => .node s none (e.extent :: Expr.optionExtents m)
  | .empty s => .leaf s

/-- The extents of statements. -/
def Stmt.extents : List Stmt → List Extent
  | [] => []
  | a :: as => a.extent :: Stmt.extents as

/-- The extent of a variable. -/
def VarDeclarator.extent : VarDeclarator → Extent
  | ⟨i, _, e, s⟩ => .node s none (i.extent :: Expr.optionExtents e)

/-- The extents of variables. -/
def VarDeclarator.extents : List VarDeclarator → List Extent
  | [] => []
  | v :: vs => v.extent :: VarDeclarator.extents vs

/-- The extent of a handler. -/
def CatchClause.extent : CatchClause → Extent
  | ⟨m, ts, i, b, s⟩ =>
    .node s none (m.extents ++ (ts.map TypeExpr.extent ++ [i.extent, b.extent]))

/-- The extents of handlers. -/
def CatchClause.extents : List CatchClause → List Extent
  | [] => []
  | c :: cs => c.extent :: CatchClause.extents cs

/-- The extent of a group of a `switch`. -/
def SwitchCase.extent : SwitchCase → Extent
  | ⟨ls, as, s⟩ => .node s none (Expr.extents ls ++ Stmt.extents as)

/-- The extents of the groups of a `switch`. -/
def SwitchCase.extents : List SwitchCase → List Extent
  | [] => []
  | c :: cs => c.extent :: SwitchCase.extents cs

/-- The extent of modifiers, unless they are absent. -/
def Modifiers.extents : Modifiers → List Extent
  | ⟨_, as, s⟩ => if s = .absent then Annot.extents as else [.node s none (Annot.extents as)]

/-- The extent of an annotation. -/
def Annot.extent : Annot → Extent
  | ⟨p, as, s⟩ => .node s none (p.extent :: AnnotArg.extents as)

/-- The extents of annotations. -/
def Annot.extents : List Annot → List Extent
  | [] => []
  | a :: as => a.extent :: Annot.extents as

/-- The extent of an argument of an annotation. -/
def AnnotArg.extent : AnnotArg → Extent
  | ⟨i, v, s⟩ => .node s none (i.toList.map Ident.extent ++ [v.extent])

/-- The extents of the arguments of an annotation. -/
def AnnotArg.extents : List AnnotArg → List Extent
  | [] => []
  | a :: as => a.extent :: AnnotArg.extents as

/-- The extent of the value of an element. -/
def Element.extent : Element → Extent
  | .expr e => e.extent
  | .array es s => .node s none (Element.extents es)
  | .annot a => a.extent

/-- The extents of values. -/
def Element.extents : List Element → List Extent
  | [] => []
  | v :: vs => v.extent :: Element.extents vs

/-- The extent of a value, if there is one. -/
def Element.optionExtents : Option Element → List Extent
  | none => []
  | some v => [v.extent]

/-- The extent of a declared type. -/
def TypeDecl.extent : TypeDecl → Extent
  | ⟨m, _, i, ps, t, ts, cs, ms, s⟩ =>
    .node s none (m.extents ++ i.extent :: (ps.map TypeParam.extent ++
      (t.toList.map TypeExpr.extent ++ (ts.map TypeExpr.extent ++
        (EnumConstant.extents cs ++ Member.extents ms)))))

/-- The extent of a constant. -/
def EnumConstant.extent : EnumConstant → Extent
  | .plain as i es s => .node s none (Annot.extents as ++ i.extent :: Expr.extents es)
  | .withBody as i es ms s =>
    .node s none (Annot.extents as ++ i.extent :: (Expr.extents es ++ Member.extents ms))

/-- The extents of constants. -/
def EnumConstant.extents : List EnumConstant → List Extent
  | [] => []
  | c :: cs => c.extent :: EnumConstant.extents cs

/-- The extent of a member. -/
def Member.extent : Member → Extent
  | .field m t vs s => .node s none (m.extents ++ t.extent :: VarDeclarator.extents vs)
  | .method m ps t i as ts d b s =>
    .node s none (m.extents ++ (ps.map TypeParam.extent ++ t.extent :: i.extent ::
      (Param.extents as ++ (ts.map TypeExpr.extent ++
        (Element.optionExtents d ++ Block.optionExtents b)))))
  | .constructor m ps i as ts b s =>
    .node s none (m.extents ++ (ps.map TypeParam.extent ++ i.extent ::
      (Param.extents as ++ (ts.map TypeExpr.extent ++ [b.extent]))))
  | .initializer _ b s => .node s none [b.extent]
  | .type d => d.extent

/-- The extents of members. -/
def Member.extents : List Member → List Extent
  | [] => []
  | m :: ms => m.extent :: Member.extents ms

/-- The extent of a parameter. -/
def Param.extent : Param → Extent
  | ⟨m, t, _, i, s⟩ => .node s none (m.extents ++ [t.extent, i.extent])

/-- The extents of parameters. -/
def Param.extents : List Param → List Extent
  | [] => []
  | p :: ps => p.extent :: Param.extents ps

end

/-- The extent of a source file. -/
def SourceUnit.extent (u : SourceUnit) : Extent :=
  .node u.span none (u.package.toList.map Path.extent ++
    (u.imports.map ImportDecl.extent ++ u.types.map TypeDecl.extent))

/-! ### Lists and options -/

theorem Expr.extents_eq_map (es : List Expr) : Expr.extents es = es.map Expr.extent := by
  induction es with
  | nil => rfl
  | cons e es ih => rw [Expr.extents, ih, List.map_cons]

theorem Stmt.extents_eq_map (as : List Stmt) : Stmt.extents as = as.map Stmt.extent := by
  induction as with
  | nil => rfl
  | cons a as ih => rw [Stmt.extents, ih, List.map_cons]

theorem VarDeclarator.extents_eq_map (vs : List VarDeclarator) :
    VarDeclarator.extents vs = vs.map VarDeclarator.extent := by
  induction vs with
  | nil => rfl
  | cons v vs ih => rw [VarDeclarator.extents, ih, List.map_cons]

theorem CatchClause.extents_eq_map (cs : List CatchClause) :
    CatchClause.extents cs = cs.map CatchClause.extent := by
  induction cs with
  | nil => rfl
  | cons c cs ih => rw [CatchClause.extents, ih, List.map_cons]

theorem SwitchCase.extents_eq_map (cs : List SwitchCase) :
    SwitchCase.extents cs = cs.map SwitchCase.extent := by
  induction cs with
  | nil => rfl
  | cons c cs ih => rw [SwitchCase.extents, ih, List.map_cons]

theorem Annot.extents_eq_map (as : List Annot) : Annot.extents as = as.map Annot.extent := by
  induction as with
  | nil => rfl
  | cons a as ih => rw [Annot.extents, ih, List.map_cons]

theorem AnnotArg.extents_eq_map (as : List AnnotArg) :
    AnnotArg.extents as = as.map AnnotArg.extent := by
  induction as with
  | nil => rfl
  | cons a as ih => rw [AnnotArg.extents, ih, List.map_cons]

theorem Element.extents_eq_map (vs : List Element) :
    Element.extents vs = vs.map Element.extent := by
  induction vs with
  | nil => rfl
  | cons v vs ih => rw [Element.extents, ih, List.map_cons]

theorem EnumConstant.extents_eq_map (cs : List EnumConstant) :
    EnumConstant.extents cs = cs.map EnumConstant.extent := by
  induction cs with
  | nil => rfl
  | cons c cs ih => rw [EnumConstant.extents, ih, List.map_cons]

theorem Member.extents_eq_map (ms : List Member) : Member.extents ms = ms.map Member.extent := by
  induction ms with
  | nil => rfl
  | cons m ms ih => rw [Member.extents, ih, List.map_cons]

theorem Param.extents_eq_map (ps : List Param) : Param.extents ps = ps.map Param.extent := by
  induction ps with
  | nil => rfl
  | cons p ps ih => rw [Param.extents, ih, List.map_cons]

theorem Expr.optionExtents_eq_map (e : Option Expr) :
    Expr.optionExtents e = e.toList.map Expr.extent := by
  cases e <;> rfl

theorem Block.optionExtents_eq_map (b : Option Block) :
    Block.optionExtents b = b.toList.map Block.extent := by
  cases b <;> rfl

theorem Element.optionExtents_eq_map (v : Option Element) :
    Element.optionExtents v = v.toList.map Element.extent := by
  cases v <;> rfl

@[simp] theorem TypeExpr.span_extent (t : TypeExpr) : t.extent.span = t.span := by
  cases t; rfl

@[simp] theorem Expr.span_extent (e : Expr) : e.extent.span = e.span := by
  cases e <;> rfl

@[simp] theorem Element.span_extent (v : Element) : v.extent.span = v.span := by
  cases v with
  | expr e => exact e.span_extent
  | array items span => rfl
  | annot a => cases a; rfl

@[simp] theorem TypeDecl.span_extent (d : TypeDecl) : d.extent.span = d.span := by
  cases d; rfl

@[simp] theorem Member.span_extent (m : Member) : m.extent.span = m.span := by
  cases m with
  | type d => exact d.span_extent
  | _ => rfl

/-! ### Calls -/

@[simp] theorem Ident.calls_extent (i : Ident) : i.extent.calls = [] := by
  simp [Ident.extent]

@[simp] theorem Path.calls_extent (p : Path) : p.extent.calls = [] := by
  simp [Path.extent, Extent.allCalls_map_nil Ident.calls_extent]

mutual

@[simp] theorem TypeExpr.calls_extent : ∀ t : TypeExpr, t.extent.calls = []
  | ⟨base, args, _, _⟩ => by
    cases base <;> simp [TypeExpr.extent, TypeBase.extents, TypeArg.calls_extents args]

@[simp] theorem TypeArg.calls_extents :
    ∀ as : List TypeArg, Extent.allCalls (TypeArg.extents as) = []
  | [] => Extent.allCalls_nil
  | .type t :: as => by simp [TypeArg.extents, t.calls_extent, TypeArg.calls_extents as]
  | .wildcard _ :: as => by simp [TypeArg.extents, TypeArg.calls_extents as]
  | .upper t _ :: as => by simp [TypeArg.extents, t.calls_extent, TypeArg.calls_extents as]
  | .lower t _ :: as => by simp [TypeArg.extents, t.calls_extent, TypeArg.calls_extents as]

end

@[simp] theorem TypeParam.calls_extent (p : TypeParam) : p.extent.calls = [] := by
  simp [TypeParam.extent, Extent.allCalls_map_nil TypeExpr.calls_extent]

@[simp] theorem Ident.calls_map_extent (is : List Ident) :
    Extent.allCalls (is.map Ident.extent) = [] := Extent.allCalls_map_nil Ident.calls_extent is

@[simp] theorem TypeExpr.calls_map_extent (ts : List TypeExpr) :
    Extent.allCalls (ts.map TypeExpr.extent) = [] :=
  Extent.allCalls_map_nil TypeExpr.calls_extent ts

@[simp] theorem TypeParam.calls_map_extent (ps : List TypeParam) :
    Extent.allCalls (ps.map TypeParam.extent) = [] :=
  Extent.allCalls_map_nil TypeParam.calls_extent ps

@[simp] theorem LambdaParam.calls_extents (ps : List LambdaParam) :
    Extent.allCalls (ps.flatMap LambdaParam.extents) = [] := by
  induction ps with
  | nil => rfl
  | cons p ps ih => simp [LambdaParam.extents, ih]

/-- The numbers of listed calls. -/
def Place.ids (xs : List (Place × Call)) : List Nat := xs.map fun x => x.2.id

namespace Place

@[simp] theorem ids_nil : ids [] = [] := rfl

@[simp] theorem ids_cons (x : Place × Call) (xs : List (Place × Call)) :
    ids (x :: xs) = x.2.id :: ids xs := rfl

@[simp] theorem ids_append (xs ys : List (Place × Call)) : ids (xs ++ ys) = ids xs ++ ids ys :=
  List.map_append

end Place

open Extent (allCalls allCalls_nil)

mutual

theorem Expr.calls_extent : ∀ e : Expr, e.extent.calls = Place.ids (e.calls .foreign)
  | .literal .. | .name _ | .this _ | .super _ => by simp [Expr.extent, Expr.calls]
  | .classLit .. => by simp [Expr.extent, Expr.calls]
  | .paren e _ | .unary _ e _ | .update e _ _ | .field e _ _ | .methodRef e _ _ | .cast _ e _
  | .instanceOf e _ _ _ | .lambda _ e _ => by simp [Expr.extent, Expr.calls, e.calls_extent]
  | .call _ f as _ => by
    simp [Expr.extent, Expr.calls, f.calls_extent, Expr.calls_extents as]
  | .new _ as _ | .newArray _ as _ | .arrayInit as _ => by
    simp [Expr.extent, Expr.calls, Expr.calls_extents as]
  | .newAnonymous _ as ms _ => by
    simp [Expr.extent, Expr.calls, Expr.calls_extents as, Member.calls_extents ms]
  | .newArrayOf _ ds es _ _ => by
    simp [Expr.extent, Expr.calls, Expr.calls_extents ds, Expr.calls_extents es]
  | .index a b _ | .binary a _ b _ | .assign a _ b _ => by
    simp [Expr.extent, Expr.calls, a.calls_extent, b.calls_extent]
  | .conditional e a b _ => by
    simp [Expr.extent, Expr.calls, e.calls_extent, a.calls_extent, b.calls_extent]
  | .blockLambda _ b _ => by simp [Expr.extent, Expr.calls, b.calls_extent]

theorem Expr.calls_extents :
    ∀ es : List Expr, allCalls (Expr.extents es) = Place.ids (Expr.allCalls .foreign es)
  | [] => allCalls_nil
  | e :: es => by simp [Expr.extents, Expr.allCalls, e.calls_extent, Expr.calls_extents es]

theorem Expr.calls_optionExtents : ∀ e : Option Expr,
    allCalls (Expr.optionExtents e) = Place.ids (Expr.optionCalls .foreign e)
  | none => allCalls_nil
  | some e => by simp [Expr.optionExtents, Expr.optionCalls, e.calls_extent]

theorem Block.calls_extent : ∀ b : Block, b.extent.calls = Place.ids (b.calls .foreign)
  | ⟨ss, _⟩ => by simp [Block.extent, Block.calls, Stmt.calls_extents ss]

theorem Block.calls_optionExtents : ∀ b : Option Block,
    allCalls (Block.optionExtents b) = Place.ids (Block.optionCalls .foreign b)
  | none => allCalls_nil
  | some b => by simp [Block.optionExtents, Block.optionCalls, b.calls_extent]

theorem Stmt.calls_extent : ∀ a : Stmt, a.extent.calls = Place.ids (a.calls .foreign)
  | .block b => b.calls_extent
  | .localVar m _ vs _ => by
    simp [Stmt.extent, Stmt.calls, m.calls_extents, VarDeclarator.calls_extents vs]
  | .localType d => d.calls_extent
  | .expr e _ | .throwing e _ => by simp [Stmt.extent, Stmt.calls, e.calls_extent]
  | .ifThen e a _ | .whileLoop e a _ => by
    simp [Stmt.extent, Stmt.calls, e.calls_extent, a.calls_extent]
  | .ifElse e a b _ => by
    simp [Stmt.extent, Stmt.calls, e.calls_extent, a.calls_extent, b.calls_extent]
  | .doLoop a e _ => by simp [Stmt.extent, Stmt.calls, e.calls_extent, a.calls_extent]
  | .forLoop i e us a _ => by
    simp [Stmt.extent, Stmt.calls, Stmt.calls_extents i, Expr.calls_optionExtents e,
      Expr.calls_extents us, a.calls_extent]
  | .forEach m _ _ e a _ => by
    simp [Stmt.extent, Stmt.calls, m.calls_extents, e.calls_extent, a.calls_extent]
  | .ret e _ => by simp [Stmt.extent, Stmt.calls, Expr.calls_optionExtents e]
  | .breakTo .. | .continueTo .. | .empty _ => by simp [Stmt.extent, Stmt.calls]
  | .tryCatch rs b cs f _ => by
    simp [Stmt.extent, Stmt.calls, Stmt.calls_extents rs, b.calls_extent,
      CatchClause.calls_extents cs, Block.calls_optionExtents f]
  | .switch e cs _ => by
    simp [Stmt.extent, Stmt.calls, e.calls_extent, SwitchCase.calls_extents cs]
  | .synchronized e b _ => by simp [Stmt.extent, Stmt.calls, e.calls_extent, b.calls_extent]
  | .labeled _ a _ => by simp [Stmt.extent, Stmt.calls, a.calls_extent]
  | .assertion e m _ => by
    simp [Stmt.extent, Stmt.calls, e.calls_extent, Expr.calls_optionExtents m]

theorem Stmt.calls_extents :
    ∀ ss : List Stmt, allCalls (Stmt.extents ss) = Place.ids (Stmt.allCalls .foreign ss)
  | [] => allCalls_nil
  | a :: as => by simp [Stmt.extents, Stmt.allCalls, a.calls_extent, Stmt.calls_extents as]

theorem VarDeclarator.calls_extents : ∀ vs : List VarDeclarator,
    allCalls (VarDeclarator.extents vs) = Place.ids (VarDeclarator.allCalls .foreign vs)
  | [] => allCalls_nil
  | ⟨_, _, e, _⟩ :: vs => by
    simp [VarDeclarator.extents, VarDeclarator.extent, VarDeclarator.allCalls,
      Expr.calls_optionExtents e, VarDeclarator.calls_extents vs]

theorem CatchClause.calls_extents : ∀ cs : List CatchClause,
    allCalls (CatchClause.extents cs) = Place.ids (CatchClause.allCalls .foreign cs)
  | [] => allCalls_nil
  | ⟨m, _, _, b, _⟩ :: cs => by
    simp [CatchClause.extents, CatchClause.extent, CatchClause.allCalls, m.calls_extents,
      b.calls_extent, CatchClause.calls_extents cs]

theorem SwitchCase.calls_extents : ∀ cs : List SwitchCase,
    allCalls (SwitchCase.extents cs) = Place.ids (SwitchCase.allCalls .foreign cs)
  | [] => allCalls_nil
  | ⟨ls, ss, _⟩ :: cs => by
    simp [SwitchCase.extents, SwitchCase.extent, SwitchCase.allCalls,
      Expr.calls_extents ls, Stmt.calls_extents ss, SwitchCase.calls_extents cs]

theorem Modifiers.calls_extents :
    ∀ m : Modifiers, allCalls m.extents = Place.ids (m.calls .foreign)
  | ⟨_, as, _⟩ => by
    rw [Modifiers.extents, Modifiers.calls, ← Annot.calls_extents as]
    split <;> simp

theorem Annot.calls_extents :
    ∀ as : List Annot, allCalls (Annot.extents as) = Place.ids (Annot.allCalls .foreign as)
  | [] => allCalls_nil
  | ⟨_, as, _⟩ :: rest => by
    simp [Annot.extents, Annot.extent, Annot.allCalls, AnnotArg.calls_extents as,
      Annot.calls_extents rest]

theorem AnnotArg.calls_extents : ∀ as : List AnnotArg,
    allCalls (AnnotArg.extents as) = Place.ids (AnnotArg.allCalls .foreign as)
  | [] => allCalls_nil
  | ⟨_, v, _⟩ :: as => by
    simp [AnnotArg.extents, AnnotArg.extent, AnnotArg.allCalls, v.calls_extent,
      AnnotArg.calls_extents as]

theorem Element.calls_extent : ∀ v : Element, v.extent.calls = Place.ids (v.calls .foreign)
  | .expr e => e.calls_extent
  | .array es _ => by simp [Element.extent, Element.calls, Element.calls_extents es]
  | .annot ⟨_, as, _⟩ => by
    simp [Element.extent, Annot.extent, Element.calls, AnnotArg.calls_extents as]

theorem Element.calls_extents :
    ∀ vs : List Element, allCalls (Element.extents vs) = Place.ids (Element.allCalls .foreign vs)
  | [] => allCalls_nil
  | v :: vs => by simp [Element.extents, Element.allCalls, v.calls_extent, Element.calls_extents vs]

theorem Element.calls_optionExtents : ∀ v : Option Element,
    allCalls (Element.optionExtents v) = Place.ids (Element.optionCalls .foreign v)
  | none => allCalls_nil
  | some v => by simp [Element.optionExtents, Element.optionCalls, v.calls_extent]

/-- **The extent of a declared type holds the numbers of all its calls**, in their order. -/
theorem TypeDecl.calls_extent : ∀ d : TypeDecl, d.extent.calls = d.callIds
  | ⟨m, _, _, _, t, _, cs, ms, _⟩ => by
    change _ = Place.ids _
    simp [TypeDecl.extent, TypeDecl.calls, m.calls_extents, EnumConstant.calls_extents cs,
      Member.calls_extents ms]

theorem EnumConstant.calls_extents : ∀ cs : List EnumConstant,
    allCalls (EnumConstant.extents cs) = Place.ids (EnumConstant.allCalls .foreign cs)
  | [] => allCalls_nil
  | .plain as _ es _ :: cs => by
    simp [EnumConstant.extents, EnumConstant.extent, EnumConstant.allCalls, Annot.calls_extents as,
      Expr.calls_extents es, EnumConstant.calls_extents cs]
  | .withBody as _ es ms _ :: cs => by
    simp [EnumConstant.extents, EnumConstant.extent, EnumConstant.allCalls, Annot.calls_extents as,
      Expr.calls_extents es, Member.calls_extents ms, EnumConstant.calls_extents cs]

theorem Member.calls_extent : ∀ m : Member, m.extent.calls = Place.ids (m.calls .foreign)
  | .field m _ vs _ => by
    simp [Member.extent, Member.calls, m.calls_extents, VarDeclarator.calls_extents vs]
  | .method m _ _ _ ps _ d b _ => by
    simp [Member.extent, Member.calls, m.calls_extents, Param.calls_extents ps,
      Element.calls_optionExtents d, Block.calls_optionExtents b]
  | .constructor m _ _ ps _ b _ => by
    simp [Member.extent, Member.calls, m.calls_extents, Param.calls_extents ps, b.calls_extent]
  | .initializer _ b _ => by simp [Member.extent, Member.calls, b.calls_extent]
  | .type d => d.calls_extent

theorem Member.calls_extents :
    ∀ ms : List Member, allCalls (Member.extents ms) = Place.ids (Member.allCalls .foreign ms)
  | [] => allCalls_nil
  | m :: ms => by simp [Member.extents, Member.allCalls, m.calls_extent, Member.calls_extents ms]

theorem Param.calls_extents :
    ∀ ps : List Param, allCalls (Param.extents ps) = Place.ids (Param.allCalls ps)
  | [] => allCalls_nil
  | ⟨m, _, _, _, _⟩ :: ps => by
    simp [Param.extents, Param.extent, Param.allCalls, m.calls_extents, Param.calls_extents ps]

end

end JavaGraft

import JavaGraft.Ast.Tree
import Mathlib.Logic.Function.Basic

/-!
# Other labels for the same tree

Two sorts of labels in a tree say nothing about the program: the numbers of its calls, and the
spans. A `Relabeling` gives each label another one, and `relabeled` carries it through a tree.

Whatever the labels are, the tree keeps its shape, so looking into a tree and relabelling it can be
done in either order. If no two labels become one, relabelling can be undone
(`JavaGraft.Expr.relabeled_relabeled`), and hence no two trees become one.
-/

namespace JavaGraft

/-- Other numbers for calls and other spans. -/
structure Relabeling where
  call : Nat → Nat
  span : Span → Span

namespace Relabeling

/-- All labels as they are. -/
def same : Relabeling := ⟨id, id⟩

/-- The numbers of calls moved up, the spans as they are. -/
def shift (n : Nat) : Relabeling := ⟨(· + n), id⟩

/-- No labels at all: all calls have the same number, and all spans are absent. -/
def erased : Relabeling := ⟨fun _ => 0, fun _ => .absent⟩

/-- One relabelling after another. -/
def andThen (ρ τ : Relabeling) : Relabeling := ⟨τ.call ∘ ρ.call, τ.span ∘ ρ.span⟩

@[simp]
theorem same_call (n : Nat) : same.call n = n := rfl

@[simp]
theorem same_span (s : Span) : same.span s = s := rfl

@[simp]
theorem andThen_call (ρ τ : Relabeling) (n : Nat) : (ρ.andThen τ).call n = τ.call (ρ.call n) := rfl

@[simp]
theorem andThen_span (ρ τ : Relabeling) (s : Span) : (ρ.andThen τ).span s = τ.span (ρ.span s) := rfl

/-- No two labels become one. -/
structure Injective (ρ : Relabeling) : Prop where
  call : Function.Injective ρ.call
  span : Function.Injective ρ.span

theorem injective_shift (n : Nat) : (shift n).Injective :=
  ⟨fun a b h => by simp only [shift] at h; omega, Function.injective_id⟩

end Relabeling

variable (ρ τ : Relabeling)

/-! ### Names and types -/

/-- A name with its span relabelled. -/
def Ident.relabeled (i : Ident) : Ident := ⟨i.name, ρ.span i.span⟩

/-- A dotted name with its spans relabelled. -/
def Path.relabeled (p : Path) : Path := ⟨p.segments.map (Ident.relabeled ρ), ρ.span p.span⟩

/-- What a type starts with, its spans relabelled. -/
def TypeBase.relabeled : TypeBase → TypeBase
  | primitive p => primitive p
  | named path => named (path.relabeled ρ)
  | inferred => inferred

mutual

/-- A type with its spans relabelled. -/
def TypeExpr.relabeled (ρ : Relabeling) : TypeExpr → TypeExpr
  | ⟨base, args, dims, span⟩ =>
    ⟨base.relabeled ρ, TypeArg.allRelabeled ρ args, dims, ρ.span span⟩

/-- A type argument with its spans relabelled. -/
def TypeArg.relabeled (ρ : Relabeling) : TypeArg → TypeArg
  | .type t => .type (t.relabeled ρ)
  | .wildcard s => .wildcard (ρ.span s)
  | .upper t s => .upper (t.relabeled ρ) (ρ.span s)
  | .lower t s => .lower (t.relabeled ρ) (ρ.span s)

/-- Type arguments with their spans relabelled. -/
def TypeArg.allRelabeled (ρ : Relabeling) : List TypeArg → List TypeArg
  | [] => []
  | a :: as => a.relabeled ρ :: TypeArg.allRelabeled ρ as

end

/-- A type parameter with its spans relabelled. -/
def TypeParam.relabeled (p : TypeParam) : TypeParam :=
  ⟨p.name.relabeled ρ, p.bounds.map (TypeExpr.relabeled ρ), ρ.span p.span⟩

/-- A parameter of a lambda with its spans relabelled. -/
def LambdaParam.relabeled (p : LambdaParam) : LambdaParam :=
  ⟨p.type.map (TypeExpr.relabeled ρ), p.name.relabeled ρ⟩

/-! ### Code and declarations -/

mutual

/-- An expression with its labels replaced. -/
def Expr.relabeled (ρ : Relabeling) : Expr → Expr
  | .literal v s => .literal v (ρ.span s)
  | .name i => .name (i.relabeled ρ)
  | .this s => .this (ρ.span s)
  | .super s => .super (ρ.span s)
  | .field e n s => .field (e.relabeled ρ) (n.relabeled ρ) (ρ.span s)
  | .call id f as s => .call (ρ.call id) (f.relabeled ρ) (Expr.allRelabeled ρ as) (ρ.span s)
  | .new t as s => .new (t.relabeled ρ) (Expr.allRelabeled ρ as) (ρ.span s)
  | .newAnonymous t as ms s =>
    .newAnonymous (t.relabeled ρ) (Expr.allRelabeled ρ as) (Member.allRelabeled ρ ms) (ρ.span s)
  | .newArray t ds s => .newArray (t.relabeled ρ) (Expr.allRelabeled ρ ds) (ρ.span s)
  | .newArrayOf t ds es b s =>
    .newArrayOf (t.relabeled ρ) (Expr.allRelabeled ρ ds) (Expr.allRelabeled ρ es) (ρ.span b)
      (ρ.span s)
  | .arrayInit es s => .arrayInit (Expr.allRelabeled ρ es) (ρ.span s)
  | .index a b s => .index (a.relabeled ρ) (b.relabeled ρ) (ρ.span s)
  | .unary op e s => .unary op (e.relabeled ρ) (ρ.span s)
  | .update e op s => .update (e.relabeled ρ) op (ρ.span s)
  | .binary a op b s => .binary (a.relabeled ρ) op (b.relabeled ρ) (ρ.span s)
  | .instanceOf e t n s =>
    .instanceOf (e.relabeled ρ) (t.relabeled ρ) (n.map (Ident.relabeled ρ)) (ρ.span s)
  | .assign a op b s => .assign (a.relabeled ρ) op (b.relabeled ρ) (ρ.span s)
  | .conditional e a b s =>
    .conditional (e.relabeled ρ) (a.relabeled ρ) (b.relabeled ρ) (ρ.span s)
  | .cast t e s => .cast (t.relabeled ρ) (e.relabeled ρ) (ρ.span s)
  | .paren e s => .paren (e.relabeled ρ) (ρ.span s)
  | .classLit t s => .classLit (t.relabeled ρ) (ρ.span s)
  | .lambda ps e s => .lambda (ps.map (LambdaParam.relabeled ρ)) (e.relabeled ρ) (ρ.span s)
  | .blockLambda ps b s =>
    .blockLambda (ps.map (LambdaParam.relabeled ρ)) (b.relabeled ρ) (ρ.span s)
  | .methodRef e n s => .methodRef (e.relabeled ρ) (n.relabeled ρ) (ρ.span s)

/-- Expressions with their labels replaced. -/
def Expr.allRelabeled (ρ : Relabeling) : List Expr → List Expr
  | [] => []
  | e :: es => e.relabeled ρ :: Expr.allRelabeled ρ es

/-- An expression, if there is one, with its labels replaced. -/
def Expr.optionRelabeled (ρ : Relabeling) : Option Expr → Option Expr
  | none => none
  | some e => some (e.relabeled ρ)

/-- A block with its labels replaced. -/
def Block.relabeled (ρ : Relabeling) : Block → Block
  | ⟨ss, s⟩ => ⟨Stmt.allRelabeled ρ ss, ρ.span s⟩

/-- A block, if there is one, with its labels replaced. -/
def Block.optionRelabeled (ρ : Relabeling) : Option Block → Option Block
  | none => none
  | some b => some (b.relabeled ρ)

/-- A statement with its labels replaced. -/
def Stmt.relabeled (ρ : Relabeling) : Stmt → Stmt
  | .block b => .block (b.relabeled ρ)
  | .localVar m t vs s =>
    .localVar (m.relabeled ρ) (t.relabeled ρ) (VarDeclarator.allRelabeled ρ vs) (ρ.span s)
  | .localType d => .localType (d.relabeled ρ)
  | .expr e s => .expr (e.relabeled ρ) (ρ.span s)
  | .ifThen e a s => .ifThen (e.relabeled ρ) (a.relabeled ρ) (ρ.span s)
  | .ifElse e a b s => .ifElse (e.relabeled ρ) (a.relabeled ρ) (b.relabeled ρ) (ρ.span s)
  | .whileLoop e a s => .whileLoop (e.relabeled ρ) (a.relabeled ρ) (ρ.span s)
  | .doLoop a e s => .doLoop (a.relabeled ρ) (e.relabeled ρ) (ρ.span s)
  | .forLoop i e us a s =>
    .forLoop (Stmt.allRelabeled ρ i) (Expr.optionRelabeled ρ e) (Expr.allRelabeled ρ us)
      (a.relabeled ρ) (ρ.span s)
  | .forEach m t n e a s =>
    .forEach (m.relabeled ρ) (t.relabeled ρ) (n.relabeled ρ) (e.relabeled ρ) (a.relabeled ρ)
      (ρ.span s)
  | .ret e s => .ret (Expr.optionRelabeled ρ e) (ρ.span s)
  | .breakTo l s => .breakTo (l.map (Ident.relabeled ρ)) (ρ.span s)
  | .continueTo l s => .continueTo (l.map (Ident.relabeled ρ)) (ρ.span s)
  | .throwing e s => .throwing (e.relabeled ρ) (ρ.span s)
  | .tryCatch rs b cs f s =>
    .tryCatch (Stmt.allRelabeled ρ rs) (b.relabeled ρ) (CatchClause.allRelabeled ρ cs)
      (Block.optionRelabeled ρ f) (ρ.span s)
  | .switch e cs s => .switch (e.relabeled ρ) (SwitchCase.allRelabeled ρ cs) (ρ.span s)
  | .synchronized e b s => .synchronized (e.relabeled ρ) (b.relabeled ρ) (ρ.span s)
  | .labeled l a s => .labeled (l.relabeled ρ) (a.relabeled ρ) (ρ.span s)
  | .assertion e m s => .assertion (e.relabeled ρ) (Expr.optionRelabeled ρ m) (ρ.span s)
  | .empty s => .empty (ρ.span s)

/-- Statements with their labels replaced. -/
def Stmt.allRelabeled (ρ : Relabeling) : List Stmt → List Stmt
  | [] => []
  | s :: ss => s.relabeled ρ :: Stmt.allRelabeled ρ ss

/-- A variable with its labels replaced. -/
def VarDeclarator.relabeled (ρ : Relabeling) : VarDeclarator → VarDeclarator
  | ⟨n, dims, e, s⟩ => ⟨n.relabeled ρ, dims, Expr.optionRelabeled ρ e, ρ.span s⟩

/-- Variables with their labels replaced. -/
def VarDeclarator.allRelabeled (ρ : Relabeling) : List VarDeclarator → List VarDeclarator
  | [] => []
  | v :: vs => v.relabeled ρ :: VarDeclarator.allRelabeled ρ vs

/-- A handler with its labels replaced. -/
def CatchClause.relabeled (ρ : Relabeling) : CatchClause → CatchClause
  | ⟨m, ts, n, b, s⟩ =>
    ⟨m.relabeled ρ, ts.map (TypeExpr.relabeled ρ), n.relabeled ρ, b.relabeled ρ, ρ.span s⟩

/-- Handlers with their labels replaced. -/
def CatchClause.allRelabeled (ρ : Relabeling) : List CatchClause → List CatchClause
  | [] => []
  | c :: cs => c.relabeled ρ :: CatchClause.allRelabeled ρ cs

/-- A group of a `switch` with its labels replaced. -/
def SwitchCase.relabeled (ρ : Relabeling) : SwitchCase → SwitchCase
  | ⟨ls, ss, s⟩ => ⟨Expr.allRelabeled ρ ls, Stmt.allRelabeled ρ ss, ρ.span s⟩

/-- Groups of a `switch` with their labels replaced. -/
def SwitchCase.allRelabeled (ρ : Relabeling) : List SwitchCase → List SwitchCase
  | [] => []
  | c :: cs => c.relabeled ρ :: SwitchCase.allRelabeled ρ cs

/-- Modifiers with their labels replaced. -/
def Modifiers.relabeled (ρ : Relabeling) : Modifiers → Modifiers
  | ⟨flags, as, s⟩ => ⟨flags, Annot.allRelabeled ρ as, ρ.span s⟩

/-- An annotation with its labels replaced. -/
def Annot.relabeled (ρ : Relabeling) : Annot → Annot
  | ⟨n, as, s⟩ => ⟨n.relabeled ρ, AnnotArg.allRelabeled ρ as, ρ.span s⟩

/-- Annotations with their labels replaced. -/
def Annot.allRelabeled (ρ : Relabeling) : List Annot → List Annot
  | [] => []
  | a :: as => a.relabeled ρ :: Annot.allRelabeled ρ as

/-- An argument of an annotation with its labels replaced. -/
def AnnotArg.relabeled (ρ : Relabeling) : AnnotArg → AnnotArg
  | ⟨n, v, s⟩ => ⟨n.map (Ident.relabeled ρ), v.relabeled ρ, ρ.span s⟩

/-- Arguments of an annotation with their labels replaced. -/
def AnnotArg.allRelabeled (ρ : Relabeling) : List AnnotArg → List AnnotArg
  | [] => []
  | a :: as => a.relabeled ρ :: AnnotArg.allRelabeled ρ as

/-- An element's value with its labels replaced. -/
def Element.relabeled (ρ : Relabeling) : Element → Element
  | .expr e => .expr (e.relabeled ρ)
  | .array es s => .array (Element.allRelabeled ρ es) (ρ.span s)
  | .annot a => .annot (a.relabeled ρ)

/-- Values with their labels replaced. -/
def Element.allRelabeled (ρ : Relabeling) : List Element → List Element
  | [] => []
  | e :: es => e.relabeled ρ :: Element.allRelabeled ρ es

/-- An element's value, if there is one, with its labels replaced. -/
def Element.optionRelabeled (ρ : Relabeling) : Option Element → Option Element
  | none => none
  | some e => some (e.relabeled ρ)

/-- A type with its labels replaced. -/
def TypeDecl.relabeled (ρ : Relabeling) : TypeDecl → TypeDecl
  | ⟨m, kind, n, tps, sup, is, cs, ms, s⟩ =>
    ⟨m.relabeled ρ, kind, n.relabeled ρ, tps.map (TypeParam.relabeled ρ),
      sup.map (TypeExpr.relabeled ρ), is.map (TypeExpr.relabeled ρ),
      EnumConstant.allRelabeled ρ cs, Member.allRelabeled ρ ms, ρ.span s⟩

/-- A constant with its labels replaced. -/
def EnumConstant.relabeled (ρ : Relabeling) : EnumConstant → EnumConstant
  | .plain as n es s =>
    .plain (Annot.allRelabeled ρ as) (n.relabeled ρ) (Expr.allRelabeled ρ es) (ρ.span s)
  | .withBody as n es ms s =>
    .withBody (Annot.allRelabeled ρ as) (n.relabeled ρ) (Expr.allRelabeled ρ es)
      (Member.allRelabeled ρ ms) (ρ.span s)

/-- Constants with their labels replaced. -/
def EnumConstant.allRelabeled (ρ : Relabeling) : List EnumConstant → List EnumConstant
  | [] => []
  | c :: cs => c.relabeled ρ :: EnumConstant.allRelabeled ρ cs

/-- A member with its labels replaced. -/
def Member.relabeled (ρ : Relabeling) : Member → Member
  | .field m t vs s =>
    .field (m.relabeled ρ) (t.relabeled ρ) (VarDeclarator.allRelabeled ρ vs) (ρ.span s)
  | .method m tps t n ps ts d b s =>
    .method (m.relabeled ρ) (tps.map (TypeParam.relabeled ρ)) (t.relabeled ρ) (n.relabeled ρ)
      (Param.allRelabeled ρ ps) (ts.map (TypeExpr.relabeled ρ)) (Element.optionRelabeled ρ d)
      (Block.optionRelabeled ρ b) (ρ.span s)
  | .constructor m tps n ps ts b s =>
    .constructor (m.relabeled ρ) (tps.map (TypeParam.relabeled ρ)) (n.relabeled ρ)
      (Param.allRelabeled ρ ps) (ts.map (TypeExpr.relabeled ρ)) (b.relabeled ρ) (ρ.span s)
  | .initializer st b s => .initializer st (b.relabeled ρ) (ρ.span s)
  | .type d => .type (d.relabeled ρ)

/-- Members with their labels replaced. -/
def Member.allRelabeled (ρ : Relabeling) : List Member → List Member
  | [] => []
  | m :: ms => m.relabeled ρ :: Member.allRelabeled ρ ms

/-- A parameter with its labels replaced. -/
def Param.relabeled (ρ : Relabeling) : Param → Param
  | ⟨m, t, varargs, n, s⟩ =>
    ⟨m.relabeled ρ, t.relabeled ρ, varargs, n.relabeled ρ, ρ.span s⟩

/-- Parameters with their labels replaced. -/
def Param.allRelabeled (ρ : Relabeling) : List Param → List Param
  | [] => []
  | p :: ps => p.relabeled ρ :: Param.allRelabeled ρ ps

end

/-- A call with its labels replaced. -/
def Call.relabeled (c : Call) : Call :=
  ⟨ρ.call c.id, c.callee.relabeled ρ, c.args.map (Expr.relabeled ρ), ρ.span c.span⟩

/-- An import with its spans relabelled. -/
def ImportDecl.relabeled (i : ImportDecl) : ImportDecl :=
  ⟨i.path.relabeled ρ, i.isStatic, i.onDemand, ρ.span i.span⟩

/-- A source file with its labels replaced. -/
def SourceUnit.relabeled (u : SourceUnit) : SourceUnit :=
  ⟨u.package.map (Path.relabeled ρ), u.imports.map (ImportDecl.relabeled ρ),
    u.types.map (TypeDecl.relabeled ρ), ρ.span u.span⟩

/-! ### One relabelling after another -/

@[simp]
theorem Ident.relabeled_relabeled (i : Ident) :
    (i.relabeled ρ).relabeled τ = i.relabeled (ρ.andThen τ) := rfl

@[simp]
theorem Ident.relabeled_comp :
    Ident.relabeled τ ∘ Ident.relabeled ρ = Ident.relabeled (ρ.andThen τ) := rfl

@[simp]
theorem Path.relabeled_relabeled (p : Path) :
    (p.relabeled ρ).relabeled τ = p.relabeled (ρ.andThen τ) := by
  simp [relabeled]

@[simp]
theorem TypeBase.relabeled_relabeled (b : TypeBase) :
    (b.relabeled ρ).relabeled τ = b.relabeled (ρ.andThen τ) := by
  cases b <;> simp [relabeled]

mutual

@[simp]
theorem TypeExpr.relabeled_relabeled : ∀ t : TypeExpr,
    (t.relabeled ρ).relabeled τ = t.relabeled (ρ.andThen τ)
  | ⟨_, args, _, _⟩ => by simp [TypeExpr.relabeled, TypeArg.allRelabeled_relabeled args]

@[simp]
theorem TypeArg.relabeled_relabeled : ∀ a : TypeArg,
    (a.relabeled ρ).relabeled τ = a.relabeled (ρ.andThen τ)
  | .type t | .upper t _ | .lower t _ => by
    simp [TypeArg.relabeled, TypeExpr.relabeled_relabeled t]
  | .wildcard _ => rfl

theorem TypeArg.allRelabeled_relabeled : ∀ as : List TypeArg,
    TypeArg.allRelabeled τ (TypeArg.allRelabeled ρ as) = TypeArg.allRelabeled (ρ.andThen τ) as
  | [] => rfl
  | a :: as => by
    simp [TypeArg.allRelabeled, TypeArg.relabeled_relabeled a,
      TypeArg.allRelabeled_relabeled as]

end

@[simp]
theorem TypeExpr.relabeled_comp :
    TypeExpr.relabeled τ ∘ TypeExpr.relabeled ρ = TypeExpr.relabeled (ρ.andThen τ) :=
  funext fun t => t.relabeled_relabeled ρ τ

@[simp]
theorem TypeParam.relabeled_comp :
    TypeParam.relabeled τ ∘ TypeParam.relabeled ρ = TypeParam.relabeled (ρ.andThen τ) := by
  funext p
  simp [TypeParam.relabeled]

@[simp]
theorem LambdaParam.relabeled_comp :
    LambdaParam.relabeled τ ∘ LambdaParam.relabeled ρ = LambdaParam.relabeled (ρ.andThen τ) := by
  funext p
  simp [LambdaParam.relabeled]

mutual

@[simp]
theorem Expr.relabeled_relabeled : ∀ e : Expr,
    (e.relabeled ρ).relabeled τ = e.relabeled (ρ.andThen τ)
  | .literal .. | .name _ | .this _ | .super _ | .classLit .. => by simp [Expr.relabeled]
  | .field e _ _ | .unary _ e _ | .update e _ _ | .paren e _ | .methodRef e _ _ | .cast _ e _
  | .instanceOf e _ _ _ | .lambda _ e _ => by
    simp [Expr.relabeled, Expr.relabeled_relabeled e]
  | .call _ f as _ => by
    simp [Expr.relabeled, Expr.relabeled_relabeled f, Expr.allRelabeled_relabeled as]
  | .new _ as _ => by simp [Expr.relabeled, Expr.allRelabeled_relabeled as]
  | .newAnonymous _ as ms _ => by
    simp [Expr.relabeled, Expr.allRelabeled_relabeled as, Member.allRelabeled_relabeled ms]
  | .newArray _ ds _ => by simp [Expr.relabeled, Expr.allRelabeled_relabeled ds]
  | .newArrayOf _ ds es _ _ => by
    simp [Expr.relabeled, Expr.allRelabeled_relabeled ds, Expr.allRelabeled_relabeled es]
  | .arrayInit es _ => by simp [Expr.relabeled, Expr.allRelabeled_relabeled es]
  | .index a b _ | .binary a _ b _ | .assign a _ b _ => by
    simp [Expr.relabeled, Expr.relabeled_relabeled a, Expr.relabeled_relabeled b]
  | .conditional e a b _ => by
    simp [Expr.relabeled, Expr.relabeled_relabeled e, Expr.relabeled_relabeled a,
      Expr.relabeled_relabeled b]
  | .blockLambda _ b _ => by simp [Expr.relabeled, Block.relabeled_relabeled b]

theorem Expr.allRelabeled_relabeled : ∀ es : List Expr,
    Expr.allRelabeled τ (Expr.allRelabeled ρ es) = Expr.allRelabeled (ρ.andThen τ) es
  | [] => rfl
  | e :: es => by
    simp [Expr.allRelabeled, Expr.relabeled_relabeled e, Expr.allRelabeled_relabeled es]

theorem Expr.optionRelabeled_relabeled : ∀ e? : Option Expr,
    Expr.optionRelabeled τ (Expr.optionRelabeled ρ e?) = Expr.optionRelabeled (ρ.andThen τ) e?
  | none => rfl
  | some e => by simp [Expr.optionRelabeled, Expr.relabeled_relabeled e]

@[simp]
theorem Block.relabeled_relabeled : ∀ b : Block,
    (b.relabeled ρ).relabeled τ = b.relabeled (ρ.andThen τ)
  | ⟨ss, _⟩ => by simp [Block.relabeled, Stmt.allRelabeled_relabeled ss]

theorem Block.optionRelabeled_relabeled : ∀ b? : Option Block,
    Block.optionRelabeled τ (Block.optionRelabeled ρ b?) = Block.optionRelabeled (ρ.andThen τ) b?
  | none => rfl
  | some b => by simp [Block.optionRelabeled, Block.relabeled_relabeled b]

@[simp]
theorem Stmt.relabeled_relabeled : ∀ s : Stmt,
    (s.relabeled ρ).relabeled τ = s.relabeled (ρ.andThen τ)
  | .block b => by simp [Stmt.relabeled, Block.relabeled_relabeled b]
  | .localVar m _ vs _ => by
    simp [Stmt.relabeled, Modifiers.relabeled_relabeled m, VarDeclarator.allRelabeled_relabeled vs]
  | .localType d => by simp [Stmt.relabeled, TypeDecl.relabeled_relabeled d]
  | .expr e _ | .throwing e _ => by simp [Stmt.relabeled, Expr.relabeled_relabeled e]
  | .ifThen e a _ | .whileLoop e a _ | .doLoop a e _ => by
    simp [Stmt.relabeled, Expr.relabeled_relabeled e, Stmt.relabeled_relabeled a]
  | .ifElse e a b _ => by
    simp [Stmt.relabeled, Expr.relabeled_relabeled e, Stmt.relabeled_relabeled a,
      Stmt.relabeled_relabeled b]
  | .forLoop i e us a _ => by
    simp [Stmt.relabeled, Stmt.allRelabeled_relabeled i, Expr.optionRelabeled_relabeled e,
      Expr.allRelabeled_relabeled us, Stmt.relabeled_relabeled a]
  | .forEach m _ _ e a _ => by
    simp [Stmt.relabeled, Modifiers.relabeled_relabeled m, Expr.relabeled_relabeled e,
      Stmt.relabeled_relabeled a]
  | .ret e _ => by simp [Stmt.relabeled, Expr.optionRelabeled_relabeled e]
  | .breakTo .. | .continueTo .. | .empty _ => by simp [Stmt.relabeled]
  | .tryCatch rs b cs f _ => by
    simp [Stmt.relabeled, Stmt.allRelabeled_relabeled rs, Block.relabeled_relabeled b,
      CatchClause.allRelabeled_relabeled cs, Block.optionRelabeled_relabeled f]
  | .switch e cs _ => by
    simp [Stmt.relabeled, Expr.relabeled_relabeled e, SwitchCase.allRelabeled_relabeled cs]
  | .synchronized e b _ => by
    simp [Stmt.relabeled, Expr.relabeled_relabeled e, Block.relabeled_relabeled b]
  | .labeled _ a _ => by simp [Stmt.relabeled, Stmt.relabeled_relabeled a]
  | .assertion e m _ => by
    simp [Stmt.relabeled, Expr.relabeled_relabeled e, Expr.optionRelabeled_relabeled m]

theorem Stmt.allRelabeled_relabeled : ∀ ss : List Stmt,
    Stmt.allRelabeled τ (Stmt.allRelabeled ρ ss) = Stmt.allRelabeled (ρ.andThen τ) ss
  | [] => rfl
  | s :: ss => by
    simp [Stmt.allRelabeled, Stmt.relabeled_relabeled s, Stmt.allRelabeled_relabeled ss]

@[simp]
theorem VarDeclarator.relabeled_relabeled : ∀ v : VarDeclarator,
    (v.relabeled ρ).relabeled τ = v.relabeled (ρ.andThen τ)
  | ⟨_, _, e, _⟩ => by simp [VarDeclarator.relabeled, Expr.optionRelabeled_relabeled e]

theorem VarDeclarator.allRelabeled_relabeled : ∀ vs : List VarDeclarator,
    VarDeclarator.allRelabeled τ (VarDeclarator.allRelabeled ρ vs)
      = VarDeclarator.allRelabeled (ρ.andThen τ) vs
  | [] => rfl
  | v :: vs => by
    simp [VarDeclarator.allRelabeled, VarDeclarator.relabeled_relabeled v,
      VarDeclarator.allRelabeled_relabeled vs]

@[simp]
theorem CatchClause.relabeled_relabeled : ∀ c : CatchClause,
    (c.relabeled ρ).relabeled τ = c.relabeled (ρ.andThen τ)
  | ⟨m, _, _, b, _⟩ => by
    simp [CatchClause.relabeled, Modifiers.relabeled_relabeled m, Block.relabeled_relabeled b]

theorem CatchClause.allRelabeled_relabeled : ∀ cs : List CatchClause,
    CatchClause.allRelabeled τ (CatchClause.allRelabeled ρ cs)
      = CatchClause.allRelabeled (ρ.andThen τ) cs
  | [] => rfl
  | c :: cs => by
    simp [CatchClause.allRelabeled, CatchClause.relabeled_relabeled c,
      CatchClause.allRelabeled_relabeled cs]

@[simp]
theorem SwitchCase.relabeled_relabeled : ∀ c : SwitchCase,
    (c.relabeled ρ).relabeled τ = c.relabeled (ρ.andThen τ)
  | ⟨ls, ss, _⟩ => by
    simp [SwitchCase.relabeled, Expr.allRelabeled_relabeled ls, Stmt.allRelabeled_relabeled ss]

theorem SwitchCase.allRelabeled_relabeled : ∀ cs : List SwitchCase,
    SwitchCase.allRelabeled τ (SwitchCase.allRelabeled ρ cs)
      = SwitchCase.allRelabeled (ρ.andThen τ) cs
  | [] => rfl
  | c :: cs => by
    simp [SwitchCase.allRelabeled, SwitchCase.relabeled_relabeled c,
      SwitchCase.allRelabeled_relabeled cs]

@[simp]
theorem Modifiers.relabeled_relabeled : ∀ m : Modifiers,
    (m.relabeled ρ).relabeled τ = m.relabeled (ρ.andThen τ)
  | ⟨_, as, _⟩ => by simp [Modifiers.relabeled, Annot.allRelabeled_relabeled as]

@[simp]
theorem Annot.relabeled_relabeled : ∀ a : Annot,
    (a.relabeled ρ).relabeled τ = a.relabeled (ρ.andThen τ)
  | ⟨_, as, _⟩ => by simp [Annot.relabeled, AnnotArg.allRelabeled_relabeled as]

theorem Annot.allRelabeled_relabeled : ∀ as : List Annot,
    Annot.allRelabeled τ (Annot.allRelabeled ρ as) = Annot.allRelabeled (ρ.andThen τ) as
  | [] => rfl
  | a :: as => by
    simp [Annot.allRelabeled, Annot.relabeled_relabeled a, Annot.allRelabeled_relabeled as]

@[simp]
theorem AnnotArg.relabeled_relabeled : ∀ a : AnnotArg,
    (a.relabeled ρ).relabeled τ = a.relabeled (ρ.andThen τ)
  | ⟨_, v, _⟩ => by simp [AnnotArg.relabeled, Element.relabeled_relabeled v]

theorem AnnotArg.allRelabeled_relabeled : ∀ as : List AnnotArg,
    AnnotArg.allRelabeled τ (AnnotArg.allRelabeled ρ as) = AnnotArg.allRelabeled (ρ.andThen τ) as
  | [] => rfl
  | a :: as => by
    simp [AnnotArg.allRelabeled, AnnotArg.relabeled_relabeled a, AnnotArg.allRelabeled_relabeled as]

@[simp]
theorem Element.relabeled_relabeled : ∀ e : Element,
    (e.relabeled ρ).relabeled τ = e.relabeled (ρ.andThen τ)
  | .expr e => by simp [Element.relabeled, Expr.relabeled_relabeled e]
  | .array es _ => by simp [Element.relabeled, Element.allRelabeled_relabeled es]
  | .annot a => by simp [Element.relabeled, Annot.relabeled_relabeled a]

theorem Element.allRelabeled_relabeled : ∀ es : List Element,
    Element.allRelabeled τ (Element.allRelabeled ρ es) = Element.allRelabeled (ρ.andThen τ) es
  | [] => rfl
  | e :: es => by
    simp [Element.allRelabeled, Element.relabeled_relabeled e, Element.allRelabeled_relabeled es]

theorem Element.optionRelabeled_relabeled : ∀ e? : Option Element,
    Element.optionRelabeled τ (Element.optionRelabeled ρ e?)
      = Element.optionRelabeled (ρ.andThen τ) e?
  | none => rfl
  | some e => by simp [Element.optionRelabeled, Element.relabeled_relabeled e]

@[simp]
theorem TypeDecl.relabeled_relabeled : ∀ d : TypeDecl,
    (d.relabeled ρ).relabeled τ = d.relabeled (ρ.andThen τ)
  | ⟨m, _, _, _, _, _, cs, ms, _⟩ => by
    simp [TypeDecl.relabeled, Modifiers.relabeled_relabeled m,
      EnumConstant.allRelabeled_relabeled cs, Member.allRelabeled_relabeled ms]

@[simp]
theorem EnumConstant.relabeled_relabeled : ∀ c : EnumConstant,
    (c.relabeled ρ).relabeled τ = c.relabeled (ρ.andThen τ)
  | .plain as _ es _ => by
    simp [EnumConstant.relabeled, Annot.allRelabeled_relabeled as, Expr.allRelabeled_relabeled es]
  | .withBody as _ es ms _ => by
    simp [EnumConstant.relabeled, Annot.allRelabeled_relabeled as, Expr.allRelabeled_relabeled es,
      Member.allRelabeled_relabeled ms]

theorem EnumConstant.allRelabeled_relabeled : ∀ cs : List EnumConstant,
    EnumConstant.allRelabeled τ (EnumConstant.allRelabeled ρ cs)
      = EnumConstant.allRelabeled (ρ.andThen τ) cs
  | [] => rfl
  | c :: cs => by
    simp [EnumConstant.allRelabeled, EnumConstant.relabeled_relabeled c,
      EnumConstant.allRelabeled_relabeled cs]

@[simp]
theorem Member.relabeled_relabeled : ∀ m : Member,
    (m.relabeled ρ).relabeled τ = m.relabeled (ρ.andThen τ)
  | .field m _ vs _ => by
    simp [Member.relabeled, Modifiers.relabeled_relabeled m,
      VarDeclarator.allRelabeled_relabeled vs]
  | .method m _ _ _ ps _ d b _ => by
    simp [Member.relabeled, Modifiers.relabeled_relabeled m, Param.allRelabeled_relabeled ps,
      Element.optionRelabeled_relabeled d, Block.optionRelabeled_relabeled b]
  | .constructor m _ _ ps _ b _ => by
    simp [Member.relabeled, Modifiers.relabeled_relabeled m, Param.allRelabeled_relabeled ps,
      Block.relabeled_relabeled b]
  | .initializer _ b _ => by simp [Member.relabeled, Block.relabeled_relabeled b]
  | .type d => by simp [Member.relabeled, TypeDecl.relabeled_relabeled d]

theorem Member.allRelabeled_relabeled : ∀ ms : List Member,
    Member.allRelabeled τ (Member.allRelabeled ρ ms) = Member.allRelabeled (ρ.andThen τ) ms
  | [] => rfl
  | m :: ms => by
    simp [Member.allRelabeled, Member.relabeled_relabeled m, Member.allRelabeled_relabeled ms]

@[simp]
theorem Param.relabeled_relabeled : ∀ p : Param,
    (p.relabeled ρ).relabeled τ = p.relabeled (ρ.andThen τ)
  | ⟨m, _, _, _, _⟩ => by simp [Param.relabeled, Modifiers.relabeled_relabeled m]

theorem Param.allRelabeled_relabeled : ∀ ps : List Param,
    Param.allRelabeled τ (Param.allRelabeled ρ ps) = Param.allRelabeled (ρ.andThen τ) ps
  | [] => rfl
  | p :: ps => by
    simp [Param.allRelabeled, Param.relabeled_relabeled p, Param.allRelabeled_relabeled ps]

end

/-! ### No labels replaced -/

@[simp]
theorem Ident.relabeled_same (i : Ident) : i.relabeled .same = i := rfl

@[simp]
theorem Ident.relabeled_same_eq_id : Ident.relabeled .same = id := rfl

@[simp]
theorem Path.relabeled_same (p : Path) : p.relabeled .same = p := by simp [relabeled]

@[simp]
theorem TypeBase.relabeled_same (b : TypeBase) : b.relabeled .same = b := by
  cases b <;> simp [relabeled]

mutual

@[simp]
theorem TypeExpr.relabeled_same : ∀ t : TypeExpr, t.relabeled .same = t
  | ⟨_, args, _, _⟩ => by simp [TypeExpr.relabeled, TypeArg.allRelabeled_same args]

@[simp]
theorem TypeArg.relabeled_same : ∀ a : TypeArg, a.relabeled .same = a
  | .type t | .upper t _ | .lower t _ => by simp [TypeArg.relabeled, TypeExpr.relabeled_same t]
  | .wildcard _ => rfl

theorem TypeArg.allRelabeled_same : ∀ as : List TypeArg, TypeArg.allRelabeled .same as = as
  | [] => rfl
  | a :: as => by
    simp [TypeArg.allRelabeled, TypeArg.relabeled_same a, TypeArg.allRelabeled_same as]

end

@[simp]
theorem TypeExpr.relabeled_same_eq_id : TypeExpr.relabeled .same = id :=
  funext TypeExpr.relabeled_same

@[simp]
theorem TypeParam.relabeled_same_eq_id : TypeParam.relabeled .same = id := by
  funext p
  simp [TypeParam.relabeled]

@[simp]
theorem LambdaParam.relabeled_same_eq_id : LambdaParam.relabeled .same = id := by
  funext p
  simp [LambdaParam.relabeled]

mutual

@[simp]
theorem Expr.relabeled_same : ∀ e : Expr, e.relabeled .same = e
  | .literal .. | .name _ | .this _ | .super _ | .classLit .. => by simp [Expr.relabeled]
  | .field e _ _ | .unary _ e _ | .update e _ _ | .paren e _ | .methodRef e _ _ | .cast _ e _
  | .instanceOf e _ _ _ | .lambda _ e _ => by
    simp [Expr.relabeled, Expr.relabeled_same e]
  | .call _ f as _ => by simp [Expr.relabeled, Expr.relabeled_same f, Expr.allRelabeled_same as]
  | .new _ as _ => by simp [Expr.relabeled, Expr.allRelabeled_same as]
  | .newAnonymous _ as ms _ => by
    simp [Expr.relabeled, Expr.allRelabeled_same as, Member.allRelabeled_same ms]
  | .newArray _ ds _ => by simp [Expr.relabeled, Expr.allRelabeled_same ds]
  | .newArrayOf _ ds es _ _ => by
    simp [Expr.relabeled, Expr.allRelabeled_same ds, Expr.allRelabeled_same es]
  | .arrayInit es _ => by simp [Expr.relabeled, Expr.allRelabeled_same es]
  | .index a b _ | .binary a _ b _ | .assign a _ b _ => by
    simp [Expr.relabeled, Expr.relabeled_same a, Expr.relabeled_same b]
  | .conditional e a b _ => by
    simp [Expr.relabeled, Expr.relabeled_same e, Expr.relabeled_same a, Expr.relabeled_same b]
  | .blockLambda _ b _ => by simp [Expr.relabeled, Block.relabeled_same b]

theorem Expr.allRelabeled_same : ∀ es : List Expr, Expr.allRelabeled .same es = es
  | [] => rfl
  | e :: es => by simp [Expr.allRelabeled, Expr.relabeled_same e, Expr.allRelabeled_same es]

theorem Expr.optionRelabeled_same : ∀ e? : Option Expr, Expr.optionRelabeled .same e? = e?
  | none => rfl
  | some e => by simp [Expr.optionRelabeled, Expr.relabeled_same e]

@[simp]
theorem Block.relabeled_same : ∀ b : Block, b.relabeled .same = b
  | ⟨ss, _⟩ => by simp [Block.relabeled, Stmt.allRelabeled_same ss]

theorem Block.optionRelabeled_same : ∀ b? : Option Block, Block.optionRelabeled .same b? = b?
  | none => rfl
  | some b => by simp [Block.optionRelabeled, Block.relabeled_same b]

@[simp]
theorem Stmt.relabeled_same : ∀ s : Stmt, s.relabeled .same = s
  | .block b => by simp [Stmt.relabeled, Block.relabeled_same b]
  | .localVar m _ vs _ => by
    simp [Stmt.relabeled, Modifiers.relabeled_same m, VarDeclarator.allRelabeled_same vs]
  | .localType d => by simp [Stmt.relabeled, TypeDecl.relabeled_same d]
  | .expr e _ | .throwing e _ => by simp [Stmt.relabeled, Expr.relabeled_same e]
  | .ifThen e a _ | .whileLoop e a _ | .doLoop a e _ => by
    simp [Stmt.relabeled, Expr.relabeled_same e, Stmt.relabeled_same a]
  | .ifElse e a b _ => by
    simp [Stmt.relabeled, Expr.relabeled_same e, Stmt.relabeled_same a, Stmt.relabeled_same b]
  | .forLoop i e us a _ => by
    simp [Stmt.relabeled, Stmt.allRelabeled_same i, Expr.optionRelabeled_same e,
      Expr.allRelabeled_same us, Stmt.relabeled_same a]
  | .forEach m _ _ e a _ => by
    simp [Stmt.relabeled, Modifiers.relabeled_same m, Expr.relabeled_same e, Stmt.relabeled_same a]
  | .ret e _ => by simp [Stmt.relabeled, Expr.optionRelabeled_same e]
  | .breakTo .. | .continueTo .. | .empty _ => by simp [Stmt.relabeled]
  | .tryCatch rs b cs f _ => by
    simp [Stmt.relabeled, Stmt.allRelabeled_same rs, Block.relabeled_same b,
      CatchClause.allRelabeled_same cs, Block.optionRelabeled_same f]
  | .switch e cs _ => by
    simp [Stmt.relabeled, Expr.relabeled_same e, SwitchCase.allRelabeled_same cs]
  | .synchronized e b _ => by simp [Stmt.relabeled, Expr.relabeled_same e, Block.relabeled_same b]
  | .labeled _ a _ => by simp [Stmt.relabeled, Stmt.relabeled_same a]
  | .assertion e m _ => by simp [Stmt.relabeled, Expr.relabeled_same e, Expr.optionRelabeled_same m]

theorem Stmt.allRelabeled_same : ∀ ss : List Stmt, Stmt.allRelabeled .same ss = ss
  | [] => rfl
  | s :: ss => by simp [Stmt.allRelabeled, Stmt.relabeled_same s, Stmt.allRelabeled_same ss]

@[simp]
theorem VarDeclarator.relabeled_same : ∀ v : VarDeclarator, v.relabeled .same = v
  | ⟨_, _, e, _⟩ => by simp [VarDeclarator.relabeled, Expr.optionRelabeled_same e]

theorem VarDeclarator.allRelabeled_same : ∀ vs : List VarDeclarator,
    VarDeclarator.allRelabeled .same vs = vs
  | [] => rfl
  | v :: vs => by
    simp [VarDeclarator.allRelabeled, VarDeclarator.relabeled_same v,
      VarDeclarator.allRelabeled_same vs]

@[simp]
theorem CatchClause.relabeled_same : ∀ c : CatchClause, c.relabeled .same = c
  | ⟨m, _, _, b, _⟩ => by
    simp [CatchClause.relabeled, Modifiers.relabeled_same m, Block.relabeled_same b]

theorem CatchClause.allRelabeled_same : ∀ cs : List CatchClause,
    CatchClause.allRelabeled .same cs = cs
  | [] => rfl
  | c :: cs => by
    simp [CatchClause.allRelabeled, CatchClause.relabeled_same c, CatchClause.allRelabeled_same cs]

@[simp]
theorem SwitchCase.relabeled_same : ∀ c : SwitchCase, c.relabeled .same = c
  | ⟨ls, ss, _⟩ => by
    simp [SwitchCase.relabeled, Expr.allRelabeled_same ls, Stmt.allRelabeled_same ss]

theorem SwitchCase.allRelabeled_same : ∀ cs : List SwitchCase, SwitchCase.allRelabeled .same cs = cs
  | [] => rfl
  | c :: cs => by
    simp [SwitchCase.allRelabeled, SwitchCase.relabeled_same c, SwitchCase.allRelabeled_same cs]

@[simp]
theorem Modifiers.relabeled_same : ∀ m : Modifiers, m.relabeled .same = m
  | ⟨_, as, _⟩ => by simp [Modifiers.relabeled, Annot.allRelabeled_same as]

@[simp]
theorem Annot.relabeled_same : ∀ a : Annot, a.relabeled .same = a
  | ⟨_, as, _⟩ => by simp [Annot.relabeled, AnnotArg.allRelabeled_same as]

theorem Annot.allRelabeled_same : ∀ as : List Annot, Annot.allRelabeled .same as = as
  | [] => rfl
  | a :: as => by simp [Annot.allRelabeled, Annot.relabeled_same a, Annot.allRelabeled_same as]

@[simp]
theorem AnnotArg.relabeled_same : ∀ a : AnnotArg, a.relabeled .same = a
  | ⟨_, v, _⟩ => by simp [AnnotArg.relabeled, Element.relabeled_same v]

theorem AnnotArg.allRelabeled_same : ∀ as : List AnnotArg, AnnotArg.allRelabeled .same as = as
  | [] => rfl
  | a :: as => by
    simp [AnnotArg.allRelabeled, AnnotArg.relabeled_same a, AnnotArg.allRelabeled_same as]

@[simp]
theorem Element.relabeled_same : ∀ e : Element, e.relabeled .same = e
  | .expr e => by simp [Element.relabeled, Expr.relabeled_same e]
  | .array es _ => by simp [Element.relabeled, Element.allRelabeled_same es]
  | .annot a => by simp [Element.relabeled, Annot.relabeled_same a]

theorem Element.allRelabeled_same : ∀ es : List Element, Element.allRelabeled .same es = es
  | [] => rfl
  | e :: es => by
    simp [Element.allRelabeled, Element.relabeled_same e, Element.allRelabeled_same es]

theorem Element.optionRelabeled_same : ∀ e? : Option Element, Element.optionRelabeled .same e? = e?
  | none => rfl
  | some e => by simp [Element.optionRelabeled, Element.relabeled_same e]

@[simp]
theorem TypeDecl.relabeled_same : ∀ d : TypeDecl, d.relabeled .same = d
  | ⟨m, _, _, _, _, _, cs, ms, _⟩ => by
    simp [TypeDecl.relabeled, Modifiers.relabeled_same m, EnumConstant.allRelabeled_same cs,
      Member.allRelabeled_same ms]

@[simp]
theorem EnumConstant.relabeled_same : ∀ c : EnumConstant, c.relabeled .same = c
  | .plain as _ es _ => by
    simp [EnumConstant.relabeled, Annot.allRelabeled_same as, Expr.allRelabeled_same es]
  | .withBody as _ es ms _ => by
    simp [EnumConstant.relabeled, Annot.allRelabeled_same as, Expr.allRelabeled_same es,
      Member.allRelabeled_same ms]

theorem EnumConstant.allRelabeled_same : ∀ cs : List EnumConstant,
    EnumConstant.allRelabeled .same cs = cs
  | [] => rfl
  | c :: cs => by
    simp [EnumConstant.allRelabeled, EnumConstant.relabeled_same c,
      EnumConstant.allRelabeled_same cs]

@[simp]
theorem Member.relabeled_same : ∀ m : Member, m.relabeled .same = m
  | .field m _ vs _ => by
    simp [Member.relabeled, Modifiers.relabeled_same m, VarDeclarator.allRelabeled_same vs]
  | .method m _ _ _ ps _ d b _ => by
    simp [Member.relabeled, Modifiers.relabeled_same m, Param.allRelabeled_same ps,
      Element.optionRelabeled_same d, Block.optionRelabeled_same b]
  | .constructor m _ _ ps _ b _ => by
    simp [Member.relabeled, Modifiers.relabeled_same m, Param.allRelabeled_same ps,
      Block.relabeled_same b]
  | .initializer _ b _ => by simp [Member.relabeled, Block.relabeled_same b]
  | .type d => by simp [Member.relabeled, TypeDecl.relabeled_same d]

theorem Member.allRelabeled_same : ∀ ms : List Member, Member.allRelabeled .same ms = ms
  | [] => rfl
  | m :: ms => by simp [Member.allRelabeled, Member.relabeled_same m, Member.allRelabeled_same ms]

@[simp]
theorem Param.relabeled_same : ∀ p : Param, p.relabeled .same = p
  | ⟨m, _, _, _, _⟩ => by simp [Param.relabeled, Modifiers.relabeled_same m]

theorem Param.allRelabeled_same : ∀ ps : List Param, Param.allRelabeled .same ps = ps
  | [] => rfl
  | p :: ps => by simp [Param.allRelabeled, Param.relabeled_same p, Param.allRelabeled_same ps]

end

/-! ### Lists and options -/

section

variable {ρ}

@[simp]
theorem TypeArg.allRelabeled_eq_map (as : List TypeArg) :
    TypeArg.allRelabeled ρ as = as.map (TypeArg.relabeled ρ) := by
  induction as with
  | nil => rfl
  | cons a as ih => rw [TypeArg.allRelabeled, ih, List.map_cons]

@[simp]
theorem Expr.allRelabeled_eq_map (es : List Expr) :
    Expr.allRelabeled ρ es = es.map (Expr.relabeled ρ) := by
  induction es with
  | nil => rfl
  | cons e es ih => rw [Expr.allRelabeled, ih, List.map_cons]

@[simp]
theorem Stmt.allRelabeled_eq_map (ss : List Stmt) :
    Stmt.allRelabeled ρ ss = ss.map (Stmt.relabeled ρ) := by
  induction ss with
  | nil => rfl
  | cons s ss ih => rw [Stmt.allRelabeled, ih, List.map_cons]

@[simp]
theorem VarDeclarator.allRelabeled_eq_map (vs : List VarDeclarator) :
    VarDeclarator.allRelabeled ρ vs = vs.map (VarDeclarator.relabeled ρ) := by
  induction vs with
  | nil => rfl
  | cons v vs ih => rw [VarDeclarator.allRelabeled, ih, List.map_cons]

@[simp]
theorem CatchClause.allRelabeled_eq_map (cs : List CatchClause) :
    CatchClause.allRelabeled ρ cs = cs.map (CatchClause.relabeled ρ) := by
  induction cs with
  | nil => rfl
  | cons c cs ih => rw [CatchClause.allRelabeled, ih, List.map_cons]

@[simp]
theorem SwitchCase.allRelabeled_eq_map (cs : List SwitchCase) :
    SwitchCase.allRelabeled ρ cs = cs.map (SwitchCase.relabeled ρ) := by
  induction cs with
  | nil => rfl
  | cons c cs ih => rw [SwitchCase.allRelabeled, ih, List.map_cons]

@[simp]
theorem Annot.allRelabeled_eq_map (as : List Annot) :
    Annot.allRelabeled ρ as = as.map (Annot.relabeled ρ) := by
  induction as with
  | nil => rfl
  | cons a as ih => rw [Annot.allRelabeled, ih, List.map_cons]

@[simp]
theorem AnnotArg.allRelabeled_eq_map (as : List AnnotArg) :
    AnnotArg.allRelabeled ρ as = as.map (AnnotArg.relabeled ρ) := by
  induction as with
  | nil => rfl
  | cons a as ih => rw [AnnotArg.allRelabeled, ih, List.map_cons]

@[simp]
theorem Element.allRelabeled_eq_map (es : List Element) :
    Element.allRelabeled ρ es = es.map (Element.relabeled ρ) := by
  induction es with
  | nil => rfl
  | cons e es ih => rw [Element.allRelabeled, ih, List.map_cons]

@[simp]
theorem EnumConstant.allRelabeled_eq_map (cs : List EnumConstant) :
    EnumConstant.allRelabeled ρ cs = cs.map (EnumConstant.relabeled ρ) := by
  induction cs with
  | nil => rfl
  | cons c cs ih => rw [EnumConstant.allRelabeled, ih, List.map_cons]

@[simp]
theorem Member.allRelabeled_eq_map (ms : List Member) :
    Member.allRelabeled ρ ms = ms.map (Member.relabeled ρ) := by
  induction ms with
  | nil => rfl
  | cons m ms ih => rw [Member.allRelabeled, ih, List.map_cons]

@[simp]
theorem Param.allRelabeled_eq_map (ps : List Param) :
    Param.allRelabeled ρ ps = ps.map (Param.relabeled ρ) := by
  induction ps with
  | nil => rfl
  | cons p ps ih => rw [Param.allRelabeled, ih, List.map_cons]

@[simp]
theorem Expr.optionRelabeled_eq_map (e? : Option Expr) :
    Expr.optionRelabeled ρ e? = e?.map (Expr.relabeled ρ) := by
  cases e? <;> rfl

@[simp]
theorem Block.optionRelabeled_eq_map (b? : Option Block) :
    Block.optionRelabeled ρ b? = b?.map (Block.relabeled ρ) := by
  cases b? <;> rfl

@[simp]
theorem Element.optionRelabeled_eq_map (e? : Option Element) :
    Element.optionRelabeled ρ e? = e?.map (Element.relabeled ρ) := by
  cases e? <;> rfl

end

@[simp]
theorem SourceUnit.relabeled_same (u : SourceUnit) : u.relabeled .same = u := by
  have himports : ImportDecl.relabeled .same = id := funext fun i => by simp [ImportDecl.relabeled]
  have hpath : Path.relabeled .same = id := funext Path.relabeled_same
  have htypes : TypeDecl.relabeled .same = id := funext TypeDecl.relabeled_same
  simp [relabeled, himports, hpath, htypes]

/-! ### Relabelling apart -/

section

variable {ρ}

/-- What keeps labels apart can be undone. -/
theorem Relabeling.Injective.exists_undo (h : ρ.Injective) :
    ∃ τ : Relabeling, ρ.andThen τ = .same := by
  obtain ⟨f, hf⟩ := h.call.hasLeftInverse
  obtain ⟨g, hg⟩ := h.span.hasLeftInverse
  exact ⟨⟨f, g⟩, by simp only [Relabeling.andThen, Relabeling.same, hf.comp_eq_id, hg.comp_eq_id]⟩

theorem Expr.relabeled_injective (h : ρ.Injective) : Function.Injective (Expr.relabeled ρ) := by
  obtain ⟨τ, hτ⟩ := h.exists_undo
  exact Function.LeftInverse.injective (g := Expr.relabeled τ) fun e => by
    rw [relabeled_relabeled, hτ, relabeled_same]

theorem Annot.relabeled_injective (h : ρ.Injective) : Function.Injective (Annot.relabeled ρ) := by
  obtain ⟨τ, hτ⟩ := h.exists_undo
  exact Function.LeftInverse.injective (g := Annot.relabeled τ) fun a => by
    rw [relabeled_relabeled, hτ, relabeled_same]

theorem Member.relabeled_injective (h : ρ.Injective) : Function.Injective (Member.relabeled ρ) := by
  obtain ⟨τ, hτ⟩ := h.exists_undo
  exact Function.LeftInverse.injective (g := Member.relabeled τ) fun m => by
    rw [relabeled_relabeled, hτ, relabeled_same]

end

/-! ### Looking into a relabelled tree -/

section

@[simp]
theorem Ident.name_relabeled (i : Ident) : (i.relabeled ρ).name = i.name := rfl

@[simp]
theorem Ident.span_relabeled (i : Ident) : (i.relabeled ρ).span = ρ.span i.span := rfl

@[simp]
theorem Path.names_relabeled (p : Path) : (p.relabeled ρ).names = p.names := by
  simp [names, relabeled]

@[simp]
theorem Path.dotted_relabeled (p : Path) : (p.relabeled ρ).dotted = p.dotted := by simp [dotted]

@[simp]
theorem TypeExpr.base_relabeled (t : TypeExpr) : (t.relabeled ρ).base = t.base.relabeled ρ := by
  cases t; rfl

@[simp]
theorem TypeExpr.dims_relabeled (t : TypeExpr) : (t.relabeled ρ).dims = t.dims := by
  cases t; rfl

@[simp]
theorem TypeExpr.span_relabeled (t : TypeExpr) : (t.relabeled ρ).span = ρ.span t.span := by
  cases t; rfl

@[simp]
theorem TypeExpr.isInferred_relabeled (t : TypeExpr) :
    (t.relabeled ρ).isInferred = t.isInferred := by
  rw [isInferred, isInferred, base_relabeled]
  cases t.base <;> rfl

@[simp]
theorem TypeExpr.addDims_relabeled (t : TypeExpr) (n : Nat) :
    (t.addDims n).relabeled ρ = (t.relabeled ρ).addDims n := by
  cases t; rfl

@[simp]
theorem TypeParam.names_relabeled (ps : List TypeParam) :
    (ps.map (TypeParam.relabeled ρ)).map (·.name.name) = ps.map (·.name.name) := by
  rw [List.map_map]
  rfl

@[simp]
theorem Expr.span_relabeled (e : Expr) : (e.relabeled ρ).span = ρ.span e.span := by
  cases e <;> rfl

@[simp]
theorem Stmt.span_relabeled (s : Stmt) : (s.relabeled ρ).span = ρ.span s.span := by
  cases s with
  | block b => cases b; rfl
  | localType d => cases d; rfl
  | _ => rfl

@[simp]
theorem Element.span_relabeled (e : Element) : (e.relabeled ρ).span = ρ.span e.span := by
  cases e with
  | expr e => exact e.span_relabeled ρ
  | array es s => rfl
  | annot a => cases a; rfl

@[simp]
theorem TypeDecl.name_relabeled (d : TypeDecl) : (d.relabeled ρ).name = d.name.relabeled ρ := by
  cases d; rfl

@[simp]
theorem TypeDecl.kind_relabeled (d : TypeDecl) : (d.relabeled ρ).kind = d.kind := by
  cases d; rfl

@[simp]
theorem TypeDecl.modifiers_relabeled (d : TypeDecl) :
    (d.relabeled ρ).modifiers = d.modifiers.relabeled ρ := by
  cases d; rfl

@[simp]
theorem Modifiers.span_relabeled (m : Modifiers) : (m.relabeled ρ).span = ρ.span m.span := by
  cases m; rfl

@[simp]
theorem Expr.chain?_relabeled (e : Expr) :
    (e.relabeled ρ).chain? = e.chain?.map (List.map (Ident.relabeled ρ)) := by
  fun_induction Expr.chain? e with
  | case1 i => rfl
  | case2 e i s ih => simp [relabeled, chain?, ih, Function.comp_def]
  | case3 e hname hfield => cases e <;> simp_all [relabeled, chain?]

end

end JavaGraft

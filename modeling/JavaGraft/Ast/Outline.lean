import JavaGraft.Ast.Tree

/-!
# Outlines

The outline of a syntax tree is a rose tree of the nodes one meets on the way through it: types,
members, types as written, blocks, statements and expressions, each above what it is made of. It
follows the source from left to right. A call, an instance creation and a lambda have a label of
their own below the expression that they are, so that they can be told apart from other
expressions.

Left out are names, modifiers other than the annotations of a type, type parameters, `throws`
clauses and default values. A lambda's parameters and the alternatives of a multi-catch bring no
nodes but the types written in a catch.
-/

namespace JavaGraft

/-- What an outline has at a node. -/
inductive Label where
  | typeDecl (decl : TypeDecl)
  | annot (annot : Annot)
  | constant (constant : EnumConstant)
  | body (members : List Member)
  | member (member : Member)
  | field (vars : List VarDeclarator)
  | method (name : Ident)
  | constructor (name : Ident)
  | type (type : TypeExpr)
  | block (block : Block)
  | stmt (stmt : Stmt)
  | expr (expr : Expr)
  | call (call : Call)
  | new (type : TypeExpr)
  | lambda (params : List LambdaParam)

/-- A node with those below it. -/
inductive Outline where
  | node (label : Label) (parts : List Outline)

/-- A type as written has nothing below it. -/
def TypeExpr.outline (t : TypeExpr) : Outline := .node (.type t) []

/-! ### What a node is made of -/

mutual

/-- The nodes directly below an expression. -/
def Expr.parts : Expr → List Outline
  | .literal .. | .name _ | .this _ | .super _ => []
  | .field e _ _ | .unary _ e _ | .update e _ _ | .paren e _ | .methodRef e _ _ =>
    [.node (.expr e) e.parts]
  | .call id f as s => [.node (.call ⟨id, f, as, s⟩) (.node (.expr f) f.parts :: Expr.outlines as)]
  | .new t as _ => [.node (.new t) (t.outline :: Expr.outlines as)]
  | .newAnonymous t as ms _ =>
    [.node (.new t)
      (t.outline :: Expr.outlines as ++ [.node (.body ms) (Member.outlines ms)])]
  | .newArray t ds _ => t.outline :: Expr.outlines ds
  | .newArrayOf t ds es _ _ => t.outline :: Expr.outlines ds ++ Expr.outlines es
  | .arrayInit es _ => Expr.outlines es
  | .index a b _ | .binary a _ b _ | .assign a _ b _ =>
    [.node (.expr a) a.parts, .node (.expr b) b.parts]
  | .instanceOf e t _ _ => [.node (.expr e) e.parts, t.outline]
  | .conditional c a b _ =>
    [.node (.expr c) c.parts, .node (.expr a) a.parts, .node (.expr b) b.parts]
  | .cast t e _ => [t.outline, .node (.expr e) e.parts]
  | .classLit t _ => [t.outline]
  | .lambda ps e _ => [.node (.lambda ps) [.node (.expr e) e.parts]]
  | .blockLambda ps b _ => [.node (.lambda ps) [.node (.block b) b.parts]]

/-- Expressions in order. -/
def Expr.outlines : List Expr → List Outline
  | [] => []
  | e :: es => .node (.expr e) e.parts :: Expr.outlines es

/-- The nodes directly below a block. -/
def Block.parts : Block → List Outline
  | ⟨ss, _⟩ => Stmt.outlines ss

/-- The nodes directly below a statement. -/
def Stmt.parts : Stmt → List Outline
  | .block b => [.node (.block b) b.parts]
  | .localVar _ t vs _ => t.outline :: VarDeclarator.parts vs
  | .localType d => [.node (.typeDecl d) d.parts]
  | .expr e _ | .throwing e _ => [.node (.expr e) e.parts]
  | .ifThen e a _ => [.node (.expr e) e.parts, .node (.stmt a) a.parts]
  | .ifElse e a b _ =>
    [.node (.expr e) e.parts, .node (.stmt a) a.parts, .node (.stmt b) b.parts]
  | .whileLoop e a _ => [.node (.expr e) e.parts, .node (.stmt a) a.parts]
  | .doLoop a e _ => [.node (.stmt a) a.parts, .node (.expr e) e.parts]
  | .forLoop i e us a _ =>
    Stmt.outlines i ++ (match e with | none => [] | some e => [.node (.expr e) e.parts]) ++
      Expr.outlines us ++ [.node (.stmt a) a.parts]
  | .forEach _ t _ e a _ => [t.outline, .node (.expr e) e.parts, .node (.stmt a) a.parts]
  | .ret e _ => match e with | none => [] | some e => [.node (.expr e) e.parts]
  | .breakTo .. | .continueTo .. | .empty _ => []
  | .tryCatch rs b cs f _ =>
    Stmt.outlines rs ++ .node (.block b) b.parts :: CatchClause.parts cs ++
      (match f with | none => [] | some f => [.node (.block f) f.parts])
  | .switch e cs _ => .node (.expr e) e.parts :: SwitchCase.parts cs
  | .synchronized e b _ => [.node (.expr e) e.parts, .node (.block b) b.parts]
  | .labeled _ a _ => [.node (.stmt a) a.parts]
  | .assertion e m _ =>
    .node (.expr e) e.parts :: (match m with | none => [] | some m => [.node (.expr m) m.parts])

/-- Statements in order. -/
def Stmt.outlines : List Stmt → List Outline
  | [] => []
  | s :: ss => .node (.stmt s) s.parts :: Stmt.outlines ss

/-- The initial values of variables, in order. -/
def VarDeclarator.parts : List VarDeclarator → List Outline
  | [] => []
  | ⟨_, _, none, _⟩ :: vs => VarDeclarator.parts vs
  | ⟨_, _, some e, _⟩ :: vs => .node (.expr e) e.parts :: VarDeclarator.parts vs

/-- The types and bodies of handlers, in order. -/
def CatchClause.parts : List CatchClause → List Outline
  | [] => []
  | ⟨_, ts, _, b, _⟩ :: cs =>
    ts.map TypeExpr.outline ++ .node (.block b) b.parts :: CatchClause.parts cs

/-- The labels and statements of the groups of a `switch`, in order. -/
def SwitchCase.parts : List SwitchCase → List Outline
  | [] => []
  | ⟨ls, ss, _⟩ :: cs => Expr.outlines ls ++ Stmt.outlines ss ++ SwitchCase.parts cs

/-- The values of an annotation's arguments, in order. -/
def AnnotArg.parts : List AnnotArg → List Outline
  | [] => []
  | ⟨_, v, _⟩ :: as => v.parts ++ AnnotArg.parts as

/-- The expressions and annotations in an element's value; braces bring no node. -/
def Element.parts : Element → List Outline
  | .expr e => [.node (.expr e) e.parts]
  | .array es _ => Element.allParts es
  | .annot ⟨n, as, s⟩ => [.node (.annot ⟨n, as, s⟩) (AnnotArg.parts as)]

/-- The same for several elements. -/
def Element.allParts : List Element → List Outline
  | [] => []
  | e :: es => e.parts ++ Element.allParts es

/-- Annotations in order. -/
def Annot.outlines : List Annot → List Outline
  | [] => []
  | ⟨n, as, s⟩ :: rest => .node (.annot ⟨n, as, s⟩) (AnnotArg.parts as) :: Annot.outlines rest

/-- The nodes directly below a type: its annotations, supertypes, constants and body. -/
def TypeDecl.parts : TypeDecl → List Outline
  | ⟨⟨_, as, _⟩, _, _, _, sup, is, cs, ms, _⟩ =>
    Annot.outlines as ++ (sup.toList ++ is).map TypeExpr.outline ++ EnumConstant.outlines cs ++
      [.node (.body ms) (Member.outlines ms)]

/-- Constants in order, each above its arguments and its body; their annotations are left out. -/
def EnumConstant.outlines : List EnumConstant → List Outline
  | [] => []
  | .plain as n es s :: cs =>
    .node (.constant (.plain as n es s)) (Expr.outlines es) :: EnumConstant.outlines cs
  | .withBody as n es ms s :: cs =>
    .node (.constant (.withBody as n es ms s))
      (Expr.outlines es ++ [.node (.body ms) (Member.outlines ms)]) :: EnumConstant.outlines cs

/-- The nodes directly below a member. A block that sets up a class brings only its statements. -/
def Member.parts : Member → List Outline
  | .field _ t vs _ => [.node (.field vs) (t.outline :: VarDeclarator.parts vs)]
  | .method _ _ t n ps _ _ b _ =>
    [.node (.method n) (t.outline :: ps.map (·.type.outline) ++
      (match b with | none => [] | some b => [.node (.block b) b.parts]))]
  | .constructor _ _ n ps _ b _ =>
    [.node (.constructor n) (ps.map (·.type.outline) ++ [.node (.block b) b.parts])]
  | .initializer _ b _ => b.parts
  | .type d => [.node (.typeDecl d) d.parts]

/-- Members in order. -/
def Member.outlines : List Member → List Outline
  | [] => []
  | m :: ms => .node (.member m) m.parts :: Member.outlines ms

end

/-- The outlines of the types of a source file. -/
def SourceUnit.outlines (u : SourceUnit) : List Outline :=
  u.types.map fun d => .node (.typeDecl d) d.parts

/-! ### Reading an outline -/

mutual

/-- The labels of an outline from top to bottom and left to right, each with its depth. Nothing
below a label for which `closed` holds is listed. -/
def Outline.listing (closed : Label → Bool) (depth : Nat) : Outline → List (Nat × Label)
  | .node l parts =>
    (depth, l) :: if closed l then [] else Outline.listings closed (depth + 1) parts

/-- The same for several outlines. -/
def Outline.listings (closed : Label → Bool) (depth : Nat) : List Outline → List (Nat × Label)
  | [] => []
  | o :: os => o.listing closed depth ++ Outline.listings closed depth os

end

/-- The expressions of a member from top to bottom and left to right. -/
def Member.exprs (m : Member) : List Expr :=
  (Outline.listings (fun _ => false) 0 m.parts).filterMap fun
    | (_, .expr e) => some e
    | _ => none

end JavaGraft

import JavaGraft.Ast.Operator
import JavaGraft.Ast.TypeExpr
import JavaGraft.Name.Flags

/-!
# Syntax trees

Expressions, statements and declarations refer to each other: a lambda holds statements, a
statement may declare a class, an anonymous class is an expression, and an annotation argument is
an expression again. They are therefore declared together. Every node carries the span of the
tokens it was read from, and every call a number of its own, by which it is told apart from all
other calls.

Floating-point literals hold the bits of the number they denote, so that two trees are equal
exactly if they are the same data.
-/

namespace JavaGraft

/-- The value of a literal. Floating-point values are given by their bits. -/
inductive Literal where
  | int (value : Int32)
  | long (value : Int64)
  | float (bits : UInt32)
  | double (bits : UInt64)
  | char (value : Char)
  | string (value : String)
  | bool (value : Bool)
  | null
deriving DecidableEq, Repr

/-- The kinds of declared types. -/
inductive TypeKind where
  | classType | interfaceType | enumType | annotType
deriving DecidableEq, Repr

/-- The word that declares a type of a kind. -/
def TypeKind.keyword : TypeKind → String
  | classType => "class"
  | interfaceType => "interface"
  | enumType => "enum"
  | annotType => "@interface"

/-- A parameter of a lambda, with its type if that is written. -/
structure LambdaParam where
  type : Option TypeExpr
  name : Ident
deriving DecidableEq, Repr

/-! ### The nodes -/

mutual

/-- An expression. The callee of a call is a name, a member of a receiver, or `this` or `super`. -/
inductive Expr where
  | literal (value : Literal) (span : Span)
  | name (ident : Ident)
  | this (span : Span)
  | super (span : Span)
  | field (target : Expr) (name : Ident) (span : Span)
  | call (id : Nat) (callee : Expr) (args : List Expr) (span : Span)
  | new (type : TypeExpr) (args : List Expr) (span : Span)
  | newAnonymous (type : TypeExpr) (args : List Expr) (body : List Member) (span : Span)
  | newArray (type : TypeExpr) (dims : List Expr) (span : Span)
  | newArrayOf (type : TypeExpr) (dims elements : List Expr) (braces span : Span)
  | arrayInit (elements : List Expr) (span : Span)
  | index (target index : Expr) (span : Span)
  | unary (op : UnaryOp) (operand : Expr) (span : Span)
  | update (operand : Expr) (op : UpdateOp) (span : Span)
  | binary (left : Expr) (op : BinaryOp) (right : Expr) (span : Span)
  | instanceOf (operand : Expr) (type : TypeExpr) (binding : Option Ident) (span : Span)
  | assign (target : Expr) (op : AssignOp) (value : Expr) (span : Span)
  | conditional (condition yes no : Expr) (span : Span)
  | cast (type : TypeExpr) (operand : Expr) (span : Span)
  | paren (inner : Expr) (span : Span)
  | classLit (type : TypeExpr) (span : Span)
  | lambda (params : List LambdaParam) (body : Expr) (span : Span)
  | blockLambda (params : List LambdaParam) (body : Block) (span : Span)
  | methodRef (target : Expr) (name : Ident) (span : Span)

/-- Statements in braces. -/
structure Block where
  stmts : List Stmt
  span : Span

/-- A statement. -/
inductive Stmt where
  | block (block : Block)
  | localVar (modifiers : Modifiers) (type : TypeExpr) (vars : List VarDeclarator) (span : Span)
  | localType (decl : TypeDecl)
  | expr (value : Expr) (span : Span)
  | ifThen (condition : Expr) (yes : Stmt) (span : Span)
  | ifElse (condition : Expr) (yes no : Stmt) (span : Span)
  | whileLoop (condition : Expr) (body : Stmt) (span : Span)
  | doLoop (body : Stmt) (condition : Expr) (span : Span)
  | forLoop (init : List Stmt) (condition : Option Expr) (updates : List Expr) (body : Stmt)
      (span : Span)
  | forEach (modifiers : Modifiers) (type : TypeExpr) (name : Ident) (iterable : Expr)
      (body : Stmt) (span : Span)
  | ret (value : Option Expr) (span : Span)
  | breakTo (label : Option Ident) (span : Span)
  | continueTo (label : Option Ident) (span : Span)
  | throwing (value : Expr) (span : Span)
  | tryCatch (resources : List Stmt) (body : Block) (catches : List CatchClause)
      (finish : Option Block) (span : Span)
  | switch (selector : Expr) (cases : List SwitchCase) (span : Span)
  | synchronized (lock : Expr) (body : Block) (span : Span)
  | labeled (label : Ident) (body : Stmt) (span : Span)
  | assertion (condition : Expr) (message : Option Expr) (span : Span)
  | empty (span : Span)

/-- One variable of a declaration, with the brackets behind its name and its initial value. -/
structure VarDeclarator where
  name : Ident
  dims : Nat
  init : Option Expr
  span : Span

/-- A handler for exceptions of some types. -/
structure CatchClause where
  modifiers : Modifiers
  types : List TypeExpr
  name : Ident
  body : Block
  span : Span

/-- A group of a `switch`: its labels, none for `default`, and the statements behind them. -/
structure SwitchCase where
  labels : List Expr
  body : List Stmt
  span : Span

/-- Modifier keywords and annotations of a declaration. -/
structure Modifiers where
  flags : Flags
  annots : List Annot
  span : Span

/-- An annotation with its arguments. -/
structure Annot where
  name : Path
  args : List AnnotArg
  span : Span

/-- An argument of an annotation; the name is left out in the short form. -/
structure AnnotArg where
  name : Option Ident
  value : Element
  span : Span

/-- The value of an annotation's element. -/
inductive Element where
  | expr (value : Expr)
  | array (items : List Element) (span : Span)
  | annot (annot : Annot)

/-- A class, interface, enum or annotation type. The interfaces of an interface are those it
extends. -/
structure TypeDecl where
  modifiers : Modifiers
  kind : TypeKind
  name : Ident
  typeParams : List TypeParam
  superclass : Option TypeExpr
  interfaces : List TypeExpr
  constants : List EnumConstant
  members : List Member
  span : Span

/-- A constant of an enum, with its own class body if it has one. -/
inductive EnumConstant where
  | plain (annots : List Annot) (name : Ident) (args : List Expr) (span : Span)
  | withBody (annots : List Annot) (name : Ident) (args : List Expr) (body : List Member)
      (span : Span)

/-- A member of a type: fields of one type, a method, which has a default value if it is an element
of an annotation type, a constructor, a block that sets up the class or an instance, or a type. -/
inductive Member where
  | field (modifiers : Modifiers) (type : TypeExpr) (vars : List VarDeclarator) (span : Span)
  | method (modifiers : Modifiers) (typeParams : List TypeParam) (returnType : TypeExpr)
      (name : Ident) (params : List Param) (throws : List TypeExpr) (default : Option Element)
      (body : Option Block) (span : Span)
  | constructor (modifiers : Modifiers) (typeParams : List TypeParam) (name : Ident)
      (params : List Param) (throws : List TypeExpr) (body : Block) (span : Span)
  | initializer (isStatic : Bool) (body : Block) (span : Span)
  | type (decl : TypeDecl)

/-- A parameter. The type includes the brackets behind the name, and one pair more if the
parameter takes any number of arguments. -/
structure Param where
  modifiers : Modifiers
  type : TypeExpr
  varargs : Bool
  name : Ident
  span : Span

end

/-- A call on its own. -/
structure Call where
  id : Nat
  callee : Expr
  args : List Expr
  span : Span

/-- An import: of one name, or of all names below it. -/
structure ImportDecl where
  path : Path
  isStatic : Bool
  onDemand : Bool
  span : Span
deriving DecidableEq, Repr

/-- A source file. -/
structure SourceUnit where
  package : Option Path
  imports : List ImportDecl
  types : List TypeDecl
  span : Span

/-! ### Expressions -/

namespace Expr

/-- The span of an expression. -/
def span : Expr → Span
  | literal _ s | this s | super s | field _ _ s | call _ _ _ s | new _ _ s | newAnonymous _ _ _ s
  | newArray _ _ s | newArrayOf _ _ _ _ s | arrayInit _ s | index _ _ s | unary _ _ s
  | update _ _ s | binary _ _ _ s | instanceOf _ _ _ s | assign _ _ _ s | conditional _ _ _ s
  | cast _ _ s | paren _ s | classLit _ s | lambda _ _ s | blockLambda _ _ s
  | methodRef _ _ s => s
  | name i => i.span

/-- The expression without the parentheses around it. -/
def unparenthesized : Expr → Expr
  | paren inner _ => inner.unparenthesized
  | e => e

/-- The call that an expression is. -/
def asCall? : Expr → Option Call
  | call id callee args span => some ⟨id, callee, args, span⟩
  | _ => none

/-- The identifiers of a chain of member accesses that starts with a name. -/
def chain? : Expr → Option (List Ident)
  | name i => some [i]
  | field target i _ => target.chain?.map (· ++ [i])
  | _ => none

/-- The dotted text of such a chain. -/
def dotted? (e : Expr) : Option String := e.chain?.map fun is => joinDots (is.map Ident.name)

end Expr

namespace Call

/-- The name of the called method; `this` and `super` for constructor calls. -/
def name? (c : Call) : Option String :=
  match c.callee with
  | .name i => some i.name
  | .field _ i _ => some i.name
  | .this _ => some "this"
  | .super _ => some "super"
  | _ => none

/-- The receiver of a call, if one is written. -/
def receiver? (c : Call) : Option Expr :=
  match c.callee with
  | .field target _ _ => some target
  | _ => none

end Call

/-! ### Statements and declarations -/

/-- The span of a statement. -/
def Stmt.span : Stmt → Span
  | block b => b.span
  | localType d => d.span
  | localVar _ _ _ s | expr _ s | ifThen _ _ s | ifElse _ _ _ s | whileLoop _ _ s | doLoop _ _ s
  | forLoop _ _ _ _ s | forEach _ _ _ _ _ s | ret _ s | breakTo _ s | continueTo _ s
  | throwing _ s | tryCatch _ _ _ _ s | switch _ _ s | synchronized _ _ s | labeled _ _ s
  | assertion _ _ s | empty s => s

/-- The span of a member. -/
def Member.span : Member → Span
  | field _ _ _ s | method _ _ _ _ _ _ _ _ s | constructor _ _ _ _ _ _ s | initializer _ _ s => s
  | type d => d.span

/-- The name of a constant. -/
def EnumConstant.name : EnumConstant → Ident
  | plain _ n _ _ | withBody _ n _ _ _ => n

/-- No modifiers. -/
def Modifiers.absent : Modifiers := ⟨.none, [], .absent⟩

/-- The span of an element's value. -/
def Element.span : Element → Span
  | expr e => e.span
  | array _ s => s
  | annot a => a.span

mutual

/-- The values of an element that are not lists: a list counts as the values of its items. -/
def Element.leaves : Element → List Element
  | .expr e => [.expr e]
  | .annot a => [.annot a]
  | .array items _ => Element.allLeaves items

/-- The values of several elements that are not lists. -/
def Element.allLeaves : List Element → List Element
  | [] => []
  | e :: rest => e.leaves ++ Element.allLeaves rest

end

/-- The first argument under the given name; an argument without a name stands for `value`. -/
def Annot.element? (a : Annot) (name : String) : Option Element :=
  (a.args.find? fun arg => (arg.name.elim "value" Ident.name) == name).map AnnotArg.value

/-- The member types of a type. -/
def TypeDecl.memberTypes (d : TypeDecl) : List TypeDecl :=
  d.members.filterMap fun
    | .type inner => some inner
    | _ => none

/-- The dotted name of a unit's package; the unnamed package has the empty one. -/
def SourceUnit.packageName (u : SourceUnit) : String := u.package.elim "" Path.dotted

end JavaGraft

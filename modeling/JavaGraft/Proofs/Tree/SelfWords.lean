import JavaGraft.Ast.Tree

/-!
# The words `this` and `super` in a tree

Every `this` and every `super` that stands anywhere in a tree, together with what it is used for: it
is the target of a field access, a method call or a method reference; it is called as a
constructor; or its value is used. A `super` has no value, so in a sensible program it is never used
for one. Nor does a sensible program use `this` in a static member.

A word is used by what stands directly around it, so the listing of an expression is told what the
expression is used for; this matters only if the expression is a word itself.
-/

namespace JavaGraft

/-- The words for the object whose code is run. -/
inductive SelfWord where
  | this | super
deriving DecidableEq, Repr

/-- What such a word is used for. -/
inductive SelfUse where
  /-- A member of it is accessed, called or referred to. -/
  | target
  /-- It is called as a constructor. -/
  | callee
  /-- It stands for a value. -/
  | value
deriving DecidableEq, Repr

/-! ### The listing -/

mutual

/-- The words of an expression that is itself used as given. -/
def Expr.selfWords (u : SelfUse) : Expr → List (SelfWord × SelfUse)
  | .this _ => [(.this, u)]
  | .super _ => [(.super, u)]
  | .literal .. | .name _ | .classLit .. => []
  | .field e _ _ | .methodRef e _ _ => e.selfWords .target
  | .call _ f as _ => f.selfWords .callee ++ Expr.allSelfWords as
  | .paren e _ | .unary _ e _ | .update e _ _ | .cast _ e _ | .instanceOf e _ _ _
  | .lambda _ e _ => e.selfWords .value
  | .new _ as _ | .newArray _ as _ | .arrayInit as _ => Expr.allSelfWords as
  | .newAnonymous _ as ms _ => Expr.allSelfWords as ++ Member.allSelfWords ms
  | .newArrayOf _ ds es _ _ => Expr.allSelfWords ds ++ Expr.allSelfWords es
  | .index a b _ | .binary a _ b _ | .assign a _ b _ => a.selfWords .value ++ b.selfWords .value
  | .conditional e a b _ => e.selfWords .value ++ a.selfWords .value ++ b.selfWords .value
  | .blockLambda _ b _ => b.selfWords

/-- The words of expressions whose values are used. -/
def Expr.allSelfWords : List Expr → List (SelfWord × SelfUse)
  | [] => []
  | e :: es => e.selfWords .value ++ Expr.allSelfWords es

/-- The words of an expression whose value is used, if there is one. -/
def Expr.optionSelfWords : Option Expr → List (SelfWord × SelfUse)
  | none => []
  | some e => e.selfWords .value

/-- The words of a block. -/
def Block.selfWords : Block → List (SelfWord × SelfUse)
  | ⟨ss, _⟩ => Stmt.allSelfWords ss

/-- The words of a block, if there is one. -/
def Block.optionSelfWords : Option Block → List (SelfWord × SelfUse)
  | none => []
  | some b => b.selfWords

/-- The words of a statement. -/
def Stmt.selfWords : Stmt → List (SelfWord × SelfUse)
  | .block b => b.selfWords
  | .localVar m _ vs _ => m.selfWords ++ VarDeclarator.allSelfWords vs
  | .localType d => d.selfWords
  | .expr e _ | .throwing e _ => e.selfWords .value
  | .ifThen e a _ | .whileLoop e a _ => e.selfWords .value ++ a.selfWords
  | .ifElse e a b _ => e.selfWords .value ++ a.selfWords ++ b.selfWords
  | .doLoop a e _ => a.selfWords ++ e.selfWords .value
  | .forLoop i e us a _ =>
    Stmt.allSelfWords i ++ Expr.optionSelfWords e ++ Expr.allSelfWords us ++ a.selfWords
  | .forEach m _ _ e a _ => m.selfWords ++ e.selfWords .value ++ a.selfWords
  | .ret e _ => Expr.optionSelfWords e
  | .breakTo .. | .continueTo .. | .empty _ => []
  | .tryCatch rs b cs f _ =>
    Stmt.allSelfWords rs ++ b.selfWords ++ CatchClause.allSelfWords cs ++ Block.optionSelfWords f
  | .switch e cs _ => e.selfWords .value ++ SwitchCase.allSelfWords cs
  | .synchronized e b _ => e.selfWords .value ++ b.selfWords
  | .labeled _ a _ => a.selfWords
  | .assertion e m _ => e.selfWords .value ++ Expr.optionSelfWords m

/-- The words of statements. -/
def Stmt.allSelfWords : List Stmt → List (SelfWord × SelfUse)
  | [] => []
  | s :: ss => s.selfWords ++ Stmt.allSelfWords ss

/-- The words of the initial values of variables. -/
def VarDeclarator.allSelfWords : List VarDeclarator → List (SelfWord × SelfUse)
  | [] => []
  | ⟨_, _, e, _⟩ :: vs => Expr.optionSelfWords e ++ VarDeclarator.allSelfWords vs

/-- The words of handlers. -/
def CatchClause.allSelfWords : List CatchClause → List (SelfWord × SelfUse)
  | [] => []
  | ⟨m, _, _, b, _⟩ :: cs => m.selfWords ++ b.selfWords ++ CatchClause.allSelfWords cs

/-- The words of the groups of a `switch`. -/
def SwitchCase.allSelfWords : List SwitchCase → List (SelfWord × SelfUse)
  | [] => []
  | ⟨ls, ss, _⟩ :: cs =>
    Expr.allSelfWords ls ++ Stmt.allSelfWords ss ++ SwitchCase.allSelfWords cs

/-- The words of the annotations among modifiers. -/
def Modifiers.selfWords : Modifiers → List (SelfWord × SelfUse)
  | ⟨_, as, _⟩ => Annot.allSelfWords as

/-- The words of annotations. -/
def Annot.allSelfWords : List Annot → List (SelfWord × SelfUse)
  | [] => []
  | ⟨_, as, _⟩ :: rest => AnnotArg.allSelfWords as ++ Annot.allSelfWords rest

/-- The words of the arguments of an annotation. -/
def AnnotArg.allSelfWords : List AnnotArg → List (SelfWord × SelfUse)
  | [] => []
  | ⟨_, v, _⟩ :: as => v.selfWords ++ AnnotArg.allSelfWords as

/-- The words of the value of an element. -/
def Element.selfWords : Element → List (SelfWord × SelfUse)
  | .expr e => e.selfWords .value
  | .array es _ => Element.allSelfWords es
  | .annot ⟨_, as, _⟩ => AnnotArg.allSelfWords as

/-- The words of several values. -/
def Element.allSelfWords : List Element → List (SelfWord × SelfUse)
  | [] => []
  | e :: es => e.selfWords ++ Element.allSelfWords es

/-- The words of a value, if there is one. -/
def Element.optionSelfWords : Option Element → List (SelfWord × SelfUse)
  | none => []
  | some e => e.selfWords

/-- The words of a declared type: of its annotations, its constants and its members. -/
def TypeDecl.selfWords : TypeDecl → List (SelfWord × SelfUse)
  | ⟨m, _, _, _, _, _, cs, ms, _⟩ =>
    m.selfWords ++ EnumConstant.allSelfWords cs ++ Member.allSelfWords ms

/-- The words of constants. -/
def EnumConstant.allSelfWords : List EnumConstant → List (SelfWord × SelfUse)
  | [] => []
  | .plain as _ es _ :: cs =>
    Annot.allSelfWords as ++ Expr.allSelfWords es ++ EnumConstant.allSelfWords cs
  | .withBody as _ es ms _ :: cs =>
    Annot.allSelfWords as ++ Expr.allSelfWords es ++ Member.allSelfWords ms ++
      EnumConstant.allSelfWords cs

/-- The words of a member. -/
def Member.selfWords : Member → List (SelfWord × SelfUse)
  | .field m _ vs _ => m.selfWords ++ VarDeclarator.allSelfWords vs
  | .method m _ _ _ ps _ d b _ =>
    m.selfWords ++ Param.allSelfWords ps ++ Element.optionSelfWords d ++ Block.optionSelfWords b
  | .constructor m _ _ ps _ b _ => m.selfWords ++ Param.allSelfWords ps ++ b.selfWords
  | .initializer _ b _ => b.selfWords
  | .type d => d.selfWords

/-- The words of members. -/
def Member.allSelfWords : List Member → List (SelfWord × SelfUse)
  | [] => []
  | m :: ms => m.selfWords ++ Member.allSelfWords ms

/-- The words of the annotations of parameters. -/
def Param.allSelfWords : List Param → List (SelfWord × SelfUse)
  | [] => []
  | ⟨m, _, _, _, _⟩ :: ps => m.selfWords ++ Param.allSelfWords ps

end

/-! ### Pieces of the listing -/

/-- The words of annotations, annotation by annotation. -/
theorem Annot.allSelfWords_eq_flatMap (as : List Annot) :
    Annot.allSelfWords as = as.flatMap fun a => AnnotArg.allSelfWords a.args := by
  induction as with
  | nil => rfl
  | cons a as ih =>
    obtain ⟨n, args, s⟩ := a
    rw [Annot.allSelfWords, ih, List.flatMap_cons]

/-- The words of members, member by member. -/
theorem Member.allSelfWords_eq_flatMap (ms : List Member) :
    Member.allSelfWords ms = ms.flatMap Member.selfWords := by
  induction ms with
  | nil => rfl
  | cons m ms ih => rw [Member.allSelfWords, ih, List.flatMap_cons]

end JavaGraft

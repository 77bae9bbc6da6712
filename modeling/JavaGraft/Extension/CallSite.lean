import JavaGraft.Typing.Attribution

/-!
# The calls that may be redirected

A statement has *slots*: the expressions that stand in it on their own, such as the condition of a
loop or the value that is returned. A call is a candidate if it fills a slot, parentheses aside, in
code that belongs to the type itself. Lambdas with a block belong to the type too; member types,
local classes, anonymous classes and the bodies of enum constants do not.

The candidates come in the order in which one meets them, the slots of a statement before what is
inside them.
-/

namespace JavaGraft

/-- A call and where it was found. -/
structure CallSite where
  call : Call
  site : Site

/-- The call that fills a slot, if one does. -/
def Expr.slot (e : Expr) : List Call := e.unparenthesized.asCall?.toList

/-- The calls that fill the slots of variables. -/
def VarDeclarator.slots (vars : List VarDeclarator) : List Call :=
  vars.flatMap fun v => (v.init.map Expr.slot).getD []

/-! ### Candidates in code -/

mutual

/-- The candidates inside an expression. -/
def Expr.sites : Expr → List Call
  | .literal .. | .name _ | .this _ | .super _ | .classLit .. => []
  | .field e _ _ | .unary _ e _ | .update e _ _ | .paren e _ | .methodRef e _ _ | .cast _ e _
  | .instanceOf e _ _ _ | .lambda _ e _ => e.sites
  | .call _ f as _ => f.sites ++ Expr.allSites as
  | .new _ as _ | .newAnonymous _ as _ _ => Expr.allSites as
  | .newArray _ ds _ => Expr.allSites ds
  | .newArrayOf _ ds es _ _ => Expr.allSites ds ++ Expr.allSites es
  | .arrayInit es _ => Expr.allSites es
  | .index a b _ | .binary a _ b _ | .assign a _ b _ => a.sites ++ b.sites
  | .conditional e a b _ => e.sites ++ a.sites ++ b.sites
  | .blockLambda _ b _ => b.sites

/-- The candidates inside expressions, in order. -/
def Expr.allSites : List Expr → List Call
  | [] => []
  | e :: es => e.sites ++ Expr.allSites es

/-- The candidates of a block. -/
def Block.sites : Block → List Call
  | ⟨ss, _⟩ => Stmt.allSites ss

/-- The candidates of a statement. -/
def Stmt.sites : Stmt → List Call
  | .block b => b.sites
  | .localVar _ _ vs _ => VarDeclarator.slots vs ++ VarDeclarator.sites vs
  | .localType _ | .breakTo .. | .continueTo .. | .empty _ => []
  | .expr e _ | .throwing e _ => e.slot ++ e.sites
  | .ifThen e a _ | .whileLoop e a _ => e.slot ++ e.sites ++ a.sites
  | .ifElse e a b _ => e.slot ++ e.sites ++ a.sites ++ b.sites
  | .doLoop a e _ => e.slot ++ a.sites ++ e.sites
  | .forLoop i none us a _ => Stmt.allSites i ++ us.flatMap Expr.slot ++ Expr.allSites us ++ a.sites
  | .forLoop i (some e) us a _ =>
    Stmt.allSites i ++ e.slot ++ us.flatMap Expr.slot ++ e.sites ++ Expr.allSites us ++ a.sites
  | .forEach _ _ _ e a _ => e.slot ++ e.sites ++ a.sites
  | .ret none _ => []
  | .ret (some e) _ => e.slot ++ e.sites
  | .tryCatch rs b cs none _ => Stmt.allSites rs ++ b.sites ++ CatchClause.sites cs
  | .tryCatch rs b cs (some f) _ =>
    Stmt.allSites rs ++ b.sites ++ CatchClause.sites cs ++ f.sites
  | .switch e cs _ => e.slot ++ e.sites ++ SwitchCase.sites cs
  | .synchronized e b _ => e.slot ++ e.sites ++ b.sites
  | .labeled _ a _ => a.sites
  | .assertion e none _ => e.slot ++ e.sites
  | .assertion e (some m) _ => e.slot ++ m.slot ++ e.sites ++ m.sites

/-- The candidates of statements, in order. -/
def Stmt.allSites : List Stmt → List Call
  | [] => []
  | s :: ss => s.sites ++ Stmt.allSites ss

/-- The candidates inside the initial values of variables. -/
def VarDeclarator.sites : List VarDeclarator → List Call
  | [] => []
  | ⟨_, _, none, _⟩ :: vs => VarDeclarator.sites vs
  | ⟨_, _, some e, _⟩ :: vs => e.sites ++ VarDeclarator.sites vs

/-- The candidates of handlers. -/
def CatchClause.sites : List CatchClause → List Call
  | [] => []
  | ⟨_, _, _, b, _⟩ :: cs => b.sites ++ CatchClause.sites cs

/-- The candidates of the groups of a `switch`. -/
def SwitchCase.sites : List SwitchCase → List Call
  | [] => []
  | ⟨ls, ss, _⟩ :: cs => Expr.allSites ls ++ Stmt.allSites ss ++ SwitchCase.sites cs

end

/-! ### Candidates in annotations and members -/

mutual

/-- The candidates inside an element's value. -/
def Element.sites : Element → List Call
  | .expr e => e.sites
  | .array es _ => Element.allSites es
  | .annot ⟨_, as, _⟩ => AnnotArg.sites as

/-- The candidates inside several values. -/
def Element.allSites : List Element → List Call
  | [] => []
  | e :: es => e.sites ++ Element.allSites es

/-- The candidates inside the arguments of an annotation. -/
def AnnotArg.sites : List AnnotArg → List Call
  | [] => []
  | ⟨_, v, _⟩ :: as => v.sites ++ AnnotArg.sites as

end

/-- The arguments of a constant. -/
def EnumConstant.args : EnumConstant → List Expr
  | .plain _ _ as _ | .withBody _ _ as _ _ => as

/-- The candidates of a member; a member type has none. -/
def Member.sites : Member → List Call
  | .field _ _ vs _ => vs.flatMap fun v => (v.init.map fun e => e.slot ++ e.sites).getD []
  | .method _ _ _ _ _ _ _ body _ => (body.map Block.sites).getD []
  | .constructor _ _ _ _ _ body _ => body.sites
  | .initializer _ body _ => body.sites
  | .type _ => []

/-- **The candidates of a type**: those in its annotations and constants, which are in no member,
then those of its members. -/
def TypeDecl.callSites (d : TypeDecl) (file : Nat) (owner : TypeHash) : List CallSite :=
  let outside :=
    (d.modifiers.annots.flatMap fun a => AnnotArg.sites a.args)
      ++ d.constants.flatMap fun c => Expr.allSites c.args
  (outside.map fun c => ⟨c, file, owner, none⟩)
    ++ d.members.flatMap fun m => m.sites.map fun c => ⟨c, file, owner, some m⟩

end JavaGraft

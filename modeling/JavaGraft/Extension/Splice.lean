import JavaGraft.Ast.Outline
import JavaGraft.Extension.Decision

/-!
# Putting new callees in

Once all calls are decided, the new callees are put in everywhere in one go: the receiver of a
replaced call, or `this`, becomes its first argument, and whatever is inside the receiver and the
arguments is treated likewise. The type's own code alone is touched: not its annotations and
constants, not member types, local and anonymous classes.

The new callees are given as a function from the numbers of calls, `new` below.
-/

namespace JavaGraft

/-! ### Code -/

mutual

/-- An expression with the new callees put in. -/
def Expr.spliced (new : Nat → Option Expr) : Expr → Expr
  | .field e n s => .field (e.spliced new) n s
  | .call id (.field e n fs) as s =>
    match new id with
    | some f => .call id f (e.spliced new :: Expr.allSpliced new as) s
    | none => .call id (.field (e.spliced new) n fs) (Expr.allSpliced new as) s
  | .call id g as s =>
    match new id with
    | some f => .call id f (.this g.span :: Expr.allSpliced new as) s
    | none => .call id (g.spliced new) (Expr.allSpliced new as) s
  | .new t as s => .new t (Expr.allSpliced new as) s
  | .newAnonymous t as ms s => .newAnonymous t (Expr.allSpliced new as) ms s
  | .newArray t ds s => .newArray t (Expr.allSpliced new ds) s
  | .newArrayOf t ds es b s =>
    .newArrayOf t (Expr.allSpliced new ds) (Expr.allSpliced new es) b s
  | .arrayInit es s => .arrayInit (Expr.allSpliced new es) s
  | .index a b s => .index (a.spliced new) (b.spliced new) s
  | .unary op e s => .unary op (e.spliced new) s
  | .update e op s => .update (e.spliced new) op s
  | .binary a op b s => .binary (a.spliced new) op (b.spliced new) s
  | .instanceOf e t n s => .instanceOf (e.spliced new) t n s
  | .assign a op b s => .assign (a.spliced new) op (b.spliced new) s
  | .conditional e a b s => .conditional (e.spliced new) (a.spliced new) (b.spliced new) s
  | .cast t e s => .cast t (e.spliced new) s
  | .paren e s => .paren (e.spliced new) s
  | .lambda ps e s => .lambda ps (e.spliced new) s
  | .blockLambda ps b s => .blockLambda ps (b.spliced new) s
  | .methodRef e n s => .methodRef (e.spliced new) n s
  | .literal v s => .literal v s
  | .name i => .name i
  | .this s => .this s
  | .super s => .super s
  | .classLit t s => .classLit t s

/-- Expressions with the new callees put in. -/
def Expr.allSpliced (new : Nat → Option Expr) : List Expr → List Expr
  | [] => []
  | e :: es => e.spliced new :: Expr.allSpliced new es

/-- A block with the new callees put in. -/
def Block.spliced (new : Nat → Option Expr) : Block → Block
  | ⟨ss, s⟩ => ⟨Stmt.allSpliced new ss, s⟩

/-- A statement with the new callees put in. -/
def Stmt.spliced (new : Nat → Option Expr) : Stmt → Stmt
  | .block b => .block (b.spliced new)
  | .localVar m t vs s => .localVar m t (VarDeclarator.allSpliced new vs) s
  | .localType d => .localType d
  | .expr e s => .expr (e.spliced new) s
  | .ifThen e a s => .ifThen (e.spliced new) (a.spliced new) s
  | .ifElse e a b s => .ifElse (e.spliced new) (a.spliced new) (b.spliced new) s
  | .whileLoop e a s => .whileLoop (e.spliced new) (a.spliced new) s
  | .doLoop a e s => .doLoop (a.spliced new) (e.spliced new) s
  | .forLoop i none us a s =>
    .forLoop (Stmt.allSpliced new i) none (Expr.allSpliced new us) (a.spliced new) s
  | .forLoop i (some e) us a s =>
    .forLoop (Stmt.allSpliced new i) (some (e.spliced new)) (Expr.allSpliced new us)
      (a.spliced new) s
  | .forEach m t n e a s => .forEach m t n (e.spliced new) (a.spliced new) s
  | .ret none s => .ret none s
  | .ret (some e) s => .ret (some (e.spliced new)) s
  | .breakTo l s => .breakTo l s
  | .continueTo l s => .continueTo l s
  | .throwing e s => .throwing (e.spliced new) s
  | .tryCatch rs b cs none s =>
    .tryCatch (Stmt.allSpliced new rs) (b.spliced new) (CatchClause.allSpliced new cs) none s
  | .tryCatch rs b cs (some f) s =>
    .tryCatch (Stmt.allSpliced new rs) (b.spliced new) (CatchClause.allSpliced new cs)
      (some (f.spliced new)) s
  | .switch e cs s => .switch (e.spliced new) (SwitchCase.allSpliced new cs) s
  | .synchronized e b s => .synchronized (e.spliced new) (b.spliced new) s
  | .labeled l a s => .labeled l (a.spliced new) s
  | .assertion e none s => .assertion (e.spliced new) none s
  | .assertion e (some m) s => .assertion (e.spliced new) (some (m.spliced new)) s
  | .empty s => .empty s

/-- Statements with the new callees put in. -/
def Stmt.allSpliced (new : Nat → Option Expr) : List Stmt → List Stmt
  | [] => []
  | s :: ss => s.spliced new :: Stmt.allSpliced new ss

/-- Variables with the new callees put in. -/
def VarDeclarator.allSpliced (new : Nat → Option Expr) : List VarDeclarator → List VarDeclarator
  | [] => []
  | ⟨n, dims, none, s⟩ :: vs => ⟨n, dims, none, s⟩ :: VarDeclarator.allSpliced new vs
  | ⟨n, dims, some e, s⟩ :: vs =>
    ⟨n, dims, some (e.spliced new), s⟩ :: VarDeclarator.allSpliced new vs

/-- Handlers with the new callees put in. -/
def CatchClause.allSpliced (new : Nat → Option Expr) : List CatchClause → List CatchClause
  | [] => []
  | ⟨m, ts, n, b, s⟩ :: cs => ⟨m, ts, n, b.spliced new, s⟩ :: CatchClause.allSpliced new cs

/-- Groups of a `switch` with the new callees put in. -/
def SwitchCase.allSpliced (new : Nat → Option Expr) : List SwitchCase → List SwitchCase
  | [] => []
  | ⟨ls, ss, s⟩ :: cs =>
    ⟨Expr.allSpliced new ls, Stmt.allSpliced new ss, s⟩ :: SwitchCase.allSpliced new cs

end

/-! ### Counting -/

mutual

/-- The number of new callees that are put into an expression. If the callee of a replaced call is
neither a name nor a member, what is inside it is lost. -/
def Expr.swaps (new : Nat → Option Expr) : Expr → Nat
  | .call id (.field e _ _) as _ =>
    match new id with
    | some _ => e.swaps new + Expr.allSwaps new as + 1
    | none => e.swaps new + Expr.allSwaps new as
  | .call id g as _ =>
    match new id with
    | some _ => Expr.allSwaps new as + 1
    | none => g.swaps new + Expr.allSwaps new as
  | .field e _ _ | .unary _ e _ | .update e _ _ | .instanceOf e _ _ _ | .cast _ e _ | .paren e _
  | .lambda _ e _ | .methodRef e _ _ => e.swaps new
  | .new _ as _ | .newAnonymous _ as _ _ | .newArray _ as _ | .arrayInit as _ =>
    Expr.allSwaps new as
  | .newArrayOf _ ds es _ _ => Expr.allSwaps new ds + Expr.allSwaps new es
  | .index a b _ | .binary a _ b _ | .assign a _ b _ => a.swaps new + b.swaps new
  | .conditional e a b _ => e.swaps new + a.swaps new + b.swaps new
  | .blockLambda _ b _ => b.swaps new
  | .literal .. | .name _ | .this _ | .super _ | .classLit .. => 0

/-- The number of new callees that are put into expressions. -/
def Expr.allSwaps (new : Nat → Option Expr) : List Expr → Nat
  | [] => 0
  | e :: es => e.swaps new + Expr.allSwaps new es

/-- The number of new callees that are put into a block. -/
def Block.swaps (new : Nat → Option Expr) : Block → Nat
  | ⟨ss, _⟩ => Stmt.allSwaps new ss

/-- The number of new callees that are put into a statement. -/
def Stmt.swaps (new : Nat → Option Expr) : Stmt → Nat
  | .block b => b.swaps new
  | .localVar _ _ vs _ => VarDeclarator.allSwaps new vs
  | .localType _ | .ret none _ | .breakTo .. | .continueTo .. | .empty _ => 0
  | .expr e _ | .ret (some e) _ | .throwing e _ | .assertion e none _ => e.swaps new
  | .ifThen e a _ | .whileLoop e a _ | .forEach _ _ _ e a _ => e.swaps new + a.swaps new
  | .ifElse e a b _ => e.swaps new + a.swaps new + b.swaps new
  | .doLoop a e _ => a.swaps new + e.swaps new
  | .forLoop i none us a _ => Stmt.allSwaps new i + Expr.allSwaps new us + a.swaps new
  | .forLoop i (some e) us a _ =>
    Stmt.allSwaps new i + e.swaps new + Expr.allSwaps new us + a.swaps new
  | .tryCatch rs b cs none _ => Stmt.allSwaps new rs + b.swaps new + CatchClause.allSwaps new cs
  | .tryCatch rs b cs (some f) _ =>
    Stmt.allSwaps new rs + b.swaps new + CatchClause.allSwaps new cs + f.swaps new
  | .switch e cs _ => e.swaps new + SwitchCase.allSwaps new cs
  | .synchronized e b _ => e.swaps new + b.swaps new
  | .labeled _ a _ => a.swaps new
  | .assertion e (some m) _ => e.swaps new + m.swaps new

/-- The number of new callees that are put into statements. -/
def Stmt.allSwaps (new : Nat → Option Expr) : List Stmt → Nat
  | [] => 0
  | s :: ss => s.swaps new + Stmt.allSwaps new ss

/-- The number of new callees that are put into the initial values of variables. -/
def VarDeclarator.allSwaps (new : Nat → Option Expr) : List VarDeclarator → Nat
  | [] => 0
  | ⟨_, _, none, _⟩ :: vs => VarDeclarator.allSwaps new vs
  | ⟨_, _, some e, _⟩ :: vs => e.swaps new + VarDeclarator.allSwaps new vs

/-- The number of new callees that are put into handlers. -/
def CatchClause.allSwaps (new : Nat → Option Expr) : List CatchClause → Nat
  | [] => 0
  | ⟨_, _, _, b, _⟩ :: cs => b.swaps new + CatchClause.allSwaps new cs

/-- The number of new callees that are put into the groups of a `switch`. -/
def SwitchCase.allSwaps (new : Nat → Option Expr) : List SwitchCase → Nat
  | [] => 0
  | ⟨ls, ss, _⟩ :: cs => Expr.allSwaps new ls + Stmt.allSwaps new ss + SwitchCase.allSwaps new cs

end

/-! ### Members and types -/

/-- A member with the new callees put in. -/
def Member.spliced (new : Nat → Option Expr) : Member → Member
  | .field m t vs s => .field m t (VarDeclarator.allSpliced new vs) s
  | .method m tps t n ps ts d b s => .method m tps t n ps ts d (b.map (·.spliced new)) s
  | .constructor m tps n ps ts b s => .constructor m tps n ps ts (b.spliced new) s
  | .initializer st b s => .initializer st (b.spliced new) s
  | .type d => .type d

/-- The number of new callees that are put into a member. -/
def Member.swaps (new : Nat → Option Expr) : Member → Nat
  | .field _ _ vs _ => VarDeclarator.allSwaps new vs
  | .method _ _ _ _ _ _ _ (some b) _ | .constructor _ _ _ _ _ b _ | .initializer _ b _ =>
    b.swaps new
  | .method _ _ _ _ _ _ _ none _ | .type _ => 0

/-- The number of new callees that are put into members. -/
def Member.allSwaps (new : Nat → Option Expr) : List Member → Nat
  | [] => 0
  | m :: ms => m.swaps new + Member.allSwaps new ms

/-- The new callee that decisions have for a call; of several decisions the last counts. -/
def newCallee? (decisions : List Decision) (id : Nat) : Option Expr :=
  decisions.reverse.findSome? fun
    | .replace call callee _ => if call = id then some callee else none
    | .keep _ => none

/-- **A type with decisions carried out**, and without an annotation if one is to be dropped. -/
def TypeDecl.applied (d : TypeDecl) (decisions : List Decision) (strip : Option Annot) : TypeDecl :=
  let annots := strip.elim d.modifiers.annots d.modifiers.annots.erase
  { d with
    modifiers := { d.modifiers with annots }
    members := d.members.map (·.spliced (newCallee? decisions)) }

/-- The number of calls that decisions replace in a type. -/
def TypeDecl.replacedCount (d : TypeDecl) (decisions : List Decision) : Nat :=
  Member.allSwaps (newCallee? decisions) d.members

end JavaGraft

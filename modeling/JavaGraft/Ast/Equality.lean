import JavaGraft.Ast.Tree

/-!
# Equality of syntax trees

Two trees are the same if they were built in the same way from the same data, spans and numbers of
calls included. That is decided node by node, and lists of nodes one after the other.
-/

namespace JavaGraft

mutual

/-- Whether two expressions are the same. -/
def Expr.same : Expr → Expr → Bool
  | .literal v s => fun
    | .literal v' s' => v == v' && s == s'
    | _ => false
  | .name i => fun
    | .name i' => i == i'
    | _ => false
  | .this s => fun
    | .this s' => s == s'
    | _ => false
  | .super s => fun
    | .super s' => s == s'
    | _ => false
  | .field e n s => fun
    | .field e' n' s' => e.same e' && n == n' && s == s'
    | _ => false
  | .call id f as s => fun
    | .call id' f' as' s' => id == id' && f.same f' && Expr.allSame as as' && s == s'
    | _ => false
  | .new t as s => fun
    | .new t' as' s' => t == t' && Expr.allSame as as' && s == s'
    | _ => false
  | .newAnonymous t as ms s => fun
    | .newAnonymous t' as' ms' s' =>
      t == t' && Expr.allSame as as' && Member.allSame ms ms' && s == s'
    | _ => false
  | .newArray t ds s => fun
    | .newArray t' ds' s' => t == t' && Expr.allSame ds ds' && s == s'
    | _ => false
  | .newArrayOf t ds es b s => fun
    | .newArrayOf t' ds' es' b' s' =>
      t == t' && Expr.allSame ds ds' && Expr.allSame es es' && b == b' && s == s'
    | _ => false
  | .arrayInit es s => fun
    | .arrayInit es' s' => Expr.allSame es es' && s == s'
    | _ => false
  | .index a b s => fun
    | .index a' b' s' => a.same a' && b.same b' && s == s'
    | _ => false
  | .unary op e s => fun
    | .unary op' e' s' => op == op' && e.same e' && s == s'
    | _ => false
  | .update e op s => fun
    | .update e' op' s' => e.same e' && op == op' && s == s'
    | _ => false
  | .binary a op b s => fun
    | .binary a' op' b' s' => a.same a' && op == op' && b.same b' && s == s'
    | _ => false
  | .instanceOf e t n s => fun
    | .instanceOf e' t' n' s' => e.same e' && t == t' && n == n' && s == s'
    | _ => false
  | .assign a op b s => fun
    | .assign a' op' b' s' => a.same a' && op == op' && b.same b' && s == s'
    | _ => false
  | .conditional c a b s => fun
    | .conditional c' a' b' s' => c.same c' && a.same a' && b.same b' && s == s'
    | _ => false
  | .cast t e s => fun
    | .cast t' e' s' => t == t' && e.same e' && s == s'
    | _ => false
  | .paren e s => fun
    | .paren e' s' => e.same e' && s == s'
    | _ => false
  | .classLit t s => fun
    | .classLit t' s' => t == t' && s == s'
    | _ => false
  | .lambda ps e s => fun
    | .lambda ps' e' s' => ps == ps' && e.same e' && s == s'
    | _ => false
  | .blockLambda ps b s => fun
    | .blockLambda ps' b' s' => ps == ps' && b.same b' && s == s'
    | _ => false
  | .methodRef e n s => fun
    | .methodRef e' n' s' => e.same e' && n == n' && s == s'
    | _ => false
termination_by structural x => x

/-- Whether two blocks are the same. -/
def Block.same : Block → Block → Bool
  | ⟨ss, s⟩, ⟨ss', s'⟩ => Stmt.allSame ss ss' && s == s'
termination_by structural x => x

/-- Whether two statements are the same. -/
def Stmt.same : Stmt → Stmt → Bool
  | .block b => fun
    | .block b' => b.same b'
    | _ => false
  | .localVar m t vs s => fun
    | .localVar m' t' vs' s' => m.same m' && t == t' && VarDeclarator.allSame vs vs' && s == s'
    | _ => false
  | .localType d => fun
    | .localType d' => d.same d'
    | _ => false
  | .expr e s => fun
    | .expr e' s' => e.same e' && s == s'
    | _ => false
  | .ifThen e a s => fun
    | .ifThen e' a' s' => e.same e' && a.same a' && s == s'
    | _ => false
  | .ifElse e a b s => fun
    | .ifElse e' a' b' s' => e.same e' && a.same a' && b.same b' && s == s'
    | _ => false
  | .whileLoop e a s => fun
    | .whileLoop e' a' s' => e.same e' && a.same a' && s == s'
    | _ => false
  | .doLoop a e s => fun
    | .doLoop a' e' s' => a.same a' && e.same e' && s == s'
    | _ => false
  | .forLoop i e us a s => fun
    | .forLoop i' e' us' a' s' =>
      Stmt.allSame i i' && Expr.sameOption e e' && Expr.allSame us us' && a.same a' && s == s'
    | _ => false
  | .forEach m t n e a s => fun
    | .forEach m' t' n' e' a' s' =>
      m.same m' && t == t' && n == n' && e.same e' && a.same a' && s == s'
    | _ => false
  | .ret e s => fun
    | .ret e' s' => Expr.sameOption e e' && s == s'
    | _ => false
  | .breakTo l s => fun
    | .breakTo l' s' => l == l' && s == s'
    | _ => false
  | .continueTo l s => fun
    | .continueTo l' s' => l == l' && s == s'
    | _ => false
  | .throwing e s => fun
    | .throwing e' s' => e.same e' && s == s'
    | _ => false
  | .tryCatch rs b cs f s => fun
    | .tryCatch rs' b' cs' f' s' =>
      Stmt.allSame rs rs' && b.same b' && CatchClause.allSame cs cs' && Block.sameOption f f' &&
        s == s'
    | _ => false
  | .switch e cs s => fun
    | .switch e' cs' s' => e.same e' && SwitchCase.allSame cs cs' && s == s'
    | _ => false
  | .synchronized e b s => fun
    | .synchronized e' b' s' => e.same e' && b.same b' && s == s'
    | _ => false
  | .labeled l a s => fun
    | .labeled l' a' s' => l == l' && a.same a' && s == s'
    | _ => false
  | .assertion e m s => fun
    | .assertion e' m' s' => e.same e' && Expr.sameOption m m' && s == s'
    | _ => false
  | .empty s => fun
    | .empty s' => s == s'
    | _ => false
termination_by structural x => x

/-- Whether two variables are the same. -/
def VarDeclarator.same : VarDeclarator → VarDeclarator → Bool
  | ⟨n, d, e, s⟩, ⟨n', d', e', s'⟩ => n == n' && d == d' && Expr.sameOption e e' && s == s'
termination_by structural x => x

/-- Whether two handlers are the same. -/
def CatchClause.same : CatchClause → CatchClause → Bool
  | ⟨m, ts, n, b, s⟩, ⟨m', ts', n', b', s'⟩ =>
    m.same m' && ts == ts' && n == n' && b.same b' && s == s'
termination_by structural x => x

/-- Whether two groups of a `switch` are the same. -/
def SwitchCase.same : SwitchCase → SwitchCase → Bool
  | ⟨ls, ss, s⟩, ⟨ls', ss', s'⟩ => Expr.allSame ls ls' && Stmt.allSame ss ss' && s == s'
termination_by structural x => x

/-- Whether two modifiers are the same. -/
def Modifiers.same : Modifiers → Modifiers → Bool
  | ⟨f, as, s⟩, ⟨f', as', s'⟩ => f == f' && Annot.allSame as as' && s == s'
termination_by structural x => x

/-- Whether two annotations are the same. -/
def Annot.same : Annot → Annot → Bool
  | ⟨n, as, s⟩, ⟨n', as', s'⟩ => n == n' && AnnotArg.allSame as as' && s == s'
termination_by structural x => x

/-- Whether two arguments of annotations are the same. -/
def AnnotArg.same : AnnotArg → AnnotArg → Bool
  | ⟨n, v, s⟩, ⟨n', v', s'⟩ => n == n' && v.same v' && s == s'
termination_by structural x => x

/-- Whether two values of elements are the same. -/
def Element.same : Element → Element → Bool
  | .expr e => fun
    | .expr e' => e.same e'
    | _ => false
  | .array es s => fun
    | .array es' s' => Element.allSame es es' && s == s'
    | _ => false
  | .annot a => fun
    | .annot a' => a.same a'
    | _ => false
termination_by structural x => x

/-- Whether two declarations are the same. -/
def TypeDecl.same : TypeDecl → TypeDecl → Bool
  | ⟨m, k, n, tps, sup, is, cs, ms, s⟩, ⟨m', k', n', tps', sup', is', cs', ms', s'⟩ =>
    m.same m' && k == k' && n == n' && tps == tps' && sup == sup' && is == is' &&
      EnumConstant.allSame cs cs' && Member.allSame ms ms' && s == s'
termination_by structural x => x

/-- Whether two constants are the same. -/
def EnumConstant.same : EnumConstant → EnumConstant → Bool
  | .plain as n es s => fun
    | .plain as' n' es' s' => Annot.allSame as as' && n == n' && Expr.allSame es es' && s == s'
    | _ => false
  | .withBody as n es ms s => fun
    | .withBody as' n' es' ms' s' =>
      Annot.allSame as as' && n == n' && Expr.allSame es es' && Member.allSame ms ms' && s == s'
    | _ => false
termination_by structural x => x

/-- Whether two members are the same. -/
def Member.same : Member → Member → Bool
  | .field m t vs s => fun
    | .field m' t' vs' s' => m.same m' && t == t' && VarDeclarator.allSame vs vs' && s == s'
    | _ => false
  | .method m tps t n ps ts d b s => fun
    | .method m' tps' t' n' ps' ts' d' b' s' =>
      m.same m' && tps == tps' && t == t' && n == n' && Param.allSame ps ps' && ts == ts' &&
        Element.sameOption d d' && Block.sameOption b b' && s == s'
    | _ => false
  | .constructor m tps n ps ts b s => fun
    | .constructor m' tps' n' ps' ts' b' s' =>
      m.same m' && tps == tps' && n == n' && Param.allSame ps ps' && ts == ts' && b.same b' &&
        s == s'
    | _ => false
  | .initializer st b s => fun
    | .initializer st' b' s' => st == st' && b.same b' && s == s'
    | _ => false
  | .type d => fun
    | .type d' => d.same d'
    | _ => false
termination_by structural x => x

/-- Whether two parameters are the same. -/
def Param.same : Param → Param → Bool
  | ⟨m, t, va, n, s⟩, ⟨m', t', va', n', s'⟩ =>
    m.same m' && t == t' && va == va' && n == n' && s == s'
termination_by structural x => x

/-- Whether two lists of expressions are the same. -/
def Expr.allSame : List Expr → List Expr → Bool
  | [], [] => true
  | x :: xs, y :: ys => x.same y && Expr.allSame xs ys
  | _, _ => false
termination_by structural x => x

/-- Whether two lists of members are the same. -/
def Member.allSame : List Member → List Member → Bool
  | [], [] => true
  | x :: xs, y :: ys => x.same y && Member.allSame xs ys
  | _, _ => false
termination_by structural x => x

/-- Whether two lists of statements are the same. -/
def Stmt.allSame : List Stmt → List Stmt → Bool
  | [], [] => true
  | x :: xs, y :: ys => x.same y && Stmt.allSame xs ys
  | _, _ => false
termination_by structural x => x

/-- Whether two lists of variables are the same. -/
def VarDeclarator.allSame : List VarDeclarator → List VarDeclarator → Bool
  | [], [] => true
  | x :: xs, y :: ys => x.same y && VarDeclarator.allSame xs ys
  | _, _ => false
termination_by structural x => x

/-- Whether two lists of handlers are the same. -/
def CatchClause.allSame : List CatchClause → List CatchClause → Bool
  | [], [] => true
  | x :: xs, y :: ys => x.same y && CatchClause.allSame xs ys
  | _, _ => false
termination_by structural x => x

/-- Whether two lists of groups of a `switch` are the same. -/
def SwitchCase.allSame : List SwitchCase → List SwitchCase → Bool
  | [], [] => true
  | x :: xs, y :: ys => x.same y && SwitchCase.allSame xs ys
  | _, _ => false
termination_by structural x => x

/-- Whether two lists of annotations are the same. -/
def Annot.allSame : List Annot → List Annot → Bool
  | [], [] => true
  | x :: xs, y :: ys => x.same y && Annot.allSame xs ys
  | _, _ => false
termination_by structural x => x

/-- Whether two lists of arguments of annotations are the same. -/
def AnnotArg.allSame : List AnnotArg → List AnnotArg → Bool
  | [], [] => true
  | x :: xs, y :: ys => x.same y && AnnotArg.allSame xs ys
  | _, _ => false
termination_by structural x => x

/-- Whether two lists of values of elements are the same. -/
def Element.allSame : List Element → List Element → Bool
  | [], [] => true
  | x :: xs, y :: ys => x.same y && Element.allSame xs ys
  | _, _ => false
termination_by structural x => x

/-- Whether two lists of constants are the same. -/
def EnumConstant.allSame : List EnumConstant → List EnumConstant → Bool
  | [], [] => true
  | x :: xs, y :: ys => x.same y && EnumConstant.allSame xs ys
  | _, _ => false
termination_by structural x => x

/-- Whether two lists of parameters are the same. -/
def Param.allSame : List Param → List Param → Bool
  | [], [] => true
  | x :: xs, y :: ys => x.same y && Param.allSame xs ys
  | _, _ => false
termination_by structural x => x

/-- Whether two optional expressions are the same. -/
def Expr.sameOption : Option Expr → Option Expr → Bool
  | none, none => true
  | some x, some y => x.same y
  | _, _ => false
termination_by structural x => x

/-- Whether two optional blocks are the same. -/
def Block.sameOption : Option Block → Option Block → Bool
  | none, none => true
  | some x, some y => x.same y
  | _, _ => false
termination_by structural x => x

/-- Whether two optional values of elements are the same. -/
def Element.sameOption : Option Element → Option Element → Bool
  | none, none => true
  | some x, some y => x.same y
  | _, _ => false
termination_by structural x => x
end

mutual

theorem Expr.same_iff : ∀ a b : Expr, a.same b = true ↔ a = b
  | .literal v s, y => by
    cases y with
    | literal => simp [Expr.same]
    | _ => exact ⟨nofun, nofun⟩
  | .name i, y => by
    cases y with
    | name => simp [Expr.same]
    | _ => exact ⟨nofun, nofun⟩
  | .this s, y => by
    cases y with
    | this => simp [Expr.same]
    | _ => exact ⟨nofun, nofun⟩
  | .super s, y => by
    cases y with
    | super => simp [Expr.same]
    | _ => exact ⟨nofun, nofun⟩
  | .field e n s, y => by
    cases y with
    | field => simp [Expr.same, Expr.same_iff e, and_assoc]
    | _ => exact ⟨nofun, nofun⟩
  | .call id f as s, y => by
    cases y with
    | call => simp [Expr.same, Expr.same_iff f, Expr.allSame_iff as, and_assoc]
    | _ => exact ⟨nofun, nofun⟩
  | .new t as s, y => by
    cases y with
    | new => simp [Expr.same, Expr.allSame_iff as, and_assoc]
    | _ => exact ⟨nofun, nofun⟩
  | .newAnonymous t as ms s, y => by
    cases y with
    | newAnonymous => simp [Expr.same, Expr.allSame_iff as, Member.allSame_iff ms, and_assoc]
    | _ => exact ⟨nofun, nofun⟩
  | .newArray t ds s, y => by
    cases y with
    | newArray => simp [Expr.same, Expr.allSame_iff ds, and_assoc]
    | _ => exact ⟨nofun, nofun⟩
  | .newArrayOf t ds es b s, y => by
    cases y with
    | newArrayOf => simp [Expr.same, Expr.allSame_iff ds, Expr.allSame_iff es, and_assoc]
    | _ => exact ⟨nofun, nofun⟩
  | .arrayInit es s, y => by
    cases y with
    | arrayInit => simp [Expr.same, Expr.allSame_iff es]
    | _ => exact ⟨nofun, nofun⟩
  | .index a b s, y => by
    cases y with
    | index => simp [Expr.same, Expr.same_iff a, Expr.same_iff b, and_assoc]
    | _ => exact ⟨nofun, nofun⟩
  | .unary op e s, y => by
    cases y with
    | unary => simp [Expr.same, Expr.same_iff e, and_assoc]
    | _ => exact ⟨nofun, nofun⟩
  | .update e op s, y => by
    cases y with
    | update => simp [Expr.same, Expr.same_iff e, and_assoc]
    | _ => exact ⟨nofun, nofun⟩
  | .binary a op b s, y => by
    cases y with
    | binary => simp [Expr.same, Expr.same_iff a, Expr.same_iff b, and_assoc]
    | _ => exact ⟨nofun, nofun⟩
  | .instanceOf e t n s, y => by
    cases y with
    | instanceOf => simp [Expr.same, Expr.same_iff e, and_assoc]
    | _ => exact ⟨nofun, nofun⟩
  | .assign a op b s, y => by
    cases y with
    | assign => simp [Expr.same, Expr.same_iff a, Expr.same_iff b, and_assoc]
    | _ => exact ⟨nofun, nofun⟩
  | .conditional c a b s, y => by
    cases y with
    | conditional => simp [Expr.same, Expr.same_iff c, Expr.same_iff a, Expr.same_iff b, and_assoc]
    | _ => exact ⟨nofun, nofun⟩
  | .cast t e s, y => by
    cases y with
    | cast => simp [Expr.same, Expr.same_iff e, and_assoc]
    | _ => exact ⟨nofun, nofun⟩
  | .paren e s, y => by
    cases y with
    | paren => simp [Expr.same, Expr.same_iff e]
    | _ => exact ⟨nofun, nofun⟩
  | .classLit t s, y => by
    cases y with
    | classLit => simp [Expr.same]
    | _ => exact ⟨nofun, nofun⟩
  | .lambda ps e s, y => by
    cases y with
    | lambda => simp [Expr.same, Expr.same_iff e, and_assoc]
    | _ => exact ⟨nofun, nofun⟩
  | .blockLambda ps b s, y => by
    cases y with
    | blockLambda => simp [Expr.same, Block.same_iff b, and_assoc]
    | _ => exact ⟨nofun, nofun⟩
  | .methodRef e n s, y => by
    cases y with
    | methodRef => simp [Expr.same, Expr.same_iff e, and_assoc]
    | _ => exact ⟨nofun, nofun⟩
termination_by structural x => x

theorem Block.same_iff : ∀ a b : Block, a.same b = true ↔ a = b
  | ⟨ss, s⟩, y => by
    cases y
    simp [Block.same, Stmt.allSame_iff ss]
termination_by structural x => x

theorem Stmt.same_iff : ∀ a b : Stmt, a.same b = true ↔ a = b
  | .block b, y => by
    cases y with
    | block => simp [Stmt.same, Block.same_iff b]
    | _ => exact ⟨nofun, nofun⟩
  | .localVar m t vs s, y => by
    cases y with
    | localVar => simp [Stmt.same, Modifiers.same_iff m, VarDeclarator.allSame_iff vs, and_assoc]
    | _ => exact ⟨nofun, nofun⟩
  | .localType d, y => by
    cases y with
    | localType => simp [Stmt.same, TypeDecl.same_iff d]
    | _ => exact ⟨nofun, nofun⟩
  | .expr e s, y => by
    cases y with
    | expr => simp [Stmt.same, Expr.same_iff e]
    | _ => exact ⟨nofun, nofun⟩
  | .ifThen e a s, y => by
    cases y with
    | ifThen => simp [Stmt.same, Expr.same_iff e, Stmt.same_iff a, and_assoc]
    | _ => exact ⟨nofun, nofun⟩
  | .ifElse e a b s, y => by
    cases y with
    | ifElse => simp [Stmt.same, Expr.same_iff e, Stmt.same_iff a, Stmt.same_iff b, and_assoc]
    | _ => exact ⟨nofun, nofun⟩
  | .whileLoop e a s, y => by
    cases y with
    | whileLoop => simp [Stmt.same, Expr.same_iff e, Stmt.same_iff a, and_assoc]
    | _ => exact ⟨nofun, nofun⟩
  | .doLoop a e s, y => by
    cases y with
    | doLoop => simp [Stmt.same, Stmt.same_iff a, Expr.same_iff e, and_assoc]
    | _ => exact ⟨nofun, nofun⟩
  | .forLoop i e us a s, y => by
    cases y with
    | forLoop =>
      simp [Stmt.same, Stmt.allSame_iff i, Expr.sameOption_iff e, Expr.allSame_iff us,
        Stmt.same_iff a, and_assoc]
    | _ => exact ⟨nofun, nofun⟩
  | .forEach m t n e a s, y => by
    cases y with
    | forEach => simp [Stmt.same, Modifiers.same_iff m, Expr.same_iff e, Stmt.same_iff a, and_assoc]
    | _ => exact ⟨nofun, nofun⟩
  | .ret e s, y => by
    cases y with
    | ret => simp [Stmt.same, Expr.sameOption_iff e]
    | _ => exact ⟨nofun, nofun⟩
  | .breakTo l s, y => by
    cases y with
    | breakTo => simp [Stmt.same]
    | _ => exact ⟨nofun, nofun⟩
  | .continueTo l s, y => by
    cases y with
    | continueTo => simp [Stmt.same]
    | _ => exact ⟨nofun, nofun⟩
  | .throwing e s, y => by
    cases y with
    | throwing => simp [Stmt.same, Expr.same_iff e]
    | _ => exact ⟨nofun, nofun⟩
  | .tryCatch rs b cs f s, y => by
    cases y with
    | tryCatch =>
      simp [Stmt.same, Stmt.allSame_iff rs, Block.same_iff b, CatchClause.allSame_iff cs,
        Block.sameOption_iff f, and_assoc]
    | _ => exact ⟨nofun, nofun⟩
  | .switch e cs s, y => by
    cases y with
    | switch => simp [Stmt.same, Expr.same_iff e, SwitchCase.allSame_iff cs, and_assoc]
    | _ => exact ⟨nofun, nofun⟩
  | .synchronized e b s, y => by
    cases y with
    | synchronized => simp [Stmt.same, Expr.same_iff e, Block.same_iff b, and_assoc]
    | _ => exact ⟨nofun, nofun⟩
  | .labeled l a s, y => by
    cases y with
    | labeled => simp [Stmt.same, Stmt.same_iff a, and_assoc]
    | _ => exact ⟨nofun, nofun⟩
  | .assertion e m s, y => by
    cases y with
    | assertion => simp [Stmt.same, Expr.same_iff e, Expr.sameOption_iff m, and_assoc]
    | _ => exact ⟨nofun, nofun⟩
  | .empty s, y => by
    cases y with
    | empty => simp [Stmt.same]
    | _ => exact ⟨nofun, nofun⟩
termination_by structural x => x

theorem VarDeclarator.same_iff : ∀ a b : VarDeclarator, a.same b = true ↔ a = b
  | ⟨n, d, e, s⟩, y => by
    cases y
    simp [VarDeclarator.same, Expr.sameOption_iff e, and_assoc]
termination_by structural x => x

theorem CatchClause.same_iff : ∀ a b : CatchClause, a.same b = true ↔ a = b
  | ⟨m, ts, n, b, s⟩, y => by
    cases y
    simp [CatchClause.same, Modifiers.same_iff m, Block.same_iff b, and_assoc]
termination_by structural x => x

theorem SwitchCase.same_iff : ∀ a b : SwitchCase, a.same b = true ↔ a = b
  | ⟨ls, ss, s⟩, y => by
    cases y
    simp [SwitchCase.same, Expr.allSame_iff ls, Stmt.allSame_iff ss, and_assoc]
termination_by structural x => x

theorem Modifiers.same_iff : ∀ a b : Modifiers, a.same b = true ↔ a = b
  | ⟨f, as, s⟩, y => by
    cases y
    simp [Modifiers.same, Annot.allSame_iff as, and_assoc]
termination_by structural x => x

theorem Annot.same_iff : ∀ a b : Annot, a.same b = true ↔ a = b
  | ⟨n, as, s⟩, y => by
    cases y
    simp [Annot.same, AnnotArg.allSame_iff as, and_assoc]
termination_by structural x => x

theorem AnnotArg.same_iff : ∀ a b : AnnotArg, a.same b = true ↔ a = b
  | ⟨n, v, s⟩, y => by
    cases y
    simp [AnnotArg.same, Element.same_iff v, and_assoc]
termination_by structural x => x

theorem Element.same_iff : ∀ a b : Element, a.same b = true ↔ a = b
  | .expr e, y => by
    cases y with
    | expr => simp [Element.same, Expr.same_iff e]
    | _ => exact ⟨nofun, nofun⟩
  | .array es s, y => by
    cases y with
    | array => simp [Element.same, Element.allSame_iff es]
    | _ => exact ⟨nofun, nofun⟩
  | .annot a, y => by
    cases y with
    | annot => simp [Element.same, Annot.same_iff a]
    | _ => exact ⟨nofun, nofun⟩
termination_by structural x => x

theorem TypeDecl.same_iff : ∀ a b : TypeDecl, a.same b = true ↔ a = b
  | ⟨m, k, n, tps, sup, is, cs, ms, s⟩, y => by
    cases y
    simp [TypeDecl.same, Modifiers.same_iff m, EnumConstant.allSame_iff cs,
      Member.allSame_iff ms, and_assoc]
termination_by structural x => x

theorem EnumConstant.same_iff : ∀ a b : EnumConstant, a.same b = true ↔ a = b
  | .plain as n es s, y => by
    cases y with
    | plain => simp [EnumConstant.same, Annot.allSame_iff as, Expr.allSame_iff es, and_assoc]
    | _ => exact ⟨nofun, nofun⟩
  | .withBody as n es ms s, y => by
    cases y with
    | withBody =>
      simp [EnumConstant.same, Annot.allSame_iff as, Expr.allSame_iff es, Member.allSame_iff ms,
        and_assoc]
    | _ => exact ⟨nofun, nofun⟩
termination_by structural x => x

theorem Member.same_iff : ∀ a b : Member, a.same b = true ↔ a = b
  | .field m t vs s, y => by
    cases y with
    | field => simp [Member.same, Modifiers.same_iff m, VarDeclarator.allSame_iff vs, and_assoc]
    | _ => exact ⟨nofun, nofun⟩
  | .method m tps t n ps ts d b s, y => by
    cases y with
    | method =>
      simp [Member.same, Modifiers.same_iff m, Param.allSame_iff ps, Element.sameOption_iff d,
        Block.sameOption_iff b, and_assoc]
    | _ => exact ⟨nofun, nofun⟩
  | .constructor m tps n ps ts b s, y => by
    cases y with
    | constructor =>
      simp [Member.same, Modifiers.same_iff m, Param.allSame_iff ps, Block.same_iff b, and_assoc]
    | _ => exact ⟨nofun, nofun⟩
  | .initializer st b s, y => by
    cases y with
    | initializer => simp [Member.same, Block.same_iff b, and_assoc]
    | _ => exact ⟨nofun, nofun⟩
  | .type d, y => by
    cases y with
    | type => simp [Member.same, TypeDecl.same_iff d]
    | _ => exact ⟨nofun, nofun⟩
termination_by structural x => x

theorem Param.same_iff : ∀ a b : Param, a.same b = true ↔ a = b
  | ⟨m, t, va, n, s⟩, y => by
    cases y
    simp [Param.same, Modifiers.same_iff m, and_assoc]
termination_by structural x => x

theorem Expr.allSame_iff : ∀ xs ys : List Expr, Expr.allSame xs ys = true ↔ xs = ys
  | [], ys => by cases ys <;> simp [Expr.allSame]
  | x :: xs, ys => by cases ys <;> simp [Expr.allSame, Expr.same_iff x, Expr.allSame_iff xs]
termination_by structural x => x

theorem Member.allSame_iff : ∀ xs ys : List Member, Member.allSame xs ys = true ↔ xs = ys
  | [], ys => by cases ys <;> simp [Member.allSame]
  | x :: xs, ys => by cases ys <;> simp [Member.allSame, Member.same_iff x, Member.allSame_iff xs]
termination_by structural x => x

theorem Stmt.allSame_iff : ∀ xs ys : List Stmt, Stmt.allSame xs ys = true ↔ xs = ys
  | [], ys => by cases ys <;> simp [Stmt.allSame]
  | x :: xs, ys => by cases ys <;> simp [Stmt.allSame, Stmt.same_iff x, Stmt.allSame_iff xs]
termination_by structural x => x

theorem VarDeclarator.allSame_iff : ∀ xs ys : List VarDeclarator,
    VarDeclarator.allSame xs ys = true ↔ xs = ys
  | [], ys => by cases ys <;> simp [VarDeclarator.allSame]
  | x :: xs, ys => by
    cases ys <;> simp [VarDeclarator.allSame, VarDeclarator.same_iff x,
      VarDeclarator.allSame_iff xs]
termination_by structural x => x

theorem CatchClause.allSame_iff : ∀ xs ys : List CatchClause,
    CatchClause.allSame xs ys = true ↔ xs = ys
  | [], ys => by cases ys <;> simp [CatchClause.allSame]
  | x :: xs, ys => by
    cases ys <;> simp [CatchClause.allSame, CatchClause.same_iff x, CatchClause.allSame_iff xs]
termination_by structural x => x

theorem SwitchCase.allSame_iff : ∀ xs ys : List SwitchCase,
    SwitchCase.allSame xs ys = true ↔ xs = ys
  | [], ys => by cases ys <;> simp [SwitchCase.allSame]
  | x :: xs, ys => by
    cases ys <;> simp [SwitchCase.allSame, SwitchCase.same_iff x, SwitchCase.allSame_iff xs]
termination_by structural x => x

theorem Annot.allSame_iff : ∀ xs ys : List Annot, Annot.allSame xs ys = true ↔ xs = ys
  | [], ys => by cases ys <;> simp [Annot.allSame]
  | x :: xs, ys => by cases ys <;> simp [Annot.allSame, Annot.same_iff x, Annot.allSame_iff xs]
termination_by structural x => x

theorem AnnotArg.allSame_iff : ∀ xs ys : List AnnotArg, AnnotArg.allSame xs ys = true ↔ xs = ys
  | [], ys => by cases ys <;> simp [AnnotArg.allSame]
  | x :: xs, ys => by
    cases ys <;> simp [AnnotArg.allSame, AnnotArg.same_iff x, AnnotArg.allSame_iff xs]
termination_by structural x => x

theorem Element.allSame_iff : ∀ xs ys : List Element, Element.allSame xs ys = true ↔ xs = ys
  | [], ys => by cases ys <;> simp [Element.allSame]
  | x :: xs, ys => by
    cases ys <;> simp [Element.allSame, Element.same_iff x, Element.allSame_iff xs]
termination_by structural x => x

theorem EnumConstant.allSame_iff : ∀ xs ys : List EnumConstant,
    EnumConstant.allSame xs ys = true ↔ xs = ys
  | [], ys => by cases ys <;> simp [EnumConstant.allSame]
  | x :: xs, ys => by
    cases ys <;> simp [EnumConstant.allSame, EnumConstant.same_iff x, EnumConstant.allSame_iff xs]
termination_by structural x => x

theorem Param.allSame_iff : ∀ xs ys : List Param, Param.allSame xs ys = true ↔ xs = ys
  | [], ys => by cases ys <;> simp [Param.allSame]
  | x :: xs, ys => by cases ys <;> simp [Param.allSame, Param.same_iff x, Param.allSame_iff xs]
termination_by structural x => x

theorem Expr.sameOption_iff : ∀ x y : Option Expr, Expr.sameOption x y = true ↔ x = y
  | none, y => by cases y <;> simp [Expr.sameOption]
  | some x, y => by cases y <;> simp [Expr.sameOption, Expr.same_iff x]
termination_by structural x => x

theorem Block.sameOption_iff : ∀ x y : Option Block, Block.sameOption x y = true ↔ x = y
  | none, y => by cases y <;> simp [Block.sameOption]
  | some x, y => by cases y <;> simp [Block.sameOption, Block.same_iff x]
termination_by structural x => x

theorem Element.sameOption_iff : ∀ x y : Option Element, Element.sameOption x y = true ↔ x = y
  | none, y => by cases y <;> simp [Element.sameOption]
  | some x, y => by cases y <;> simp [Element.sameOption, Element.same_iff x]
termination_by structural x => x
end

instance : DecidableEq Expr := fun a b => decidable_of_iff _ (Expr.same_iff a b)
instance : DecidableEq Block := fun a b => decidable_of_iff _ (Block.same_iff a b)
instance : DecidableEq Stmt := fun a b => decidable_of_iff _ (Stmt.same_iff a b)
instance : DecidableEq VarDeclarator := fun a b => decidable_of_iff _ (VarDeclarator.same_iff a b)
instance : DecidableEq CatchClause := fun a b => decidable_of_iff _ (CatchClause.same_iff a b)
instance : DecidableEq SwitchCase := fun a b => decidable_of_iff _ (SwitchCase.same_iff a b)
instance : DecidableEq Modifiers := fun a b => decidable_of_iff _ (Modifiers.same_iff a b)
instance : DecidableEq Annot := fun a b => decidable_of_iff _ (Annot.same_iff a b)
instance : DecidableEq AnnotArg := fun a b => decidable_of_iff _ (AnnotArg.same_iff a b)
instance : DecidableEq Element := fun a b => decidable_of_iff _ (Element.same_iff a b)
instance : DecidableEq TypeDecl := fun a b => decidable_of_iff _ (TypeDecl.same_iff a b)
instance : DecidableEq EnumConstant := fun a b => decidable_of_iff _ (EnumConstant.same_iff a b)
instance : DecidableEq Member := fun a b => decidable_of_iff _ (Member.same_iff a b)
instance : DecidableEq Param := fun a b => decidable_of_iff _ (Param.same_iff a b)

deriving instance DecidableEq for Call, SourceUnit

end JavaGraft

import JavaGraft.Scope.Context
import JavaGraft.Scope.Local
import JavaGraft.Typing.Overload

/-!
# The types of the expressions of a member

A member is typed from its beginning to its end: every expression for which a type can be found is
entered in a table together with its type, while the local variables come and go. The types of
method calls are those of the declared results, without regard to type arguments. What cannot be
typed has no type: names of types and packages, lambdas and method references, and everything that
depends on something unknown.

The bodies of anonymous, local and member classes are left out.
-/

namespace JavaGraft

/-- Typed expressions, the latest first. -/
abbrev TypeTable := List (Expr × DataType)

/-- What changes while a member is typed: the local variables and the table. -/
structure TyperState where
  scope : LocalScope
  table : TypeTable

/-- A step of typing a member. -/
abbrev Typer := StateM TyperState

namespace Typer

/-- Changes the local variables. -/
def changeScope (f : LocalScope → LocalScope) : Typer Unit :=
  modify fun s => { s with scope := f s.scope }

/-- Opens a scope. -/
def enter : Typer Unit := changeScope LocalScope.enter

/-- Closes the innermost scope. -/
def leave : Typer Unit := changeScope LocalScope.leave

/-- Declares a local variable. -/
def declare (name : Ident) (type : Option DataType) : Typer Unit :=
  changeScope (·.declare name.name type name.span)

/-- Enters an expression in the table, if it has a type. -/
def note (e : Expr) (typed : Typer (Option DataType)) : Typer (Option DataType) := do
  let type ← typed
  if let some t := type then modify fun s => { s with table := (e, t) :: s.table }
  return type

/-- What noting gives, and what it adds to the table. -/
theorem run_note (e : Expr) (p : Typer (Option DataType)) (s : TyperState) :
    (note e p).run s = ((p.run s).1,
      ⟨(p.run s).2.scope, (p.run s).1.toList.map (fun t => (e, t)) ++ (p.run s).2.table⟩) := by
  change (note e fun _ => p.run s).run s = _
  rcases p.run s with ⟨_ | t, s'⟩ <;> rfl

/-- What holds of doing nothing, and of two steps one after the other if it does of both, holds of a
loop if it does of its rounds. -/
theorem forM_induction {α : Type} {C : Typer PUnit → Prop} (hpure : C (pure ⟨⟩))
    (hbind : ∀ x y, C x → C y → C (x >>= fun _ => y)) {xs : List α} {g : α → Typer PUnit}
    (hg : ∀ x ∈ xs, C (g x)) : C (xs.forM g) := by
  induction xs with
  | nil => exact hpure
  | cons x xs ih =>
    exact hbind _ _ (hg x List.mem_cons_self) (ih fun y hy => hg y (List.mem_cons_of_mem x hy))

end Typer

/-! ### Names -/

namespace Context

/-- The type of the values of a type as written. -/
def valueType (c : Context) (t : TypeExpr) : Option DataType := (c.type t).toOption

/-- The superclass of the type around the place. -/
def superclass? (c : Context) : Option TypeHash :=
  (c.owner.bind c.registry.get?).bind TypeSymbol.superclass

/-- The type of a simple name as a value: a local variable, or a field of a type around the place,
the innermost first. -/
def nameType (c : Context) (scope : LocalScope) (name : String) : Option DataType :=
  if scope.isDeclared name then scope.typeOf? name
  else (c.enclosing.findSome? (c.registry.fieldNamed? · name)).map FieldSymbol.type

/-- The type that a name or chain of names denotes. A single name that is a local variable denotes
none. -/
def denotedType (c : Context) (scope : LocalScope) (e : Expr) : Option TypeHash :=
  match e with
  | .name i => if scope.isDeclared i.name then none else c.namedType? [i.name]
  | e => e.chain?.bind fun chain => c.namedType? (chain.map Ident.name)

/-- The type of a field access, given the type of the target as a value. -/
def fieldType (c : Context) (scope : LocalScope) (target : Expr) (type : Option DataType)
    (name : String) : Option DataType :=
  let field := fun h => (c.registry.fieldNamed? h name).map FieldSymbol.type
  match type with
  | some t =>
    if t.isArray then if name = "length" then some (.simple .int) else none else field t.base
  | none => (c.denotedType scope target).bind field

/-- The type whose methods a receiver has, given its type as a value. -/
def receiverType (c : Context) (scope : LocalScope) (receiver : Expr) (type : Option DataType) :
    Option TypeHash :=
  match type with
  | some t => if t.isArray then some .object else if t.isPrimitive then none else some t.base
  | none => c.denotedType scope receiver

/-- The type of a call without receiver: the innermost type around the place that has a method of
the name is asked. -/
def ownCallType (c : Context) (name : String) (args : List (Option DataType)) : Option DataType :=
  ((c.enclosing.map (c.registry.methodsNamed · name)).find? (!·.isEmpty)).bind
    (c.registry.select · args)

/-- The type of a call with a receiver of the given type. -/
def callType (c : Context) (receiver : Option TypeHash) (name : String)
    (args : List (Option DataType)) : Option DataType :=
  receiver.bind fun h => c.registry.select (c.registry.methodsNamed h name) args

end Context

/-- The type of the elements of an array. -/
def elementType (array : Option DataType) : Option DataType :=
  (array.filter DataType.isArray).map DataType.element

/-! ### Expressions and statements -/

open Typer

mutual

/-- The type of an expression, everything below it being entered in the table. A type that is
expected matters to array initializers only. -/
def Expr.typed (c : Context) (expected : Option DataType) : Expr → Typer (Option DataType)
  | .literal v _ => return some v.type
  | .name i => return c.nameType (← get).scope i.name
  | .this _ => return c.owner.map .simple
  | .super _ => return c.superclass?.map .simple
  | .field e n _ => do
    let t ← note e (e.typed c none)
    return c.fieldType (← get).scope e t n.name
  | .call _ (.this _) as _ | .call _ (.super _) as _ => do
    discard (Expr.allTyped c none as)
    return some .void
  | .call _ (.name i) as _ => return c.ownCallType i.name (← Expr.allTyped c none as)
  | .call _ (.field e n _) as _ => do
    let t ← note e (e.typed c none)
    let receiver := c.receiverType (← get).scope e t
    return c.callType receiver n.name (← Expr.allTyped c none as)
  | .call _ f as _ => do
    discard (note f (f.typed c none))
    discard (Expr.allTyped c none as)
    return none
  | .new t as _ | .newAnonymous t as _ _ => do
    discard (Expr.allTyped c none as)
    return c.valueType t
  | .newArray t ds _ => do
    discard (Expr.allTyped c none ds)
    return c.valueType t
  | .newArrayOf t ds es _ _ => do
    discard (Expr.allTyped c none ds)
    let type := c.valueType t
    discard (Expr.allTyped c (elementType type) es)
    return type
  | .arrayInit es _ => do
    discard (Expr.allTyped c (elementType expected) es)
    return expected.filter DataType.isArray
  | .index a i _ => do
    let t ← note a (a.typed c none)
    discard (note i (i.typed c none))
    return elementType t
  | .unary op e _ => return op.type (← note e (e.typed c none))
  | .update e _ _ => note e (e.typed c none)
  | .binary a op b _ => do
    let left ← note a (a.typed c none)
    let right ← note b (b.typed c none)
    return op.type left right
  | .instanceOf e t binding _ => do
    discard (note e (e.typed c none))
    if let some name := binding then declare name (c.valueType t)
    return some .boolean
  | .assign a _ b _ => do
    let target ← note a (a.typed c none)
    discard (note b (b.typed c target))
    return target
  | .conditional e a b _ => do
    discard (note e (e.typed c none))
    let yes ← note a (a.typed c none)
    let no ← note b (b.typed c none)
    return yes.bind fun yes => no.map fun no => c.registry.joinTypes yes no
  | .cast t e _ => do
    discard (note e (e.typed c none))
    return c.valueType t
  | .paren e _ => note e (e.typed c expected)
  | .classLit .. => return some (.simple .classObject)
  | .lambda ps e _ => do
    enter
    ps.forM fun p => declare p.name (p.type.bind c.valueType)
    discard (note e (e.typed c none))
    leave
    return none
  | .blockLambda ps b _ => do
    enter
    ps.forM fun p => declare p.name (p.type.bind c.valueType)
    b.typed c
    leave
    return none
  | .methodRef e _ _ => do
    discard (note e (e.typed c none))
    return none

/-- The types of expressions, in order. -/
def Expr.allTyped (c : Context) (expected : Option DataType) :
    List Expr → Typer (List (Option DataType))
  | [] => return []
  | e :: es => do
    let t ← note e (e.typed c expected)
    return t :: (← Expr.allTyped c expected es)

/-- Types the statements of a block, in a scope of its own. -/
def Block.typed (c : Context) : Block → Typer Unit
  | ⟨ss, _⟩ => do
    enter
    Stmt.allTyped c ss
    leave

/-- Types a statement. -/
def Stmt.typed (c : Context) : Stmt → Typer Unit
  | .block b => b.typed c
  | .localVar _ t vs _ =>
    if t.isInferred then VarDeclarator.allInferred c vs
    else VarDeclarator.allTyped c (c.valueType t) vs
  | .localType _ | .breakTo .. | .continueTo .. | .empty _ => return
  | .expr e _ | .throwing e _ => discard (note e (e.typed c none))
  | .ifThen e a _ | .whileLoop e a _ => do
    discard (note e (e.typed c none))
    enter
    a.typed c
    leave
  | .ifElse e a b _ => do
    discard (note e (e.typed c none))
    enter
    a.typed c
    leave
    enter
    b.typed c
    leave
  | .doLoop a e _ => do
    enter
    a.typed c
    leave
    discard (note e (e.typed c none))
  | .forLoop i e us a _ => do
    enter
    Stmt.allTyped c i
    match e with
    | none => pure ()
    | some e => discard (note e (e.typed c none))
    discard (Expr.allTyped c none us)
    enter
    a.typed c
    leave
    leave
  | .forEach _ t n e a _ => do
    enter
    let iterable ← note e (e.typed c none)
    declare n (if t.isInferred then elementType iterable else c.valueType t)
    enter
    a.typed c
    leave
    leave
  | .ret e _ =>
    match e with
    | none => return
    | some e => discard (note e (e.typed c none))
  | .tryCatch rs b cs f _ => do
    enter
    Stmt.allTyped c rs
    b.typed c
    leave
    CatchClause.allTyped c cs
    match f with
    | none => return
    | some f => f.typed c
  | .switch e cs _ => do
    discard (note e (e.typed c none))
    enter
    SwitchCase.allTyped c cs
    leave
  | .synchronized e b _ => do
    discard (note e (e.typed c none))
    b.typed c
  | .labeled _ a _ => a.typed c
  | .assertion e m _ => do
    discard (note e (e.typed c none))
    match m with
    | none => return
    | some m => discard (note m (m.typed c none))

/-- Types statements one after the other, in the same scope. -/
def Stmt.allTyped (c : Context) : List Stmt → Typer Unit
  | [] => return
  | s :: ss => do
    s.typed c
    Stmt.allTyped c ss

/-- Types and declares variables of a written type. -/
def VarDeclarator.allTyped (c : Context) (declared : Option DataType) :
    List VarDeclarator → Typer Unit
  | [] => return
  | ⟨n, dims, init, _⟩ :: vs => do
    let type := declared.map (·.withDims dims)
    match init with
    | none => pure ()
    | some e => discard (note e (e.typed c type))
    declare n type
    VarDeclarator.allTyped c declared vs

/-- Types and declares variables that have the types of their initial values. -/
def VarDeclarator.allInferred (c : Context) : List VarDeclarator → Typer Unit
  | [] => return
  | ⟨n, _, none, _⟩ :: vs => do
    declare n none
    VarDeclarator.allInferred c vs
  | ⟨n, _, some e, _⟩ :: vs => do
    declare n (← note e (e.typed c none))
    VarDeclarator.allInferred c vs

/-- Types handlers. The variable of a handler for several types has the first of them. -/
def CatchClause.allTyped (c : Context) : List CatchClause → Typer Unit
  | [] => return
  | ⟨_, ts, n, b, _⟩ :: cs => do
    enter
    declare n (ts.head?.bind c.valueType)
    b.typed c
    leave
    CatchClause.allTyped c cs

/-- Types the groups of a `switch`, which share one scope. -/
def SwitchCase.allTyped (c : Context) : List SwitchCase → Typer Unit
  | [] => return
  | ⟨ls, ss, _⟩ :: cs => do
    discard (Expr.allTyped c none ls)
    Stmt.allTyped c ss
    SwitchCase.allTyped c cs

end

/-! ### Members -/

/-- Types the initial values of fields. -/
def typeFields (c : Context) (declared : Option DataType) (vars : List VarDeclarator) :
    Typer Unit :=
  vars.forM fun v => v.init.forM fun e =>
    discard (note e (e.typed c (declared.map (·.withDims v.dims))))

/-- Types a member at its place. -/
def Member.typed (c : Context) (m : Member) : Typer Unit :=
  match m with
  | .field _ t vars _ => typeFields c (c.valueType t) vars
  | .method _ tps _ _ ps _ _ body _ => do
    let c := c.addTypeVars (tps.map (·.name.name))
    ps.forM fun p => declare p.name (c.valueType p.type)
    body.forM (·.typed c)
  | .constructor _ tps _ ps _ body _ => do
    let c := c.addTypeVars (tps.map (·.name.name))
    ps.forM fun p => declare p.name (c.valueType p.type)
    body.typed c
  | .initializer _ body _ => body.typed c
  | .type _ => return

/-- **The types of the expressions of a member.** -/
def Member.typeTable (c : Context) (m : Member) : TypeTable :=
  ((m.typed c).run ⟨.empty, []⟩).2.table

end JavaGraft

import JavaGraft.Proofs.Extension.Candidates
import JavaGraft.Proofs.Extension.Redirection

/-!
# The local variables in scope at a call

The calls of a member's own code, each with the names of the local variables that are in scope where
it stands: parameters, variables of blocks and loops, of resources and handlers, parameters of the
lambdas around it, and what a type test on the left of it has bound. A variable is in scope from its
own initial value on, to the end of the block or statement that it belongs to. A name that is
declared again inside is listed again.

This is the listing of calls once more (`JavaGraft.Member.map_scoped`), with what is foreign left
out. All names in scope at a call are declared in the member (`JavaGraft.Member.scoped_subset`),
so a name that a member does not declare is in scope nowhere in it. In the annotations and constants
of a type only lambdas and type tests bring variables into scope. Together
(`JavaGraft.TypeDecl.exists_scopedAt`, `JavaGraft.TypeDecl.scopedAt_subset`), what is in scope at a
candidate of a type is declared in the type.
-/

namespace JavaGraft

/-! ### What stays in scope behind an expression -/

mutual

/-- The names that the type tests in an expression bind; those in a lambda end with it. -/
def Expr.bound : Expr → List String
  | .literal .. | .name _ | .this _ | .super _ | .classLit .. | .lambda .. | .blockLambda .. => []
  | .paren e _ | .field e _ _ | .unary _ e _ | .update e _ _ | .methodRef e _ _ | .cast _ e _ =>
    e.bound
  | .instanceOf e _ b _ => e.bound ++ b.toList.map Ident.name
  | .call _ f as _ => f.bound ++ Expr.allBound as
  | .new _ as _ | .newAnonymous _ as _ _ | .newArray _ as _ | .arrayInit as _ => Expr.allBound as
  | .newArrayOf _ ds es _ _ => Expr.allBound ds ++ Expr.allBound es
  | .index a b _ | .binary a _ b _ | .assign a _ b _ => a.bound ++ b.bound
  | .conditional e a b _ => e.bound ++ a.bound ++ b.bound

/-- The names that expressions bind. -/
def Expr.allBound : List Expr → List String
  | [] => []
  | e :: es => e.bound ++ Expr.allBound es

end

/-- The names that an expression binds, if there is one. -/
def Expr.optionBound : Option Expr → List String
  | none => []
  | some e => e.bound

/-- The names of variables, and those bound in their initial values. -/
def VarDeclarator.allBound : List VarDeclarator → List String
  | [] => []
  | ⟨n, _, e, _⟩ :: vs => n.name :: (Expr.optionBound e ++ VarDeclarator.allBound vs)

/-- The names that are in scope behind a statement on its account. -/
def Stmt.bound : Stmt → List String
  | .localVar _ _ vs _ => VarDeclarator.allBound vs
  | .expr e _ | .throwing e _ | .ifThen e _ _ | .ifElse e _ _ _ | .whileLoop e _ _ | .doLoop _ e _
  | .switch e _ _ | .synchronized e _ _ => e.bound
  | .ret e _ => Expr.optionBound e
  | .assertion e m _ => e.bound ++ Expr.optionBound m
  | .labeled _ a _ => a.bound
  | .block _ | .localType _ | .forLoop .. | .forEach .. | .tryCatch .. | .breakTo ..
  | .continueTo .. | .empty _ => []

/-- The names that are in scope behind statements on their account. -/
def Stmt.allBound : List Stmt → List String
  | [] => []
  | s :: ss => s.bound ++ Stmt.allBound ss

/-! ### The listing -/

/-- A call with its place and the names in scope there. -/
abbrev ScopedCall := Place × Call × List String

mutual

/-- The calls of an expression at a place where the names `vs` are in scope. -/
def Expr.scoped (p : Place) (vs : List String) : Expr → List ScopedCall
  | .literal .. | .name _ | .this _ | .super _ | .classLit .. => []
  | .paren e _ => e.scoped p vs
  | .field e _ _ | .unary _ e _ | .update e _ _ | .methodRef e _ _ | .cast _ e _
  | .instanceOf e _ _ _ => e.scoped p.below vs
  | .call id f as s =>
    (p, ⟨id, f, as, s⟩, vs) :: (f.scoped p.below vs ++ Expr.allScoped p.below (vs ++ f.bound) as)
  | .new _ as _ | .newAnonymous _ as _ _ | .newArray _ as _ | .arrayInit as _ =>
    Expr.allScoped p.below vs as
  | .newArrayOf _ ds es _ _ =>
    Expr.allScoped p.below vs ds ++ Expr.allScoped p.below (vs ++ Expr.allBound ds) es
  | .index a b _ | .binary a _ b _ | .assign a _ b _ =>
    a.scoped p.below vs ++ b.scoped p.below (vs ++ a.bound)
  | .conditional e a b _ =>
    e.scoped p.below vs ++ a.scoped p.below (vs ++ e.bound) ++
      b.scoped p.below (vs ++ (e.bound ++ a.bound))
  | .lambda ps e _ => e.scoped p.below (vs ++ ps.map (·.name.name))
  | .blockLambda ps b _ => b.scoped p.below (vs ++ ps.map (·.name.name))

/-- The calls of expressions, each in the scope of those before it. -/
def Expr.allScoped (p : Place) (vs : List String) : List Expr → List ScopedCall
  | [] => []
  | e :: es => e.scoped p vs ++ Expr.allScoped p (vs ++ e.bound) es

/-- The calls of an expression, if there is one. -/
def Expr.optionScoped (p : Place) (vs : List String) : Option Expr → List ScopedCall
  | none => []
  | some e => e.scoped p vs

/-- The calls of a block. -/
def Block.scoped (p : Place) (vs : List String) : Block → List ScopedCall
  | ⟨ss, _⟩ => Stmt.allScoped p vs ss

/-- The calls of a block, if there is one. -/
def Block.optionScoped (p : Place) (vs : List String) : Option Block → List ScopedCall
  | none => []
  | some b => b.scoped p vs

/-- The calls of a statement. -/
def Stmt.scoped (p : Place) (vs : List String) : Stmt → List ScopedCall
  | .block b => b.scoped p vs
  | .localVar _ _ vars _ => VarDeclarator.allScoped p.filled vs vars
  | .localType _ | .breakTo .. | .continueTo .. | .empty _ => []
  | .expr e _ | .throwing e _ => e.scoped p.filled vs
  | .ifThen e a _ | .whileLoop e a _ => e.scoped p.filled vs ++ a.scoped p (vs ++ e.bound)
  | .ifElse e a b _ =>
    e.scoped p.filled vs ++ a.scoped p (vs ++ e.bound) ++ b.scoped p (vs ++ e.bound)
  | .doLoop a e _ => a.scoped p vs ++ e.scoped p.filled vs
  | .forLoop i e us a _ =>
    let vsInit := vs ++ Stmt.allBound i
    let vsBody := vsInit ++ Expr.optionBound e
    Stmt.allScoped p vs i ++ Expr.optionScoped p.filled vsInit e ++
      Expr.allScoped p.filled vsBody us ++ a.scoped p vsBody
  | .forEach _ _ n e a _ => e.scoped p.filled vs ++ a.scoped p (vs ++ (e.bound ++ [n.name]))
  | .ret e _ => Expr.optionScoped p.filled vs e
  | .tryCatch rs b cs f _ =>
    Stmt.allScoped p vs rs ++ b.scoped p (vs ++ Stmt.allBound rs) ++
      CatchClause.allScoped p vs cs ++ Block.optionScoped p vs f
  | .switch e cs _ => e.scoped p.filled vs ++ SwitchCase.allScoped p (vs ++ e.bound) cs
  | .synchronized e b _ => e.scoped p.filled vs ++ b.scoped p (vs ++ e.bound)
  | .labeled _ a _ => a.scoped p vs
  | .assertion e m _ => e.scoped p.filled vs ++ Expr.optionScoped p.filled (vs ++ e.bound) m

/-- The calls of statements, each in the scope of those before it. -/
def Stmt.allScoped (p : Place) (vs : List String) : List Stmt → List ScopedCall
  | [] => []
  | s :: ss => s.scoped p vs ++ Stmt.allScoped p (vs ++ s.bound) ss

/-- The calls of the initial values of variables, each in its own scope and in that of those
before it. -/
def VarDeclarator.allScoped (p : Place) (vs : List String) : List VarDeclarator → List ScopedCall
  | [] => []
  | ⟨n, _, e, _⟩ :: vars =>
    Expr.optionScoped p (vs ++ [n.name]) e ++
      VarDeclarator.allScoped p (vs ++ n.name :: Expr.optionBound e) vars

/-- The calls of handlers, each in the scope of its own variable. -/
def CatchClause.allScoped (p : Place) (vs : List String) : List CatchClause → List ScopedCall
  | [] => []
  | ⟨_, _, n, b, _⟩ :: cs => b.scoped p (vs ++ [n.name]) ++ CatchClause.allScoped p vs cs

/-- The calls of the groups of a `switch`, which share one scope. -/
def SwitchCase.allScoped (p : Place) (vs : List String) : List SwitchCase → List ScopedCall
  | [] => []
  | ⟨ls, ss, _⟩ :: cs =>
    let vsBody := vs ++ Expr.allBound ls
    Expr.allScoped p.below vs ls ++ Stmt.allScoped p vsBody ss ++
      SwitchCase.allScoped p (vsBody ++ Stmt.allBound ss) cs

end

/-- **The calls of a member's own code**, each with the names in scope there. -/
def Member.scoped : Member → List ScopedCall
  | .field _ _ vars _ => vars.flatMap fun v => Expr.optionScoped .slot [] v.init
  | .method _ _ _ _ ps _ _ b _ => Block.optionScoped .inside (ps.map (·.name.name)) b
  | .constructor _ _ _ ps _ b _ => b.scoped .inside (ps.map (·.name.name))
  | .initializer _ b _ => b.scoped .inside []
  | .type _ => []

/-! ### It lists the calls of the own code -/

/-- A call with its place, without the names in scope. -/
def ScopedCall.placed (x : ScopedCall) : Place × Call := (x.1, x.2.1)

mutual

theorem Expr.map_scoped {p : Place} (hp : p.IsOwn) (vs : List String) : ∀ e : Expr,
    (e.scoped p vs).map ScopedCall.placed = Place.own (e.calls p)
  | .literal .. | .name _ | .this _ | .super _ | .classLit .. => rfl
  | .paren e _ => e.map_scoped hp vs
  | .field e _ _ | .unary _ e _ | .update e _ _ | .methodRef e _ _ | .cast _ e _
  | .instanceOf e _ _ _ => e.map_scoped hp.below vs
  | .call id f as s => by
    rw [Expr.scoped, Expr.calls, Place.own_cons hp, Place.own_append, List.map_cons,
      List.map_append, f.map_scoped hp.below, Expr.allMap_scoped hp.below _ as]
    rfl
  | .new _ as _ | .newArray _ as _ | .arrayInit as _ => Expr.allMap_scoped hp.below vs as
  | .newAnonymous _ as ms _ => by
    rw [Expr.scoped, Expr.calls, Place.own_append, Expr.allMap_scoped hp.below _ as,
      Member.own_foreign, List.append_nil]
  | .newArrayOf _ ds es _ _ => by
    rw [Expr.scoped, Expr.calls, Place.own_append, List.map_append,
      Expr.allMap_scoped hp.below _ ds, Expr.allMap_scoped hp.below _ es]
  | .index a b _ | .binary a _ b _ | .assign a _ b _ => by
    rw [Expr.scoped, Expr.calls, Place.own_append, List.map_append, a.map_scoped hp.below,
      b.map_scoped hp.below]
  | .conditional e a b _ => by
    simp only [Expr.scoped, Expr.calls, Place.own_append, List.map_append, e.map_scoped hp.below,
      a.map_scoped hp.below, b.map_scoped hp.below]
  | .lambda _ e _ => e.map_scoped hp.below _
  | .blockLambda _ b _ => b.map_scoped hp.below _

theorem Expr.allMap_scoped {p : Place} (hp : p.IsOwn) (vs : List String) : ∀ es : List Expr,
    (Expr.allScoped p vs es).map ScopedCall.placed = Place.own (Expr.allCalls p es)
  | [] => rfl
  | e :: es => by
    rw [Expr.allScoped, Expr.allCalls, Place.own_append, List.map_append, e.map_scoped hp,
      Expr.allMap_scoped hp _ es]

theorem Expr.optionMap_scoped {p : Place} (hp : p.IsOwn) (vs : List String) : ∀ e : Option Expr,
    (Expr.optionScoped p vs e).map ScopedCall.placed = Place.own (Expr.optionCalls p e)
  | none => rfl
  | some e => e.map_scoped hp vs

theorem Block.map_scoped {p : Place} (hp : p.IsOwn) (vs : List String) : ∀ b : Block,
    (b.scoped p vs).map ScopedCall.placed = Place.own (b.calls p)
  | ⟨ss, _⟩ => Stmt.allMap_scoped hp vs ss

theorem Block.optionMap_scoped {p : Place} (hp : p.IsOwn) (vs : List String) : ∀ b : Option Block,
    (Block.optionScoped p vs b).map ScopedCall.placed = Place.own (Block.optionCalls p b)
  | none => rfl
  | some b => b.map_scoped hp vs

theorem Stmt.map_scoped {p : Place} (hp : p.IsOwn) (vs : List String) : ∀ s : Stmt,
    (s.scoped p vs).map ScopedCall.placed = Place.own (s.calls p)
  | .block b => b.map_scoped hp vs
  | .localVar _ _ vars _ => by
    rw [Stmt.scoped, Stmt.calls, Place.own_append, Modifiers.own_foreign, List.nil_append,
      VarDeclarator.allMap_scoped hp.filled vs vars]
  | .localType d => d.own_foreign.symm
  | .breakTo .. | .continueTo .. | .empty _ => rfl
  | .expr e _ | .throwing e _ => e.map_scoped hp.filled vs
  | .ret e _ => Expr.optionMap_scoped hp.filled vs e
  | .ifThen e a _ | .whileLoop e a _ | .doLoop a e _ => by
    rw [Stmt.scoped, Stmt.calls, Place.own_append, List.map_append, e.map_scoped hp.filled,
      a.map_scoped hp]
  | .ifElse e a b _ => by
    simp only [Stmt.scoped, Stmt.calls, Place.own_append, List.map_append, e.map_scoped hp.filled,
      a.map_scoped hp, b.map_scoped hp]
  | .forLoop i e us a _ => by
    simp only [Stmt.scoped, Stmt.calls, Place.own_append, List.map_append,
      Stmt.allMap_scoped hp _ i, Expr.optionMap_scoped hp.filled _ e,
      Expr.allMap_scoped hp.filled _ us, a.map_scoped hp]
  | .forEach m _ _ e a _ => by
    simp only [Stmt.scoped, Stmt.calls, Place.own_append, List.map_append, Modifiers.own_foreign,
      List.nil_append, e.map_scoped hp.filled, a.map_scoped hp]
  | .tryCatch rs b cs f _ => by
    simp only [Stmt.scoped, Stmt.calls, Place.own_append, List.map_append,
      Stmt.allMap_scoped hp _ rs, b.map_scoped hp, CatchClause.allMap_scoped hp _ cs,
      Block.optionMap_scoped hp _ f]
  | .switch e cs _ => by
    rw [Stmt.scoped, Stmt.calls, Place.own_append, List.map_append, e.map_scoped hp.filled,
      SwitchCase.allMap_scoped hp _ cs]
  | .synchronized e b _ => by
    rw [Stmt.scoped, Stmt.calls, Place.own_append, List.map_append, e.map_scoped hp.filled,
      b.map_scoped hp]
  | .labeled _ a _ => a.map_scoped hp vs
  | .assertion e m _ => by
    rw [Stmt.scoped, Stmt.calls, Place.own_append, List.map_append, e.map_scoped hp.filled,
      Expr.optionMap_scoped hp.filled _ m]

theorem Stmt.allMap_scoped {p : Place} (hp : p.IsOwn) (vs : List String) : ∀ ss : List Stmt,
    (Stmt.allScoped p vs ss).map ScopedCall.placed = Place.own (Stmt.allCalls p ss)
  | [] => rfl
  | s :: ss => by
    rw [Stmt.allScoped, Stmt.allCalls, Place.own_append, List.map_append, s.map_scoped hp,
      Stmt.allMap_scoped hp _ ss]

theorem VarDeclarator.allMap_scoped {p : Place} (hp : p.IsOwn) (vs : List String) :
    ∀ vars : List VarDeclarator, (VarDeclarator.allScoped p vs vars).map ScopedCall.placed =
      Place.own (VarDeclarator.allCalls p vars)
  | [] => rfl
  | ⟨_, _, e, _⟩ :: vars => by
    rw [VarDeclarator.allScoped, VarDeclarator.allCalls, Place.own_append, List.map_append,
      Expr.optionMap_scoped hp _ e, VarDeclarator.allMap_scoped hp _ vars]

theorem CatchClause.allMap_scoped {p : Place} (hp : p.IsOwn) (vs : List String) :
    ∀ cs : List CatchClause, (CatchClause.allScoped p vs cs).map ScopedCall.placed =
      Place.own (CatchClause.allCalls p cs)
  | [] => rfl
  | ⟨m, _, _, b, _⟩ :: cs => by
    simp only [CatchClause.allScoped, CatchClause.allCalls, Place.own_append, List.map_append,
      Modifiers.own_foreign, List.nil_append, b.map_scoped hp, CatchClause.allMap_scoped hp _ cs]

theorem SwitchCase.allMap_scoped {p : Place} (hp : p.IsOwn) (vs : List String) :
    ∀ cs : List SwitchCase, (SwitchCase.allScoped p vs cs).map ScopedCall.placed =
      Place.own (SwitchCase.allCalls p cs)
  | [] => rfl
  | ⟨ls, ss, _⟩ :: cs => by
    simp only [SwitchCase.allScoped, SwitchCase.allCalls, Place.own_append, List.map_append,
      Expr.allMap_scoped hp.below _ ls, Stmt.allMap_scoped hp _ ss,
      SwitchCase.allMap_scoped hp _ cs]

end

/-- **The calls listed are those of the own code**, at the same places. -/
theorem Member.map_scoped (m : Member) :
    m.scoped.map ScopedCall.placed = Place.own (m.calls .inside) := by
  have hinside : Place.inside.IsOwn := by simp [Place.IsOwn]
  cases m with
  | field m t vars s =>
    rw [Member.scoped, Member.calls, Place.own_append, Modifiers.own_foreign, List.nil_append]
    induction vars with
    | nil => rfl
    | cons v vars ih =>
      obtain ⟨n, dims, e, vs⟩ := v
      have he := Expr.optionMap_scoped hinside.filled [] e
      rw [List.flatMap_cons, List.map_append, ih, VarDeclarator.allCalls, Place.own_append, ← he]
      rfl
  | method m tps t n ps ts d b s =>
    simp only [Member.scoped, Member.calls, Place.own_append, Modifiers.own_foreign,
      Param.own_calls, Element.own_foreign, List.nil_append, Block.optionMap_scoped hinside _ b]
  | constructor m tps n ps ts b s =>
    simp only [Member.scoped, Member.calls, Place.own_append, Modifiers.own_foreign,
      Param.own_calls, List.nil_append, b.map_scoped hinside]
  | initializer st b s => exact b.map_scoped hinside []
  | type d => exact d.own_foreign.symm

/-- What has been listed as a call of the own code has been listed with the names in scope. -/
theorem exists_of_map_placed {xs : List ScopedCall} {ys : List (Place × Call)}
    (h : xs.map ScopedCall.placed = Place.own ys) {call : Call} (hcall : call ∈ Place.slots ys) :
    ∃ names, (.slot, call, names) ∈ xs := by
  have hplaced : (.slot, call) ∈ xs.map ScopedCall.placed := by
    rw [h]
    exact List.mem_filter.mpr ⟨Place.mem_slots.mp hcall, rfl⟩
  obtain ⟨⟨p, c, names⟩, hx, heq⟩ := List.mem_map.mp hplaced
  obtain ⟨rfl, rfl⟩ := Prod.mk.inj heq
  exact ⟨names, hx⟩

/-! ### What is in scope has been declared -/

mutual

/-- The names of the variables that an expression declares, anywhere in the own code. -/
def Expr.declared : Expr → List String
  | .literal .. | .name _ | .this _ | .super _ | .classLit .. => []
  | .paren e _ | .field e _ _ | .unary _ e _ | .update e _ _ | .methodRef e _ _ | .cast _ e _ =>
    e.declared
  | .instanceOf e _ b _ => e.declared ++ b.toList.map Ident.name
  | .call _ f as _ => f.declared ++ Expr.allDeclared as
  | .new _ as _ | .newAnonymous _ as _ _ | .newArray _ as _ | .arrayInit as _ => Expr.allDeclared as
  | .newArrayOf _ ds es _ _ => Expr.allDeclared ds ++ Expr.allDeclared es
  | .index a b _ | .binary a _ b _ | .assign a _ b _ => a.declared ++ b.declared
  | .conditional e a b _ => e.declared ++ a.declared ++ b.declared
  | .lambda ps e _ => ps.map (·.name.name) ++ e.declared
  | .blockLambda ps b _ => ps.map (·.name.name) ++ b.declared

/-- The names that expressions declare. -/
def Expr.allDeclared : List Expr → List String
  | [] => []
  | e :: es => e.declared ++ Expr.allDeclared es

/-- The names that an expression declares, if there is one. -/
def Expr.optionDeclared : Option Expr → List String
  | none => []
  | some e => e.declared

/-- The names that a block declares. -/
def Block.declared : Block → List String
  | ⟨ss, _⟩ => Stmt.allDeclared ss

/-- The names that a block declares, if there is one. -/
def Block.optionDeclared : Option Block → List String
  | none => []
  | some b => b.declared

/-- The names that a statement declares. -/
def Stmt.declared : Stmt → List String
  | .block b => b.declared
  | .localVar _ _ vs _ => VarDeclarator.allDeclared vs
  | .localType _ | .breakTo .. | .continueTo .. | .empty _ => []
  | .expr e _ | .throwing e _ => e.declared
  | .ifThen e a _ | .whileLoop e a _ | .doLoop a e _ => e.declared ++ a.declared
  | .ifElse e a b _ => e.declared ++ a.declared ++ b.declared
  | .forLoop i e us a _ =>
    Stmt.allDeclared i ++ Expr.optionDeclared e ++ Expr.allDeclared us ++ a.declared
  | .forEach _ _ n e a _ => n.name :: (e.declared ++ a.declared)
  | .ret e _ => Expr.optionDeclared e
  | .tryCatch rs b cs f _ =>
    Stmt.allDeclared rs ++ b.declared ++ CatchClause.allDeclared cs ++ Block.optionDeclared f
  | .switch e cs _ => e.declared ++ SwitchCase.allDeclared cs
  | .synchronized e b _ => e.declared ++ b.declared
  | .labeled _ a _ => a.declared
  | .assertion e m _ => e.declared ++ Expr.optionDeclared m

/-- The names that statements declare. -/
def Stmt.allDeclared : List Stmt → List String
  | [] => []
  | s :: ss => s.declared ++ Stmt.allDeclared ss

/-- The names of variables, and those declared in their initial values. -/
def VarDeclarator.allDeclared : List VarDeclarator → List String
  | [] => []
  | ⟨n, _, e, _⟩ :: vs => n.name :: (Expr.optionDeclared e ++ VarDeclarator.allDeclared vs)

/-- The names that handlers declare. -/
def CatchClause.allDeclared : List CatchClause → List String
  | [] => []
  | ⟨_, _, n, b, _⟩ :: cs => n.name :: (b.declared ++ CatchClause.allDeclared cs)

/-- The names that the groups of a `switch` declare. -/
def SwitchCase.allDeclared : List SwitchCase → List String
  | [] => []
  | ⟨ls, ss, _⟩ :: cs =>
    Expr.allDeclared ls ++ Stmt.allDeclared ss ++ SwitchCase.allDeclared cs

end

/-- **The names of the local variables that a member declares**: parameters, and whatever is
declared in its own code. -/
def Member.declared : Member → List String
  | .field _ _ vars _ => vars.flatMap fun v => Expr.optionDeclared v.init
  | .method _ _ _ _ ps _ _ b _ => ps.map (·.name.name) ++ Block.optionDeclared b
  | .constructor _ _ _ ps _ b _ => ps.map (·.name.name) ++ b.declared
  | .initializer _ b _ => b.declared
  | .type _ => []

/-! A bound is passed down: `ns` has all that is in scope and all that is declared below. -/

section Bounds

variable {ns : List String}

mutual

theorem Expr.bound_subset : ∀ e : Expr, e.declared ⊆ ns → e.bound ⊆ ns
  | .literal .. | .name _ | .this _ | .super _ | .classLit .. | .lambda .. | .blockLambda .. =>
    fun _ => List.nil_subset _
  | .paren e _ | .field e _ _ | .unary _ e _ | .update e _ _ | .methodRef e _ _ | .cast _ e _ =>
    e.bound_subset
  | .instanceOf e _ _ _ => fun h => by
    rw [Expr.declared, List.append_subset] at h
    exact List.append_subset.mpr ⟨e.bound_subset h.1, h.2⟩
  | .call _ f as _ => fun h => by
    rw [Expr.declared, List.append_subset] at h
    exact List.append_subset.mpr ⟨f.bound_subset h.1, Expr.allBound_subset as h.2⟩
  | .new _ as _ | .newAnonymous _ as _ _ | .newArray _ as _ | .arrayInit as _ =>
    Expr.allBound_subset as
  | .newArrayOf _ ds es _ _ => fun h => by
    rw [Expr.declared, List.append_subset] at h
    exact List.append_subset.mpr ⟨Expr.allBound_subset ds h.1, Expr.allBound_subset es h.2⟩
  | .index a b _ | .binary a _ b _ | .assign a _ b _ => fun h => by
    rw [Expr.declared, List.append_subset] at h
    exact List.append_subset.mpr ⟨a.bound_subset h.1, b.bound_subset h.2⟩
  | .conditional e a b _ => fun h => by
    simp only [Expr.declared, List.append_subset] at h
    simp only [Expr.bound, List.append_subset]
    exact ⟨⟨e.bound_subset h.1.1, a.bound_subset h.1.2⟩, b.bound_subset h.2⟩

theorem Expr.allBound_subset : ∀ es : List Expr, Expr.allDeclared es ⊆ ns → Expr.allBound es ⊆ ns
  | [] => fun _ => List.nil_subset _
  | e :: es => fun h => by
    rw [Expr.allDeclared, List.append_subset] at h
    exact List.append_subset.mpr ⟨e.bound_subset h.1, Expr.allBound_subset es h.2⟩

end

theorem Expr.optionBound_subset :
    ∀ e : Option Expr, Expr.optionDeclared e ⊆ ns → Expr.optionBound e ⊆ ns
  | none => fun _ => List.nil_subset _
  | some e => e.bound_subset

theorem VarDeclarator.allBound_subset : ∀ vs : List VarDeclarator,
    VarDeclarator.allDeclared vs ⊆ ns → VarDeclarator.allBound vs ⊆ ns
  | [] => fun _ => List.nil_subset _
  | ⟨n, _, e, _⟩ :: vs => fun h => by
    rw [VarDeclarator.allDeclared, List.cons_subset, List.append_subset] at h
    rw [VarDeclarator.allBound, List.cons_subset, List.append_subset]
    exact ⟨h.1, Expr.optionBound_subset e h.2.1, VarDeclarator.allBound_subset vs h.2.2⟩

theorem Stmt.bound_subset : ∀ s : Stmt, s.declared ⊆ ns → s.bound ⊆ ns
  | .localVar _ _ vs _ => VarDeclarator.allBound_subset vs
  | .expr e _ | .throwing e _ => e.bound_subset
  | .ifThen e _ _ | .whileLoop e _ _ | .doLoop _ e _ | .switch e _ _ | .synchronized e _ _ =>
    fun h => e.bound_subset (List.append_subset.mp h).1
  | .ifElse e _ _ _ => fun h =>
    e.bound_subset (List.append_subset.mp (List.append_subset.mp h).1).1
  | .ret e _ => Expr.optionBound_subset e
  | .assertion e m _ => fun h => by
    rw [Stmt.declared, List.append_subset] at h
    exact List.append_subset.mpr ⟨e.bound_subset h.1, Expr.optionBound_subset m h.2⟩
  | .labeled _ a _ => a.bound_subset
  | .block _ | .localType _ | .forLoop .. | .forEach .. | .tryCatch .. | .breakTo ..
  | .continueTo .. | .empty _ => fun _ => List.nil_subset _

theorem Stmt.allBound_subset :
    ∀ ss : List Stmt, Stmt.allDeclared ss ⊆ ns → Stmt.allBound ss ⊆ ns
  | [] => fun _ => List.nil_subset _
  | s :: ss => fun h => by
    rw [Stmt.allDeclared, List.append_subset] at h
    exact List.append_subset.mpr ⟨s.bound_subset h.1, Stmt.allBound_subset ss h.2⟩

/-- All names that are in scope at the calls are among `ns`. -/
def StaysIn (ns : List String) (xs : List ScopedCall) : Prop := ∀ x ∈ xs, x.2.2 ⊆ ns

@[simp] theorem staysIn_nil : StaysIn ns [] := fun _ h => absurd h List.not_mem_nil

@[simp] theorem staysIn_append {xs ys : List ScopedCall} :
    StaysIn ns (xs ++ ys) ↔ StaysIn ns xs ∧ StaysIn ns ys := List.forall_mem_append

mutual

theorem Expr.staysIn {p : Place} {vs : List String} (hvs : vs ⊆ ns) :
    ∀ e : Expr, e.declared ⊆ ns → StaysIn ns (e.scoped p vs)
  | .literal .. | .name _ | .this _ | .super _ | .classLit .. => fun _ => staysIn_nil
  | .paren e _ | .field e _ _ | .unary _ e _ | .update e _ _ | .methodRef e _ _ | .cast _ e _ =>
    e.staysIn hvs
  | .instanceOf e _ _ _ => fun h => e.staysIn hvs (List.append_subset.mp h).1
  | .call _ f as _ => fun h => by
    rw [Expr.declared, List.append_subset] at h
    have hbound := List.append_subset.mpr ⟨hvs, f.bound_subset h.1⟩
    exact List.forall_mem_cons.mpr ⟨hvs, staysIn_append.mpr
      ⟨f.staysIn hvs h.1, Expr.allStaysIn hbound as h.2⟩⟩
  | .new _ as _ | .newAnonymous _ as _ _ | .newArray _ as _ | .arrayInit as _ =>
    Expr.allStaysIn hvs as
  | .newArrayOf _ ds es _ _ => fun h => by
    rw [Expr.declared, List.append_subset] at h
    have hbound := List.append_subset.mpr ⟨hvs, Expr.allBound_subset ds h.1⟩
    exact staysIn_append.mpr ⟨Expr.allStaysIn hvs ds h.1, Expr.allStaysIn hbound es h.2⟩
  | .index a b _ | .binary a _ b _ | .assign a _ b _ => fun h => by
    rw [Expr.declared, List.append_subset] at h
    have hbound := List.append_subset.mpr ⟨hvs, a.bound_subset h.1⟩
    exact staysIn_append.mpr ⟨a.staysIn hvs h.1, b.staysIn hbound h.2⟩
  | .conditional e a b _ => fun h => by
    simp only [Expr.declared, List.append_subset] at h
    have he := e.bound_subset h.1.1
    have ha := a.bound_subset h.1.2
    simp only [Expr.scoped, staysIn_append]
    exact ⟨⟨e.staysIn hvs h.1.1, a.staysIn (List.append_subset.mpr ⟨hvs, he⟩) h.1.2⟩,
      b.staysIn (List.append_subset.mpr ⟨hvs, List.append_subset.mpr ⟨he, ha⟩⟩) h.2⟩
  | .lambda _ e _ => fun h => by
    rw [Expr.declared, List.append_subset] at h
    exact e.staysIn (List.append_subset.mpr ⟨hvs, h.1⟩) h.2
  | .blockLambda _ b _ => fun h => by
    rw [Expr.declared, List.append_subset] at h
    exact b.staysIn (List.append_subset.mpr ⟨hvs, h.1⟩) h.2

theorem Expr.allStaysIn {p : Place} {vs : List String} (hvs : vs ⊆ ns) :
    ∀ es : List Expr, Expr.allDeclared es ⊆ ns → StaysIn ns (Expr.allScoped p vs es)
  | [] => fun _ => staysIn_nil
  | e :: es => fun h => by
    rw [Expr.allDeclared, List.append_subset] at h
    have hbound := List.append_subset.mpr ⟨hvs, e.bound_subset h.1⟩
    exact staysIn_append.mpr ⟨e.staysIn hvs h.1, Expr.allStaysIn hbound es h.2⟩

theorem Expr.optionStaysIn {p : Place} {vs : List String} (hvs : vs ⊆ ns) :
    ∀ e : Option Expr, Expr.optionDeclared e ⊆ ns → StaysIn ns (Expr.optionScoped p vs e)
  | none => fun _ => staysIn_nil
  | some e => e.staysIn hvs

theorem Block.staysIn {p : Place} {vs : List String} (hvs : vs ⊆ ns) :
    ∀ b : Block, b.declared ⊆ ns → StaysIn ns (b.scoped p vs)
  | ⟨ss, _⟩ => Stmt.allStaysIn hvs ss

theorem Block.optionStaysIn {p : Place} {vs : List String} (hvs : vs ⊆ ns) :
    ∀ b : Option Block, Block.optionDeclared b ⊆ ns → StaysIn ns (Block.optionScoped p vs b)
  | none => fun _ => staysIn_nil
  | some b => b.staysIn hvs

theorem Stmt.staysIn {p : Place} {vs : List String} (hvs : vs ⊆ ns) :
    ∀ s : Stmt, s.declared ⊆ ns → StaysIn ns (s.scoped p vs)
  | .block b => b.staysIn hvs
  | .localVar _ _ vars _ => VarDeclarator.allStaysIn hvs vars
  | .localType _ | .breakTo .. | .continueTo .. | .empty _ => fun _ => staysIn_nil
  | .expr e _ | .throwing e _ => e.staysIn hvs
  | .ifThen e a _ | .whileLoop e a _ => fun h => by
    rw [Stmt.declared, List.append_subset] at h
    have hbound := List.append_subset.mpr ⟨hvs, e.bound_subset h.1⟩
    exact staysIn_append.mpr ⟨e.staysIn hvs h.1, a.staysIn hbound h.2⟩
  | .ifElse e a b _ => fun h => by
    simp only [Stmt.declared, List.append_subset] at h
    have hbound := List.append_subset.mpr ⟨hvs, e.bound_subset h.1.1⟩
    simp only [Stmt.scoped, staysIn_append]
    exact ⟨⟨e.staysIn hvs h.1.1, a.staysIn hbound h.1.2⟩, b.staysIn hbound h.2⟩
  | .doLoop a e _ => fun h => by
    rw [Stmt.declared, List.append_subset] at h
    exact staysIn_append.mpr ⟨a.staysIn hvs h.2, e.staysIn hvs h.1⟩
  | .forLoop i e us a _ => fun h => by
    simp only [Stmt.declared, List.append_subset] at h
    obtain ⟨⟨⟨hi, he⟩, hus⟩, ha⟩ := h
    have hinit := List.append_subset.mpr ⟨hvs, Stmt.allBound_subset i hi⟩
    have hbody := List.append_subset.mpr ⟨hinit, Expr.optionBound_subset e he⟩
    simp only [Stmt.scoped, staysIn_append]
    exact ⟨⟨⟨Stmt.allStaysIn hvs i hi, Expr.optionStaysIn hinit e he⟩,
      Expr.allStaysIn hbody us hus⟩, a.staysIn hbody ha⟩
  | .forEach _ _ n e a _ => fun h => by
    rw [Stmt.declared, List.cons_subset, List.append_subset] at h
    obtain ⟨hn, he, ha⟩ := h
    have hself := List.cons_subset.mpr ⟨hn, List.nil_subset ns⟩
    have hvar := List.append_subset.mpr ⟨e.bound_subset he, hself⟩
    exact staysIn_append.mpr
      ⟨e.staysIn hvs he, a.staysIn (List.append_subset.mpr ⟨hvs, hvar⟩) ha⟩
  | .ret e _ => Expr.optionStaysIn hvs e
  | .tryCatch rs b cs f _ => fun h => by
    simp only [Stmt.declared, List.append_subset] at h
    obtain ⟨⟨⟨hrs, hb⟩, hcs⟩, hf⟩ := h
    have hbound := List.append_subset.mpr ⟨hvs, Stmt.allBound_subset rs hrs⟩
    simp only [Stmt.scoped, staysIn_append]
    exact ⟨⟨⟨Stmt.allStaysIn hvs rs hrs, b.staysIn hbound hb⟩, CatchClause.allStaysIn hvs cs hcs⟩,
      Block.optionStaysIn hvs f hf⟩
  | .switch e cs _ => fun h => by
    rw [Stmt.declared, List.append_subset] at h
    have hbound := List.append_subset.mpr ⟨hvs, e.bound_subset h.1⟩
    exact staysIn_append.mpr ⟨e.staysIn hvs h.1, SwitchCase.allStaysIn hbound cs h.2⟩
  | .synchronized e b _ => fun h => by
    rw [Stmt.declared, List.append_subset] at h
    have hbound := List.append_subset.mpr ⟨hvs, e.bound_subset h.1⟩
    exact staysIn_append.mpr ⟨e.staysIn hvs h.1, b.staysIn hbound h.2⟩
  | .labeled _ a _ => a.staysIn hvs
  | .assertion e m _ => fun h => by
    rw [Stmt.declared, List.append_subset] at h
    have hbound := List.append_subset.mpr ⟨hvs, e.bound_subset h.1⟩
    exact staysIn_append.mpr ⟨e.staysIn hvs h.1, Expr.optionStaysIn hbound m h.2⟩

theorem Stmt.allStaysIn {p : Place} {vs : List String} (hvs : vs ⊆ ns) :
    ∀ ss : List Stmt, Stmt.allDeclared ss ⊆ ns → StaysIn ns (Stmt.allScoped p vs ss)
  | [] => fun _ => staysIn_nil
  | s :: ss => fun h => by
    rw [Stmt.allDeclared, List.append_subset] at h
    have hbound := List.append_subset.mpr ⟨hvs, s.bound_subset h.1⟩
    exact staysIn_append.mpr ⟨s.staysIn hvs h.1, Stmt.allStaysIn hbound ss h.2⟩

theorem VarDeclarator.allStaysIn {p : Place} {vs : List String} (hvs : vs ⊆ ns) :
    ∀ vars : List VarDeclarator, VarDeclarator.allDeclared vars ⊆ ns →
      StaysIn ns (VarDeclarator.allScoped p vs vars)
  | [] => fun _ => staysIn_nil
  | ⟨n, _, e, _⟩ :: vars => fun h => by
    rw [VarDeclarator.allDeclared, List.cons_subset, List.append_subset] at h
    obtain ⟨hn, he, hvars⟩ := h
    have hself := List.append_subset.mpr ⟨hvs, List.cons_subset.mpr ⟨hn, List.nil_subset _⟩⟩
    have hlater := List.append_subset.mpr
      ⟨hvs, List.cons_subset.mpr ⟨hn, Expr.optionBound_subset e he⟩⟩
    exact staysIn_append.mpr
      ⟨Expr.optionStaysIn hself e he, VarDeclarator.allStaysIn hlater vars hvars⟩

theorem CatchClause.allStaysIn {p : Place} {vs : List String} (hvs : vs ⊆ ns) :
    ∀ cs : List CatchClause, CatchClause.allDeclared cs ⊆ ns →
      StaysIn ns (CatchClause.allScoped p vs cs)
  | [] => fun _ => staysIn_nil
  | ⟨_, _, n, b, _⟩ :: cs => fun h => by
    rw [CatchClause.allDeclared, List.cons_subset, List.append_subset] at h
    obtain ⟨hn, hb, hcs⟩ := h
    have hself := List.append_subset.mpr ⟨hvs, List.cons_subset.mpr ⟨hn, List.nil_subset _⟩⟩
    exact staysIn_append.mpr ⟨b.staysIn hself hb, CatchClause.allStaysIn hvs cs hcs⟩

theorem SwitchCase.allStaysIn {p : Place} {vs : List String} (hvs : vs ⊆ ns) :
    ∀ cs : List SwitchCase, SwitchCase.allDeclared cs ⊆ ns →
      StaysIn ns (SwitchCase.allScoped p vs cs)
  | [] => fun _ => staysIn_nil
  | ⟨ls, ss, _⟩ :: cs => fun h => by
    simp only [SwitchCase.allDeclared, List.append_subset] at h
    obtain ⟨⟨hls, hss⟩, hcs⟩ := h
    have hbody := List.append_subset.mpr ⟨hvs, Expr.allBound_subset ls hls⟩
    have hlater := List.append_subset.mpr ⟨hbody, Stmt.allBound_subset ss hss⟩
    simp only [SwitchCase.allScoped, staysIn_append]
    exact ⟨⟨Expr.allStaysIn hvs ls hls, Stmt.allStaysIn hbody ss hss⟩,
      SwitchCase.allStaysIn hlater cs hcs⟩

end

end Bounds

/-- **What is in scope at a call of a member is declared in the member.** -/
theorem Member.scoped_subset (m : Member) {x : ScopedCall} (hx : x ∈ m.scoped) :
    x.2.2 ⊆ m.declared := by
  suffices h : StaysIn m.declared m.scoped from h x hx
  cases m with
  | field m t vars s =>
    intro x hx
    obtain ⟨v, hv, hx⟩ := List.mem_flatMap.mp hx
    exact Expr.optionStaysIn (List.nil_subset _) v.init
      (fun n hn => List.mem_flatMap.mpr ⟨v, hv, hn⟩) x hx
  | method m tps t n ps ts d b s =>
    exact Block.optionStaysIn (List.subset_append_left _ _) b (List.subset_append_right _ _)
  | constructor m tps n ps ts b s =>
    exact b.staysIn (List.subset_append_left _ _) (List.subset_append_right _ _)
  | initializer st b s => exact b.staysIn (List.nil_subset _) (List.Subset.refl _)
  | type d => exact staysIn_nil

/-! ### Annotations and constants -/

mutual

/-- The expressions in the value of an element. -/
def Element.exprs : Element → List Expr
  | .expr e => [e]
  | .array vs _ => Element.allExprs vs
  | .annot ⟨_, as, _⟩ => AnnotArg.exprs as

/-- The expressions in several values. -/
def Element.allExprs : List Element → List Expr
  | [] => []
  | v :: vs => v.exprs ++ Element.allExprs vs

/-- The expressions in the arguments of an annotation. -/
def AnnotArg.exprs : List AnnotArg → List Expr
  | [] => []
  | ⟨_, v, _⟩ :: as => v.exprs ++ AnnotArg.exprs as

end

mutual

theorem Element.sites_eq_flatMap : ∀ v : Element, v.sites = v.exprs.flatMap Expr.sites
  | .expr e => by rw [Element.sites, Element.exprs, List.flatMap_singleton]
  | .array vs _ => Element.allSites_eq_flatMap vs
  | .annot ⟨_, as, _⟩ => AnnotArg.sites_eq_flatMap as

theorem Element.allSites_eq_flatMap :
    ∀ vs : List Element, Element.allSites vs = (Element.allExprs vs).flatMap Expr.sites
  | [] => rfl
  | v :: vs => by
    rw [Element.allSites, Element.allExprs, List.flatMap_append, v.sites_eq_flatMap,
      Element.allSites_eq_flatMap vs]

theorem AnnotArg.sites_eq_flatMap :
    ∀ as : List AnnotArg, AnnotArg.sites as = (AnnotArg.exprs as).flatMap Expr.sites
  | [] => rfl
  | ⟨_, v, _⟩ :: as => by
    rw [AnnotArg.sites, AnnotArg.exprs, List.flatMap_append, v.sites_eq_flatMap,
      AnnotArg.sites_eq_flatMap as]

end

theorem Expr.allSites_eq_flatMap (es : List Expr) : Expr.allSites es = es.flatMap Expr.sites := by
  induction es with
  | nil => rfl
  | cons e es ih => rw [Expr.allSites, List.flatMap_cons, ih]

/-- A candidate inside an expression is listed with the names in scope there. -/
theorem Expr.exists_scoped (e : Expr) {call : Call} (h : call ∈ e.sites) :
    ∃ names, (.slot, call, names) ∈ e.scoped .inside [] := by
  have hslot : call ∈ Place.slots (e.calls .inside) := e.reorders.perm.mem_iff.mp h
  exact exists_of_map_placed (e.map_scoped (by simp [Place.IsOwn]) []) hslot

namespace TypeDecl

/-- The expressions in the annotations and constants of a type. -/
def outsideExprs (d : TypeDecl) : List Expr :=
  (d.modifiers.annots.flatMap fun a => AnnotArg.exprs a.args) ++
    d.constants.flatMap EnumConstant.args

theorem outsideSites_eq_flatMap (d : TypeDecl) :
    d.outsideSites = d.outsideExprs.flatMap Expr.sites := by
  rw [outsideSites, outsideExprs, List.flatMap_append, List.flatMap_assoc, List.flatMap_assoc]
  simp only [AnnotArg.sites_eq_flatMap, Expr.allSites_eq_flatMap]

/-- **The calls of the own code of a member of a type**, or else of its annotations and constants,
each with the names in scope there. -/
def scopedAt (d : TypeDecl) : Option Member → List ScopedCall
  | none => d.outsideExprs.flatMap (Expr.scoped .inside [])
  | some m => m.scoped

/-- **The names of the local variables that a type declares**, in its annotations, constants and
members. -/
def declared (d : TypeDecl) : List String :=
  d.outsideExprs.flatMap Expr.declared ++ d.members.flatMap Member.declared

variable {d : TypeDecl} {file : Nat} {owner : TypeHash} {s : CallSite}

/-- **Every candidate is listed** with the names in scope there. -/
theorem exists_scopedAt (hs : s ∈ d.callSites file owner) :
    ∃ names, (.slot, s.call, names) ∈ d.scopedAt s.site.member := by
  rw [callSites_eq, List.mem_append, List.mem_map, List.mem_flatMap] at hs
  rcases hs with ⟨call, hcall, rfl⟩ | ⟨m, -, hs⟩
  · rw [outsideSites_eq_flatMap] at hcall
    obtain ⟨e, he, hcall⟩ := List.mem_flatMap.mp hcall
    obtain ⟨names, hnames⟩ := e.exists_scoped hcall
    exact ⟨names, List.mem_flatMap.mpr ⟨e, he, hnames⟩⟩
  · obtain ⟨call, hcall, rfl⟩ := List.mem_map.mp hs
    exact exists_of_map_placed m.map_scoped (m.sites_perm.mem_iff.mp hcall)

/-- **What is in scope at a candidate is declared in the type.** -/
theorem scopedAt_subset (hs : s ∈ d.callSites file owner) {x : ScopedCall}
    (hx : x ∈ d.scopedAt s.site.member) : x.2.2 ⊆ d.declared := by
  rw [callSites_eq, List.mem_append, List.mem_map, List.mem_flatMap] at hs
  rcases hs with ⟨call, -, rfl⟩ | ⟨m, hm, hs⟩
  · obtain ⟨e, he, hx⟩ := List.mem_flatMap.mp hx
    have hdeclared := e.staysIn (List.nil_subset _) (List.Subset.refl e.declared) x hx
    exact fun n hn => List.mem_append_left _ (List.mem_flatMap.mpr ⟨e, he, hdeclared hn⟩)
  · obtain ⟨call, -, rfl⟩ := List.mem_map.mp hs
    exact fun n hn =>
      List.mem_append_right _ (List.mem_flatMap.mpr ⟨m, hm, m.scoped_subset hx hn⟩)

end TypeDecl

end JavaGraft

import JavaGraft.Proofs.Extension.Hygiene
import JavaGraft.Proofs.Scope.Agreement
import JavaGraft.Proofs.Typing.Asking
import JavaGraft.Proofs.Typing.VoidFree

/-!
# Where `void` comes from

A call of a constructor, or of a method that returns nothing, is entered in the table of its member
with the type `void`, as if that were the type of a value. From there it spreads: to parentheses,
conditional expressions, and variables that take the types of their initial values.

It comes from nowhere else. If neither a field nor a written type of a value is void, and if no call
in a member has been entered as void, nothing in the member has (`JavaGraft.Member.typed_clears`).
-/

namespace JavaGraft

/-! ### The types that values are said to have -/

mutual

/-- The types that are written in an expression for values: of what is created, tested and cast, and
of parameters and variables in lambdas. -/
def Expr.valueTypes : Expr → List TypeExpr
  | .literal .. | .name _ | .this _ | .super _ | .classLit .. => []
  | .paren e _ | .field e _ _ | .unary _ e _ | .update e _ _ | .methodRef e _ _ => e.valueTypes
  | .cast t e _ | .instanceOf e t _ _ => t :: e.valueTypes
  | .call _ f as _ => f.valueTypes ++ Expr.allValueTypes as
  | .new t as _ | .newAnonymous t as _ _ | .newArray t as _ => t :: Expr.allValueTypes as
  | .newArrayOf t ds es _ _ => t :: (Expr.allValueTypes ds ++ Expr.allValueTypes es)
  | .arrayInit es _ => Expr.allValueTypes es
  | .index a b _ | .binary a _ b _ | .assign a _ b _ => a.valueTypes ++ b.valueTypes
  | .conditional e a b _ => e.valueTypes ++ (a.valueTypes ++ b.valueTypes)
  | .lambda ps e _ => ps.filterMap LambdaParam.type ++ e.valueTypes
  | .blockLambda ps b _ => ps.filterMap LambdaParam.type ++ b.valueTypes

/-- The types that are written in expressions for values. -/
def Expr.allValueTypes : List Expr → List TypeExpr
  | [] => []
  | e :: es => e.valueTypes ++ Expr.allValueTypes es

/-- The types that are written in a block for values. -/
def Block.valueTypes : Block → List TypeExpr
  | ⟨ss, _⟩ => Stmt.allValueTypes ss

/-- The types that are written in a statement for values. -/
def Stmt.valueTypes : Stmt → List TypeExpr
  | .block b => b.valueTypes
  | .localVar _ t vs _ => t :: VarDeclarator.allValueTypes vs
  | .localType _ | .breakTo .. | .continueTo .. | .empty _ | .ret none _ => []
  | .expr e _ | .throwing e _ | .ret (some e) _ => e.valueTypes
  | .ifThen e a _ | .whileLoop e a _ | .doLoop a e _ => e.valueTypes ++ a.valueTypes
  | .ifElse e a b _ => e.valueTypes ++ (a.valueTypes ++ b.valueTypes)
  | .forLoop i none us a _ =>
    Stmt.allValueTypes i ++ (Expr.allValueTypes us ++ a.valueTypes)
  | .forLoop i (some e) us a _ =>
    Stmt.allValueTypes i ++ (e.valueTypes ++ (Expr.allValueTypes us ++ a.valueTypes))
  | .forEach _ t _ e a _ => t :: (e.valueTypes ++ a.valueTypes)
  | .tryCatch rs b cs none _ =>
    Stmt.allValueTypes rs ++ (b.valueTypes ++ CatchClause.allValueTypes cs)
  | .tryCatch rs b cs (some f) _ =>
    Stmt.allValueTypes rs ++ (b.valueTypes ++ (CatchClause.allValueTypes cs ++ f.valueTypes))
  | .switch e cs _ => e.valueTypes ++ SwitchCase.allValueTypes cs
  | .synchronized e b _ => e.valueTypes ++ b.valueTypes
  | .labeled _ a _ => a.valueTypes
  | .assertion e none _ => e.valueTypes
  | .assertion e (some m) _ => e.valueTypes ++ m.valueTypes

/-- The types that are written in statements for values. -/
def Stmt.allValueTypes : List Stmt → List TypeExpr
  | [] => []
  | s :: ss => s.valueTypes ++ Stmt.allValueTypes ss

/-- The types that are written in initial values for values. -/
def VarDeclarator.allValueTypes : List VarDeclarator → List TypeExpr
  | [] => []
  | ⟨_, _, none, _⟩ :: vs => VarDeclarator.allValueTypes vs
  | ⟨_, _, some e, _⟩ :: vs => e.valueTypes ++ VarDeclarator.allValueTypes vs

/-- The types that handlers handle, and those written in their blocks for values. -/
def CatchClause.allValueTypes : List CatchClause → List TypeExpr
  | [] => []
  | ⟨_, ts, _, b, _⟩ :: cs => ts ++ (b.valueTypes ++ CatchClause.allValueTypes cs)

/-- The types that are written in the groups of a `switch` for values. -/
def SwitchCase.allValueTypes : List SwitchCase → List TypeExpr
  | [] => []
  | ⟨ls, ss, _⟩ :: cs =>
    Expr.allValueTypes ls ++ (Stmt.allValueTypes ss ++ SwitchCase.allValueTypes cs)

end

/-- **The types that are written in a member for values**: of fields, parameters and local
variables, and in expressions. -/
def Member.valueTypes : Member → List TypeExpr
  | .field _ t vs _ => t :: VarDeclarator.allValueTypes vs
  | .method _ _ _ _ ps _ _ none _ => ps.map Param.type
  | .method _ _ _ _ ps _ _ (some b) _ => ps.map Param.type ++ b.valueTypes
  | .constructor _ _ _ ps _ b _ => ps.map Param.type ++ b.valueTypes
  | .initializer _ b _ => b.valueTypes
  | .type _ => []

/-- Types none of which is written `void`. -/
def OfValues (ts : List TypeExpr) : Prop := ∀ t ∈ ts, t.base ≠ .primitive .void

theorem ofValues_append {ts ts' : List TypeExpr} :
    OfValues (ts ++ ts') ↔ OfValues ts ∧ OfValues ts' := List.forall_mem_append

theorem ofValues_cons {t : TypeExpr} {ts : List TypeExpr} :
    OfValues (t :: ts) ↔ t.base ≠ .primitive .void ∧ OfValues ts := List.forall_mem_cons

/-! ### Steps of typing -/

/-- No local variable and no entry is void. -/
structure TyperState.Clear (s : TyperState) : Prop where
  scope : s.scope.All fun v => NotVoid v.type
  table : ∀ p ∈ s.table, p.2.base ≠ .void

/-- The callees of the calls that return nothing: of constructors, and of methods of a name under
which one is declared `void`. -/
def Expr.ReturnsNothing (r : Registry) : Expr → Prop
  | .this _ | .super _ => True
  | .name i => r.DeclaresVoid i.name
  | .field _ n _ => r.DeclaresVoid n.name
  | _ => False

/-- Some call that returns nothing has been entered as void. -/
def VoidCall (r : Registry) (table : TypeTable) : Prop :=
  ∃ id callee args span, callee.ReturnsNothing r
    ∧ (Expr.call id callee args span, DataType.void) ∈ table

/-- What a call comes to: if it is void, it is `void` itself, and the call returns nothing. -/
def OfCall (r : Registry) (callee : Expr) (t : Option DataType) : Prop :=
  ∀ d ∈ t, d.base = .void → d = .void ∧ callee.ReturnsNothing r

namespace Typer

variable {α β : Type} {r : Registry} {x : Typer α} {f : α → Typer β} {P : Prop} {Q : α → Prop}
  {R : β → Prop}

/-- **A step of typing that brings `void` in by calls alone.** It takes nothing out of the table,
and if a condition is met, then, unless a call comes to be void, nothing does, and what it comes to
is as described. -/
structure Clears (r : Registry) (P : Prop) (x : Typer α) (Q : α → Prop) : Prop where
  grows : ∀ s, s.table ⊆ (x.run s).2.table
  clears : P → ∀ s, s.Clear → ¬ VoidCall r (x.run s).2.table → (x.run s).2.Clear ∧ Q (x.run s).1

namespace Clears

theorem pure {a : α} (h : P → Q a) : Clears r P (Pure.pure a) Q where
  grows _ := List.Subset.refl _
  clears hP _ hs _ := ⟨hs, h hP⟩

theorem bind (hx : Clears r P x Q) (hf : ∀ a, Clears r (P ∧ Q a) (f a) R) :
    Clears r P (x >>= f) R where
  grows s _ hp := (hf _).grows _ (hx.grows s hp)
  clears hP s hs hcall := by
    have hearlier : ¬ VoidCall r (x.run s).2.table := by
      rintro ⟨id, callee, args, span, hcallee, hmem⟩
      exact hcall ⟨id, callee, args, span, hcallee, (hf _).grows _ hmem⟩
    obtain ⟨hs', hQ⟩ := hx.clears hP s hs hearlier
    exact (hf _).clears ⟨hP, hQ⟩ _ hs' hcall

theorem discard (h : Clears r P x Q) : Clears r P (Functor.discard x) fun _ => True where
  grows s := h.grows s
  clears hP s hs hcall := ⟨(h.clears hP s hs hcall).1, trivial⟩

/-- Reading the local variables. -/
theorem read {f : TyperState → Typer β} (h : ∀ s, Clears r (P ∧ s.Clear) (f s) R) :
    Clears r P (MonadState.get >>= f) R where
  grows s := (h s).grows s
  clears hP s hs hcall := (h s).clears ⟨hP, hs⟩ s hs hcall

theorem forM {xs : List α} {g : α → Typer PUnit} (hg : ∀ x ∈ xs, Clears r P (g x) fun _ => True) :
    Clears r P (xs.forM g) fun _ => True :=
  forM_induction (C := (Clears r P · fun _ => True)) (.pure fun _ => trivial)
    (fun _ _ hx hy => hx.bind fun _ => ⟨hy.grows, fun hP => hy.clears hP.1⟩) hg

/-! #### Local variables -/

theorem enter : Clears r P Typer.enter fun _ => True where
  grows _ := List.Subset.refl _
  clears _ _ hs _ := ⟨⟨hs.scope.enter, hs.table⟩, trivial⟩

theorem leave : Clears r P Typer.leave fun _ => True where
  grows _ := List.Subset.refl _
  clears _ _ hs _ := ⟨⟨hs.scope.leave, hs.table⟩, trivial⟩

theorem declare (name : Ident) {type : Option DataType} (h : P → NotVoid type) :
    Clears r P (Typer.declare name type) fun _ => True where
  grows _ := List.Subset.refl _
  clears hP _ hs _ := ⟨⟨hs.scope.declare (h hP), hs.table⟩, trivial⟩

/-! #### Entries -/

theorem note {e : Expr} {p : Typer (Option DataType)} (h : Clears r P p NotVoid) :
    Clears r P (Typer.note e p) NotVoid := by
  refine h.bind fun t => ?_
  cases t with
  | none => exact .pure fun hP => hP.2
  | some t =>
    refine ⟨fun s => List.subset_cons_self _ _, fun hP s hs _ => ⟨⟨hs.scope, ?_⟩, hP.2⟩⟩
    exact List.forall_mem_cons.mpr ⟨hP.2 t rfl, hs.table⟩

/-- A call that is void is entered as that. -/
theorem note_call {id : Nat} {callee : Expr} {args : List Expr} {span : Span}
    {p : Typer (Option DataType)} (h : Clears r P p (OfCall r callee)) :
    Clears r P (Typer.note (.call id callee args span) p) NotVoid := by
  refine h.bind fun t => ?_
  cases t with
  | none => exact .pure fun _ => .of_none
  | some t =>
    refine ⟨fun s => List.subset_cons_self _ _, fun hP s hs hcall => ?_⟩
    have ht : t.base ≠ .void := by
      intro hvoid
      obtain ⟨rfl, hcallee⟩ := hP.2 t rfl hvoid
      exact hcall ⟨id, callee, args, span, hcallee, List.mem_cons_self⟩
    exact ⟨⟨hs.scope, List.forall_mem_cons.mpr ⟨ht, hs.table⟩⟩, .of_some ht⟩

end Clears

end Typer

/-! ### Expressions and statements -/

open Typer

/-- The value of a name is not void. -/
theorem Context.VoidFree.nameType {c : Context} (hc : c.VoidFree) {s : TyperState} (hs : s.Clear)
    (name : String) : NotVoid (c.nameType s.scope name) := by
  rw [Context.nameType]
  split
  · intro d hd
    obtain ⟨v, hv, hd⟩ := Option.bind_eq_some_iff.mp hd
    exact hs.scope.get? hv d hd
  · intro d hd
    obtain ⟨f, hf, rfl⟩ := Option.map_eq_some_iff.mp hd
    obtain ⟨h, -, hf⟩ := List.exists_of_findSome?_eq_some hf
    exact hc.fieldNamed? hf

theorem Context.VoidFree.callType {c : Context} (hc : c.VoidFree) (receiver : Option TypeHash)
    (e : Expr) (n : Ident) (span : Span) (args : List (Option DataType)) :
    OfCall c.registry (.field e n span) (c.callType receiver n.name args) := by
  intro d hd hvoid
  obtain ⟨h, -, hd⟩ := Option.bind_eq_some_iff.mp hd
  exact hc.select hd hvoid

theorem Context.VoidFree.ownCallType {c : Context} (hc : c.VoidFree) (i : Ident)
    (args : List (Option DataType)) :
    OfCall c.registry (.name i) (c.ownCallType i.name args) := by
  intro d hd hvoid
  obtain ⟨candidates, hfind, hd⟩ := Option.bind_eq_some_iff.mp hd
  obtain ⟨h, -, rfl⟩ := List.mem_map.mp (List.mem_of_find?_eq_some hfind)
  exact hc.select hd hvoid

section

-- The linter does not see what the theorems of a mutual block pass on to each other.
set_option linter.unusedSectionVars false

variable {c : Context} (hc : c.VoidFree)
include hc

/-- Parameters of lambdas are declared with the types written for them. -/
theorem LambdaParam.declare_clears {ps : List LambdaParam}
    (h : OfValues (ps.filterMap LambdaParam.type)) {P : Prop} :
    Clears c.registry P (ps.forM fun p => declare p.name (p.type.bind c.valueType)) fun _ => True :=
  .forM fun p hp => .declare _ fun _ => .bind fun t ht =>
    hc.valueType (h t (List.mem_filterMap.mpr ⟨p, hp, ht⟩))

mutual

/-- **An expression is not void** unless a call is. -/
theorem Expr.typed_clears : ∀ (e : Expr) {P : Prop} {expected : Option DataType},
    OfValues e.valueTypes → (P → NotVoid expected) →
      Clears c.registry P (note e (e.typed c expected)) NotVoid
  | .literal v _, _, _, _, _ => .note (.pure fun _ => .literal v)
  | .name i, _, _, _, _ => by
    simp only [Expr.typed]
    exact .note (.read fun s => .pure fun hP => hc.nameType hP.2 i.name)
  | .this _, _, _, _, _ => .note (.pure fun _ => hc.this)
  | .super _, _, _, _, _ => .note (.pure fun _ => hc.superclass?)
  | .classLit .., _, _, _, _ => .note (.pure fun _ => .known (by simp))
  | .field e n _, _, _, h, _ => by
    simp only [Expr.typed]
    refine .note ((Expr.typed_clears e h fun _ => .of_none).bind fun _ => ?_)
    exact .read fun _ => .pure fun _ => hc.fieldType
  | .call id f as span, P, _, h, _ => by
    simp only [Expr.valueTypes, ofValues_append] at h
    have hf := Expr.typed_clears f (P := P) h.1 fun _ => .of_none
    have has {P : Prop} := Expr.allTyped_clears as (P := P) h.2 fun _ => .of_none
    cases f with
    | this _ | super _ =>
      simp only [Expr.typed]
      refine .note_call (has.discard.bind fun _ => .pure fun _ d hd _ => ?_)
      exact ⟨(Option.mem_some.mp hd).symm, trivial⟩
    | name i =>
      simp only [Expr.typed]
      exact .note_call (has.bind fun _ => .pure fun _ => hc.ownCallType i _)
    | field e n _ =>
      simp only [Expr.typed]
      refine .note_call ((Expr.typed_clears e h.1 fun _ => .of_none).bind fun _ => ?_)
      exact .read fun _ => has.bind fun _ => .pure fun _ => hc.callType _ e n _ _
    | _ =>
      simp only [Expr.typed]
      exact .note (hf.discard.bind fun _ => has.discard.bind fun _ => .pure fun _ => .of_none)
  | .new t as _, _, _, h, _ | .newAnonymous t as _ _, _, _, h, _
  | .newArray t as _, _, _, h, _ => by
    simp only [Expr.valueTypes, ofValues_cons] at h
    simp only [Expr.typed]
    refine .note ((Expr.allTyped_clears as h.2 fun _ => .of_none).discard.bind fun _ => ?_)
    exact .pure fun _ => hc.valueType h.1
  | .newArrayOf t ds es _ _, _, _, h, _ => by
    simp only [Expr.valueTypes, ofValues_cons, ofValues_append] at h
    simp only [Expr.typed]
    refine .note ((Expr.allTyped_clears ds h.2.1 fun _ => .of_none).discard.bind fun _ => ?_)
    refine (Expr.allTyped_clears es h.2.2 fun _ => ?_).discard.bind fun _ => ?_
    · exact (hc.valueType h.1).elementType
    · exact .pure fun _ => hc.valueType h.1
  | .arrayInit es _, _, _, h, hP => by
    simp only [Expr.typed]
    refine .note ((Expr.allTyped_clears es h fun h => (hP h).elementType).discard.bind fun _ => ?_)
    exact .pure fun h => (hP h.1).filter
  | .index a b _, _, _, h, _ => by
    simp only [Expr.valueTypes, ofValues_append] at h
    simp only [Expr.typed]
    refine .note ((Expr.typed_clears a h.1 fun _ => .of_none).bind fun _ => ?_)
    refine (Expr.typed_clears b h.2 fun _ => .of_none).discard.bind fun _ => ?_
    exact .pure fun h => h.1.2.elementType
  | .unary op e _, _, _, h, _ => by
    simp only [Expr.typed]
    refine .note ((Expr.typed_clears e h fun _ => .of_none).bind fun _ => ?_)
    exact .pure fun h => .unary op h.2
  | .update e _ _, _, _, h, _ => by
    simp only [Expr.typed]
    exact .note (Expr.typed_clears e h fun _ => .of_none)
  | .binary a op b _, _, _, h, _ => by
    simp only [Expr.valueTypes, ofValues_append] at h
    simp only [Expr.typed]
    refine .note ((Expr.typed_clears a h.1 fun _ => .of_none).bind fun _ => ?_)
    refine (Expr.typed_clears b h.2 fun _ => .of_none).bind fun _ => ?_
    exact .pure fun _ => .binary op
  | .instanceOf e t none _, _, _, h, _ => by
    simp only [Expr.valueTypes, ofValues_cons] at h
    simp only [Expr.typed]
    refine .note ((Expr.typed_clears e h.2 fun _ => .of_none).discard.bind fun _ => ?_)
    exact .pure fun _ => .known (by simp)
  | .instanceOf e t (some name) _, _, _, h, _ => by
    simp only [Expr.valueTypes, ofValues_cons] at h
    simp only [Expr.typed]
    refine .note ((Expr.typed_clears e h.2 fun _ => .of_none).discard.bind fun _ => ?_)
    refine (Clears.declare name fun _ => hc.valueType h.1).bind fun _ => ?_
    exact .pure fun _ => .known (by simp)
  | .assign a _ b _, _, _, h, _ => by
    simp only [Expr.valueTypes, ofValues_append] at h
    simp only [Expr.typed]
    refine .note ((Expr.typed_clears a h.1 fun _ => .of_none).bind fun _ => ?_)
    refine (Expr.typed_clears b h.2 fun h => h.2).discard.bind fun _ => ?_
    exact .pure fun h => h.1.2
  | .conditional e a b _, _, _, h, _ => by
    simp only [Expr.valueTypes, ofValues_append] at h
    simp only [Expr.typed]
    refine .note ((Expr.typed_clears e h.1 fun _ => .of_none).discard.bind fun _ => ?_)
    refine (Expr.typed_clears a h.2.1 fun _ => .of_none).bind fun _ => ?_
    refine (Expr.typed_clears b h.2.2 fun _ => .of_none).bind fun _ => .pure fun h => ?_
    refine .bind fun x hx => fun d hd => ?_
    obtain ⟨y, hy, rfl⟩ := Option.map_eq_some_iff.mp hd
    exact NotVoid.joinTypes c.registry (h.1.2 x hx) (h.2 y hy)
  | .cast t e _, _, _, h, _ => by
    simp only [Expr.valueTypes, ofValues_cons] at h
    simp only [Expr.typed]
    refine .note ((Expr.typed_clears e h.2 fun _ => .of_none).discard.bind fun _ => ?_)
    exact .pure fun _ => hc.valueType h.1
  | .paren e _, _, _, h, hP => by
    simp only [Expr.typed]
    exact .note (Expr.typed_clears e h hP)
  | .lambda ps e _, _, _, h, _ => by
    simp only [Expr.valueTypes, ofValues_append] at h
    simp only [Expr.typed]
    refine .note (.bind .enter fun _ => (LambdaParam.declare_clears hc h.1).bind fun _ => ?_)
    refine (Expr.typed_clears e h.2 fun _ => .of_none).discard.bind fun _ => ?_
    exact .bind .leave fun _ => .pure fun _ => .of_none
  | .blockLambda ps b _, _, _, h, _ => by
    simp only [Expr.valueTypes, ofValues_append] at h
    simp only [Expr.typed]
    refine .note (.bind .enter fun _ => (LambdaParam.declare_clears hc h.1).bind fun _ => ?_)
    exact (Block.typed_clears b h.2).bind fun _ => .bind .leave fun _ => .pure fun _ => .of_none
  | .methodRef e _ _, _, _, h, _ => by
    simp only [Expr.typed]
    refine .note ((Expr.typed_clears e h fun _ => .of_none).discard.bind fun _ => ?_)
    exact .pure fun _ => .of_none

theorem Expr.allTyped_clears : ∀ (es : List Expr) {P : Prop} {expected : Option DataType},
    OfValues (Expr.allValueTypes es) → (P → NotVoid expected) →
      Clears c.registry P (Expr.allTyped c expected es) fun _ => True
  | [], _, _, _, _ => .pure fun _ => trivial
  | e :: es, _, _, h, hP => by
    simp only [Expr.allValueTypes, ofValues_append] at h
    simp only [Expr.allTyped]
    refine (Expr.typed_clears e h.1 hP).bind fun _ => ?_
    refine (Expr.allTyped_clears es h.2 fun h => hP h.1).bind fun _ => .pure fun _ => trivial

theorem Block.typed_clears : ∀ (b : Block) {P : Prop}, OfValues b.valueTypes →
    Clears c.registry P (b.typed c) fun _ => True
  | ⟨ss, _⟩, _, h => by
    simp only [Block.typed]
    exact .bind .enter fun _ => (Stmt.allTyped_clears ss h).bind fun _ => .leave

/-- **A statement brings no `void` in** unless a call in it does. -/
theorem Stmt.typed_clears : ∀ (s : Stmt) {P : Prop}, OfValues s.valueTypes →
    Clears c.registry P (s.typed c) fun _ => True
  | .block b, _, h => by
    simp only [Stmt.typed]
    exact Block.typed_clears b h
  | .localVar _ t vs _, _, h => by
    simp only [Stmt.valueTypes, ofValues_cons] at h
    simp only [Stmt.typed]
    split
    · exact VarDeclarator.allInferred_clears vs h.2
    · exact VarDeclarator.allTyped_clears vs h.2 (hc.valueType h.1)
  | .localType _, _, _ | .breakTo .., _, _ | .continueTo .., _, _ | .empty _, _, _
  | .ret none _, _, _ => .pure fun _ => trivial
  | .expr e _, _, h | .throwing e _, _, h | .ret (some e) _, _, h => by
    simp only [Stmt.typed]
    exact (Expr.typed_clears e h fun _ => .of_none).discard
  | .ifThen e a _, _, h | .whileLoop e a _, _, h => by
    simp only [Stmt.valueTypes, ofValues_append] at h
    simp only [Stmt.typed]
    refine (Expr.typed_clears e h.1 fun _ => .of_none).discard.bind fun _ => ?_
    exact .bind .enter fun _ => (Stmt.typed_clears a h.2).bind fun _ => .leave
  | .ifElse e a b _, _, h => by
    simp only [Stmt.valueTypes, ofValues_append] at h
    simp only [Stmt.typed]
    refine (Expr.typed_clears e h.1 fun _ => .of_none).discard.bind fun _ => ?_
    refine .bind .enter fun _ => (Stmt.typed_clears a h.2.1).bind fun _ => .bind .leave fun _ => ?_
    exact .bind .enter fun _ => (Stmt.typed_clears b h.2.2).bind fun _ => .leave
  | .doLoop a e _, _, h => by
    simp only [Stmt.valueTypes, ofValues_append] at h
    simp only [Stmt.typed]
    refine .bind .enter fun _ => (Stmt.typed_clears a h.2).bind fun _ => .bind .leave fun _ => ?_
    exact (Expr.typed_clears e h.1 fun _ => .of_none).discard
  | .forLoop i none us a _, _, h => by
    simp only [Stmt.valueTypes, ofValues_append] at h
    simp only [Stmt.typed]
    refine .bind .enter fun _ => (Stmt.allTyped_clears i h.1).bind fun _ => ?_
    refine (Expr.allTyped_clears us h.2.1 fun _ => .of_none).discard.bind fun _ => ?_
    refine .bind .enter fun _ => (Stmt.typed_clears a h.2.2).bind fun _ => ?_
    exact .bind .leave fun _ => .leave
  | .forLoop i (some e) us a _, _, h => by
    simp only [Stmt.valueTypes, ofValues_append] at h
    simp only [Stmt.typed]
    refine .bind .enter fun _ => (Stmt.allTyped_clears i h.1).bind fun _ => ?_
    refine (Expr.typed_clears e h.2.1 fun _ => .of_none).discard.bind fun _ => ?_
    refine (Expr.allTyped_clears us h.2.2.1 fun _ => .of_none).discard.bind fun _ => ?_
    refine .bind .enter fun _ => (Stmt.typed_clears a h.2.2.2).bind fun _ => ?_
    exact .bind .leave fun _ => .leave
  | .forEach _ t n e a _, _, h => by
    simp only [Stmt.valueTypes, ofValues_cons, ofValues_append] at h
    simp only [Stmt.typed]
    refine .bind .enter fun _ => (Expr.typed_clears e h.2.1 fun _ => .of_none).bind fun _ => ?_
    refine (Clears.declare n fun h' => ?_).bind fun _ => .bind .enter fun _ => ?_
    · split
      · exact h'.2.elementType
      · exact hc.valueType h.1
    · exact (Stmt.typed_clears a h.2.2).bind fun _ => .bind .leave fun _ => .leave
  | .tryCatch rs b cs none _, _, h => by
    simp only [Stmt.valueTypes, ofValues_append] at h
    simp only [Stmt.typed]
    refine .bind .enter fun _ => (Stmt.allTyped_clears rs h.1).bind fun _ => ?_
    refine (Block.typed_clears b h.2.1).bind fun _ => .bind .leave fun _ => ?_
    exact (CatchClause.allTyped_clears cs h.2.2).bind fun _ => .pure fun _ => trivial
  | .tryCatch rs b cs (some f) _, _, h => by
    simp only [Stmt.valueTypes, ofValues_append] at h
    simp only [Stmt.typed]
    refine .bind .enter fun _ => (Stmt.allTyped_clears rs h.1).bind fun _ => ?_
    refine (Block.typed_clears b h.2.1).bind fun _ => .bind .leave fun _ => ?_
    exact (CatchClause.allTyped_clears cs h.2.2.1).bind fun _ => Block.typed_clears f h.2.2.2
  | .switch e cs _, _, h => by
    simp only [Stmt.valueTypes, ofValues_append] at h
    simp only [Stmt.typed]
    refine (Expr.typed_clears e h.1 fun _ => .of_none).discard.bind fun _ => ?_
    exact .bind .enter fun _ => (SwitchCase.allTyped_clears cs h.2).bind fun _ => .leave
  | .synchronized e b _, _, h => by
    simp only [Stmt.valueTypes, ofValues_append] at h
    simp only [Stmt.typed]
    refine (Expr.typed_clears e h.1 fun _ => .of_none).discard.bind fun _ => ?_
    exact Block.typed_clears b h.2
  | .labeled _ a _, _, h => by
    simp only [Stmt.typed]
    exact Stmt.typed_clears a h
  | .assertion e none _, _, h => by
    simp only [Stmt.typed]
    refine (Expr.typed_clears e h fun _ => .of_none).discard.bind fun _ => .pure fun _ => trivial
  | .assertion e (some m) _, _, h => by
    simp only [Stmt.valueTypes, ofValues_append] at h
    simp only [Stmt.typed]
    refine (Expr.typed_clears e h.1 fun _ => .of_none).discard.bind fun _ => ?_
    exact (Expr.typed_clears m h.2 fun _ => .of_none).discard

theorem Stmt.allTyped_clears : ∀ (ss : List Stmt) {P : Prop}, OfValues (Stmt.allValueTypes ss) →
    Clears c.registry P (Stmt.allTyped c ss) fun _ => True
  | [], _, _ => .pure fun _ => trivial
  | s :: ss, _, h => by
    simp only [Stmt.allValueTypes, ofValues_append] at h
    simp only [Stmt.allTyped]
    exact (Stmt.typed_clears s h.1).bind fun _ => Stmt.allTyped_clears ss h.2

theorem VarDeclarator.allTyped_clears : ∀ (vs : List VarDeclarator) {P : Prop}
    {declared : Option DataType}, OfValues (VarDeclarator.allValueTypes vs) → NotVoid declared →
      Clears c.registry P (VarDeclarator.allTyped c declared vs) fun _ => True
  | [], _, _, _, _ => .pure fun _ => trivial
  | ⟨n, dims, none, _⟩ :: vs, _, _, h, hdeclared => by
    simp only [VarDeclarator.allTyped]
    refine (Clears.declare n fun _ => hdeclared.withDims dims).bind fun _ => ?_
    exact VarDeclarator.allTyped_clears vs h hdeclared
  | ⟨n, dims, some e, _⟩ :: vs, _, _, h, hdeclared => by
    simp only [VarDeclarator.allValueTypes, ofValues_append] at h
    simp only [VarDeclarator.allTyped]
    refine (Expr.typed_clears e h.1 fun _ => hdeclared.withDims dims).discard.bind fun _ => ?_
    refine (Clears.declare n fun _ => hdeclared.withDims dims).bind fun _ => ?_
    exact VarDeclarator.allTyped_clears vs h.2 hdeclared

theorem VarDeclarator.allInferred_clears : ∀ (vs : List VarDeclarator) {P : Prop},
    OfValues (VarDeclarator.allValueTypes vs) →
      Clears c.registry P (VarDeclarator.allInferred c vs) fun _ => True
  | [], _, _ => .pure fun _ => trivial
  | ⟨n, _, none, _⟩ :: vs, _, h => by
    simp only [VarDeclarator.allInferred]
    refine (Clears.declare n fun _ => .of_none).bind fun _ => ?_
    exact VarDeclarator.allInferred_clears vs h
  | ⟨n, _, some e, _⟩ :: vs, _, h => by
    simp only [VarDeclarator.allValueTypes, ofValues_append] at h
    simp only [VarDeclarator.allInferred]
    refine (Expr.typed_clears e h.1 fun _ => .of_none).bind fun _ => ?_
    refine (Clears.declare n fun h => h.2).bind fun _ => ?_
    exact VarDeclarator.allInferred_clears vs h.2

theorem CatchClause.allTyped_clears : ∀ (cs : List CatchClause) {P : Prop},
    OfValues (CatchClause.allValueTypes cs) →
      Clears c.registry P (CatchClause.allTyped c cs) fun _ => True
  | [], _, _ => .pure fun _ => trivial
  | ⟨_, ts, n, b, _⟩ :: cs, _, h => by
    simp only [CatchClause.allValueTypes, ofValues_append] at h
    simp only [CatchClause.allTyped]
    refine .bind .enter fun _ => (Clears.declare n fun _ => ?_).bind fun _ => ?_
    · exact .bind fun t ht => hc.valueType (h.1 t (List.mem_of_head? ht))
    · refine (Block.typed_clears b h.2.1).bind fun _ => .bind .leave fun _ => ?_
      exact CatchClause.allTyped_clears cs h.2.2

theorem SwitchCase.allTyped_clears : ∀ (cs : List SwitchCase) {P : Prop},
    OfValues (SwitchCase.allValueTypes cs) →
      Clears c.registry P (SwitchCase.allTyped c cs) fun _ => True
  | [], _, _ => .pure fun _ => trivial
  | ⟨ls, ss, _⟩ :: cs, _, h => by
    simp only [SwitchCase.allValueTypes, ofValues_append] at h
    simp only [SwitchCase.allTyped]
    refine (Expr.allTyped_clears ls h.1 fun _ => .of_none).discard.bind fun _ => ?_
    exact (Stmt.allTyped_clears ss h.2.1).bind fun _ => SwitchCase.allTyped_clears cs h.2.2

end

/-! ### Members -/

theorem typeFields_clears {P : Prop} {declared : Option DataType} (hdeclared : NotVoid declared)
    {vs : List VarDeclarator} (h : OfValues (VarDeclarator.allValueTypes vs)) :
    Clears c.registry P (typeFields c declared vs) fun _ => True := by
  rw [typeFields]
  induction vs generalizing P with
  | nil => exact .pure fun _ => trivial
  | cons v vs ih =>
    obtain ⟨n, dims, e, s⟩ := v
    cases e with
    | none => exact .bind (Q := fun _ => True) (.pure fun _ => trivial) fun _ => ih h
    | some e =>
      obtain ⟨he, hvs⟩ := ofValues_append.mp h
      refine .bind (Expr.typed_clears hc e he fun _ => ?_).discard fun _ => ih hvs
      exact hdeclared.withDims dims

/-- Parameters of members are declared with the types written for them. -/
theorem Param.declare_clears {P : Prop} {ps : List Param} (h : OfValues (ps.map Param.type)) :
    Clears c.registry P (ps.forM fun p => declare p.name (c.valueType p.type)) fun _ => True :=
  .forM fun p hp => .declare _ fun _ => hc.valueType (h p.type (List.mem_map_of_mem hp))

/-- **A member brings no `void` in** unless a call in it does. -/
theorem Member.typed_clears {m : Member} (h : OfValues m.valueTypes) :
    Clears c.registry True (m.typed c) fun _ => True := by
  cases m with
  | field _ t vs _ =>
    obtain ⟨ht, hvs⟩ := ofValues_cons.mp h
    exact typeFields_clears hc (hc.valueType ht) hvs
  | method _ tps _ _ ps _ _ b _ =>
    have hc := hc.addTypeVars (tps.map (·.name.name))
    cases b with
    | none => exact (Param.declare_clears hc h).bind fun _ => .pure fun _ => trivial
    | some b =>
      obtain ⟨hps, hb⟩ := ofValues_append.mp h
      exact (Param.declare_clears hc hps).bind fun _ => Block.typed_clears hc b hb
  | constructor _ tps _ ps _ b _ =>
    have hc := hc.addTypeVars (tps.map (·.name.name))
    obtain ⟨hps, hb⟩ := ofValues_append.mp h
    exact (Param.declare_clears hc hps).bind fun _ => Block.typed_clears hc b hb
  | initializer _ b _ => exact Block.typed_clears hc b h
  | type _ => exact .pure fun _ => trivial

/-- If anything in a member is void, then a call in it is. -/
theorem Member.voidCall_of_mem {m : Member} (h : OfValues m.valueTypes) {p : Expr × DataType}
    (hp : p ∈ m.typeTable c) (hvoid : p.2.base = .void) : VoidCall c.registry (m.typeTable c) := by
  by_contra hcall
  have hstart : TyperState.Clear ⟨.empty, []⟩ := ⟨.empty, nofun⟩
  have hclear := ((Member.typed_clears hc h).clears trivial ⟨.empty, []⟩ hstart hcall).1
  exact hclear.table p hp hvoid

end

/-! ### Receivers that are void -/

/-- **Void receivers.** An expression is answered to be void only if a call in its member is, which
calls a constructor or a method that is declared so. A receiver that is void is not taken for one
without type: the call is redirected if a provider offers a method of its name for the type `void`,
and otherwise no method matches. -/
theorem Attribution.resolve_void {r : Registry} {files : List SourceFile} {f : SourceFile}
    {site : Site} {m : Member} (hr : r.VoidFree) (hfile : files[site.file]? = some f)
    (hmember : site.member = some m) (howner : site.owner ≠ .void)
    (htypes : OfValues m.valueTypes) :
    (∀ e, ((Attribution.start r files).resolve site e).1 = some .void →
        VoidCall r (m.typeTable (.inType r f.scope site.owner)))
      ∧ ∀ (a : Attribution) (catalog : Catalog) (call : Call) (name : String),
        call.name? = some name → name ≠ "this" → name ≠ "super" →
          (a.resolve site call.receiver).1 = some .void →
            (catalog.decide ⟨call, site⟩ a).1
              = (catalog.provider? name .void).elim (.keep .noMatchingMethod)
                (call.moveTo · name) := by
  have hc : (Context.inType r f.scope site.owner).VoidFree :=
    ⟨hr, fun h => howner (Option.some.inj h)⟩
  constructor
  · intro e he
    have hcontext : (start r files).context? site = some (.inType r f.scope site.owner) := by
      rw [context?, start, List.getElem?_map, hfile]
      rfl
    have htables : ((start r files).ensure site m).tables.lookup (site.file, m)
        = some (m.typeTable (.inType r f.scope site.owner)) := by
      have hnone : ((start r files).tables.lookup (site.file, m)).isSome = false := rfl
      rw [ensure, hnone, if_neg Bool.false_ne_true, hcontext]
      exact List.lookup_cons_self
    -- a type of `this` would be that of the owner, so the answer was looked up
    have hlookup : (m.typeTable (.inType r f.scope site.owner)).lookup e = some .void := by
      cases e with
      | this span =>
        have hbase := congrArg (Option.map DataType.base) he
        exact absurd (Option.some.inj hbase) howner
      | _ => simpa only [resolve, hmember, htables, Option.bind_some] using he
    exact m.voidCall_of_mem hc htypes (mem_of_lookup hlookup) rfl
  · intro a catalog call name hname hthis hsuper hreceiver
    have hconstructor : ¬(decide (name = "this") || decide (name = "super")) = true := by
      simp [hthis, hsuper]
    rw [Catalog.decide]
    simp only [hname, hreceiver]
    rw [if_neg hconstructor]
    cases catalog.provider? name .void <;> rfl

namespace Sample

/-- The call `ext.Ext.tag(null)`, which returns nothing. -/
def voidCall : Expr :=
  .call 0 (.ofNames .absent ["ext", "Ext", "tag"]) [.literal .null .absent] .absent

/-- The call `ext.Ext.tag(null).tag()`. -/
def callOnVoid : Call := ⟨1, .field voidCall (ident "tag") .absent, [], .absent⟩

/-- An initializer that makes the call. -/
def voidMember : Member :=
  .initializer false
    ⟨[.expr (.call 1 callOnVoid.callee [] .absent) .absent], .absent⟩ .absent

/-- Where the call stands. -/
def voidSite : Site := ⟨0, owner, some voidMember⟩

/-- Nothing has been asked yet about a file with an enum that has the initializer. -/
def voidStart : Attribution := .start registry [file (enum [] [voidMember])]

theorem voidFree_registry : registry.VoidFree :=
  ⟨by decide +kernel, by decide +kernel, by decide +kernel, by decide +kernel⟩

end Sample

/-- The receiver of `ext.Ext.tag(null).tag()` is void, on account of a call that is. -/
theorem Attribution.resolve_void_sample :
    (Sample.voidStart.resolve Sample.voidSite Sample.voidCall).1 = some .void
      ∧ VoidCall Sample.registry
        (Sample.voidMember.typeTable
          (.inType Sample.registry (Sample.file (Sample.enum [] [Sample.voidMember])).scope
            Sample.owner))
      ∧ (Sample.catalog.decide ⟨Sample.callOnVoid, Sample.voidSite⟩ Sample.voidStart).1
        = (Sample.catalog.provider? "tag" .void).elim (.keep .noMatchingMethod)
            (Sample.callOnVoid.moveTo · "tag") := by
  have howner : Sample.owner ≠ .void := by decide +kernel
  have htypes : OfValues Sample.voidMember.valueTypes := nofun
  have hvoid : (Sample.voidStart.resolve Sample.voidSite Sample.voidCall).1 = some .void := by
    decide +kernel
  have hfile : [Sample.file (Sample.enum [] [Sample.voidMember])][Sample.voidSite.file]?
      = some (Sample.file (Sample.enum [] [Sample.voidMember])) := rfl
  have hmember : Sample.voidSite.member = some Sample.voidMember := rfl
  obtain ⟨hcall, hdecide⟩ :=
    Attribution.resolve_void Sample.voidFree_registry hfile hmember howner htypes
  have hdecide := hdecide Sample.voidStart Sample.catalog Sample.callOnVoid "tag" rfl
  exact ⟨hvoid, hcall _ hvoid, hdecide (by decide) (by decide) hvoid⟩

/-- **A void receiver that is passed on.** The call `ext.Ext.tag(null).tag()` is redirected to
`ext.Ext.tag`, which is given what is no value. -/
theorem Attribution.resolve_void_replaced :
    (Sample.voidStart.resolve Sample.voidSite Sample.callOnVoid.receiver).1 = some .void
      ∧ (Sample.catalog.decide ⟨Sample.callOnVoid, Sample.voidSite⟩ Sample.voidStart).1
        = .replace 1 (.ofNames .absent ["ext", "Ext", "tag"]) [Sample.voidCall] := by
  constructor
  · decide +kernel
  · decide +kernel

end JavaGraft

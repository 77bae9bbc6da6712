import JavaGraft.Proofs.Scope.Answers
import JavaGraft.Typing.Attribution

/-!
# Types of relabelled code

Typing never looks at labels, and it asks the registry only for answers. So the table of a member
with other labels, typed in a registry that gives the same answers, has the same types under the
relabelled expressions (`JavaGraft.Member.typeTable_relabeled`).
-/

namespace JavaGraft

/-- A table of types with the labels of its expressions replaced. -/
def TypeTable.relabeled (ρ : Relabeling) (table : TypeTable) : TypeTable :=
  table.map fun (e, t) => (e.relabeled ρ, t)

/-- The state of typing with all labels replaced. -/
def TyperState.relabeled (ρ : Relabeling) (s : TyperState) : TyperState :=
  ⟨s.scope.relabeled ρ, TypeTable.relabeled ρ s.table⟩

namespace Typer

variable {ρ : Relabeling} {α β : Type}

/-- A step of typing that, on relabelled states, does what another step does. -/
def Follows (ρ : Relabeling) (p p' : Typer α) : Prop :=
  ∀ s, p'.run (s.relabeled ρ) = ((p.run s).1, (p.run s).2.relabeled ρ)

namespace Follows

theorem pure (a : α) : Follows ρ (Pure.pure a) (Pure.pure a) := fun _ => rfl

theorem bind {p p' : Typer α} {f f' : α → Typer β} (hp : Follows ρ p p')
    (hf : ∀ a, Follows ρ (f a) (f' a)) : Follows ρ (p >>= f) (p' >>= f') := by
  intro s
  change (f' (p'.run (s.relabeled ρ)).1).run (p'.run (s.relabeled ρ)).2 = _
  rw [hp s]
  exact hf _ _

theorem discard {p p' : Typer α} (hp : Follows ρ p p') :
    Follows ρ (Functor.discard p) (Functor.discard p') := by
  intro s
  change ((), (p'.run (s.relabeled ρ)).2) = _
  rw [hp s]
  rfl

/-- What is read off the state is the same. -/
theorem read {f f' : TyperState → Typer β} (hf : ∀ s, Follows ρ (f s) (f' (s.relabeled ρ))) :
    Follows ρ (MonadState.get >>= f) (MonadState.get >>= f') :=
  fun s => hf s s

theorem enter : Follows ρ Typer.enter Typer.enter := fun _ => rfl

theorem leave : Follows ρ Typer.leave Typer.leave := by
  intro s
  change ((), (⟨(s.scope.relabeled ρ).leave, _⟩ : TyperState)) = _
  rw [← LocalScope.leave_relabeled]
  rfl

theorem declare (name : Ident) (type : Option DataType) :
    Follows ρ (Typer.declare name type) (Typer.declare (name.relabeled ρ) type) := by
  intro s
  change ((), (⟨(s.scope.relabeled ρ).declare name.name type (ρ.span name.span), _⟩ :
    TyperState)) = _
  rw [← LocalScope.declare_relabeled]
  rfl

theorem note (e : Expr) {p p' : Typer (Option DataType)} (hp : Follows ρ p p') :
    Follows ρ (Typer.note e p) (Typer.note (e.relabeled ρ) p') := by
  refine hp.bind fun type => ?_
  cases type with
  | none => exact fun _ => rfl
  | some t => exact fun _ => rfl

theorem forM {xs : List α} {f : α → α} {g g' : α → Typer PUnit}
    (hg : ∀ x, Follows ρ (g x) (g' (f x))) : Follows ρ (xs.forM g) ((xs.map f).forM g') := by
  induction xs with
  | nil => exact .pure _
  | cons x xs ih => exact (hg x).bind fun _ => ih

end Follows

end Typer

/-! ### Expressions and statements -/

open Typer

section

-- The linter does not see what the theorems of a mutual block pass on to each other.
set_option linter.unusedSectionVars false

variable {ρ : Relabeling} {c : Context} {r : Registry} (h : c.registry.Agrees r)

theorem LambdaParam.follows_declare (h : c.registry.Agrees r) (p : LambdaParam) :
    Follows ρ (declare p.name (p.type.bind c.valueType))
      (declare (p.relabeled ρ).name ((p.relabeled ρ).type.bind (c.against r).valueType)) := by
  have htype : (p.relabeled ρ).type.bind (c.against r).valueType = p.type.bind c.valueType := by
    rw [relabeled, Option.bind_map]
    exact congrArg (Option.bind p.type) (funext fun t => c.valueType_against h ρ t)
  rw [htype]
  exact .declare _ _

/-- Whether a callee is neither a name nor a member nor a constructor. -/
def Expr.isOddCallee : Expr → Bool
  | .name _ | .field .. | .this _ | .super _ => false
  | _ => true

theorem Expr.typed_call_of_odd {f : Expr} (hf : f.isOddCallee = true) (c : Context)
    (expected : Option DataType) (id : Nat) (as : List Expr) (s : Span) :
    (Expr.call id f as s).typed c expected = do
      discard (note f (f.typed c none))
      discard (Expr.allTyped c none as)
      return none := by
  rw [Expr.typed]
  · rintro t rfl
    cases hf
  · rintro t rfl
    cases hf
  · rintro i rfl
    cases hf
  · rintro e n t rfl
    cases hf

/-- Typing a call whose callee is odd. -/
theorem Expr.call_follows {c' : Context} {f : Expr} (hodd : f.isOddCallee = true) {as : List Expr}
    (hf : Typer.Follows ρ (f.typed c none) ((f.relabeled ρ).typed c' none))
    (has : Typer.Follows ρ (Expr.allTyped c none as)
      (Expr.allTyped c' none (Expr.allRelabeled ρ as)))
    {id : Nat} {s : Span} {expected : Option DataType} :
    Typer.Follows ρ ((Expr.call id f as s).typed c expected)
      (((Expr.call id f as s).relabeled ρ).typed c' expected) := by
  -- Relabelling keeps the constructor, so the callee is odd afterwards as well.
  have hodd' : (f.relabeled ρ).isOddCallee = true := by
    cases f <;> exact hodd
  rw [Expr.relabeled, Expr.typed_call_of_odd hodd, Expr.typed_call_of_odd hodd']
  refine (Typer.Follows.discard (.note f hf)).bind fun _ => ?_
  exact (Typer.Follows.discard has).bind fun _ => .pure _

include h

mutual

theorem Expr.typed_follows : ∀ (e : Expr) (expected : Option DataType),
    Follows ρ (e.typed c expected) ((e.relabeled ρ).typed (c.against r) expected)
  | .literal .., _ | .this _, _ | .classLit .., _ => .pure _
  | .super _, _ => by
    simp only [Expr.relabeled, Expr.typed, Context.superclass?_against h]
    exact .pure _
  | .name i, _ => by
    simp only [Expr.relabeled, Expr.typed]
    refine .read fun s => ?_
    rw [Ident.name_relabeled, show (s.relabeled ρ).scope = s.scope.relabeled ρ from rfl,
      Context.nameType_against h]
    exact .pure _
  | .field e n _, _ => by
    simp only [Expr.relabeled, Expr.typed]
    refine (Follows.note e (Expr.typed_follows e none)).bind fun t => .read fun s => ?_
    rw [Ident.name_relabeled, show (s.relabeled ρ).scope = s.scope.relabeled ρ from rfl,
      Context.fieldType_against h]
    exact .pure _
  | .call id f as s, _ => by
    have hf := Expr.typed_follows f none
    have has := Expr.allTyped_follows as none
    cases f with
    | this t =>
      simp only [Expr.relabeled, Expr.typed]
      exact (Follows.discard has).bind fun _ => .pure _
    | super t =>
      simp only [Expr.relabeled, Expr.typed]
      exact (Follows.discard has).bind fun _ => .pure _
    | name i =>
      simp only [Expr.relabeled, Expr.typed]
      refine has.bind fun ts => ?_
      rw [Ident.name_relabeled, Context.ownCallType_against h]
      exact .pure _
    | field e n t =>
      simp only [Expr.relabeled, Expr.typed]
      refine (Follows.note e (Expr.typed_follows e none)).bind fun t => .read fun s => ?_
      refine has.bind fun ts => ?_
      rw [Ident.name_relabeled, show (s.relabeled ρ).scope = s.scope.relabeled ρ from rfl,
        Context.receiverType_against h, Context.callType_against h]
      exact .pure _
    | _ => exact Expr.call_follows rfl hf has
  | .new t as _, _ | .newAnonymous t as _ _, _ | .newArray t as _, _ => by
    simp only [Expr.relabeled, Expr.typed, Context.valueType_against h]
    exact (Follows.discard (Expr.allTyped_follows as none)).bind fun _ => .pure _
  | .newArrayOf t ds es _ _, _ => by
    simp only [Expr.relabeled, Expr.typed, Context.valueType_against h]
    refine (Follows.discard (Expr.allTyped_follows ds none)).bind fun _ => ?_
    exact (Follows.discard (Expr.allTyped_follows es _)).bind fun _ => .pure _
  | .arrayInit es _, expected => by
    simp only [Expr.relabeled, Expr.typed]
    exact (Follows.discard (Expr.allTyped_follows es _)).bind fun _ => .pure _
  | .index a b _, _ => by
    simp only [Expr.relabeled, Expr.typed]
    refine (Follows.note a (Expr.typed_follows a none)).bind fun t => ?_
    exact (Follows.discard (.note b (Expr.typed_follows b none))).bind fun _ => .pure _
  | .unary _ e _, _ => by
    simp only [Expr.relabeled, Expr.typed]
    exact (Follows.note e (Expr.typed_follows e none)).bind fun t => .pure _
  | .update e _ _, _ => by
    simp only [Expr.relabeled, Expr.typed]
    exact .note e (Expr.typed_follows e none)
  | .paren e _, expected => by
    simp only [Expr.relabeled, Expr.typed]
    exact .note e (Expr.typed_follows e expected)
  | .binary a _ b _, _ => by
    simp only [Expr.relabeled, Expr.typed]
    refine (Follows.note a (Expr.typed_follows a none)).bind fun t => ?_
    exact (Follows.note b (Expr.typed_follows b none)).bind fun u => .pure _
  | .instanceOf e t none _, _ => by
    simp only [Expr.relabeled, Expr.typed, Option.map_none]
    exact (Follows.discard (.note e (Expr.typed_follows e none))).bind fun _ => .pure _
  | .instanceOf e t (some n) _, _ => by
    simp only [Expr.relabeled, Expr.typed, Option.map_some, Context.valueType_against h]
    refine (Follows.discard (.note e (Expr.typed_follows e none))).bind fun _ => ?_
    exact (Follows.declare n _).bind fun _ => .pure _
  | .assign a _ b _, _ => by
    simp only [Expr.relabeled, Expr.typed]
    refine (Follows.note a (Expr.typed_follows a none)).bind fun t => ?_
    exact (Follows.discard (.note b (Expr.typed_follows b t))).bind fun _ => .pure _
  | .conditional e a b _, _ => by
    simp only [Expr.relabeled, Expr.typed]
    refine (Follows.discard (.note e (Expr.typed_follows e none))).bind fun _ => ?_
    refine (Follows.note a (Expr.typed_follows a none)).bind fun t => ?_
    refine (Follows.note b (Expr.typed_follows b none)).bind fun u => ?_
    simp only [Context.against, h.joinTypes]
    exact .pure _
  | .cast t e _, _ => by
    simp only [Expr.relabeled, Expr.typed, Context.valueType_against h]
    exact (Follows.discard (.note e (Expr.typed_follows e none))).bind fun _ => .pure _
  | .lambda ps e _, _ => by
    simp only [Expr.relabeled, Expr.typed]
    refine Follows.enter.bind fun _ => ?_
    refine (Follows.forM (LambdaParam.follows_declare h)).bind fun _ => ?_
    refine (Follows.discard (.note e (Expr.typed_follows e none))).bind fun _ => ?_
    exact Follows.leave.bind fun _ => .pure _
  | .blockLambda ps b _, _ => by
    simp only [Expr.relabeled, Expr.typed]
    refine Follows.enter.bind fun _ => ?_
    refine (Follows.forM (LambdaParam.follows_declare h)).bind fun _ => ?_
    exact (Block.typed_follows b).bind fun _ => Follows.leave.bind fun _ => .pure _
  | .methodRef e _ _, _ => by
    simp only [Expr.relabeled, Expr.typed]
    exact (Follows.discard (.note e (Expr.typed_follows e none))).bind fun _ => .pure _

theorem Expr.allTyped_follows : ∀ (es : List Expr) (expected : Option DataType),
    Follows ρ (Expr.allTyped c expected es)
      (Expr.allTyped (c.against r) expected (Expr.allRelabeled ρ es))
  | [], _ => .pure _
  | e :: es, expected => by
    simp only [Expr.allRelabeled, Expr.allTyped]
    refine (Follows.note e (Expr.typed_follows e expected)).bind fun t => ?_
    exact (Expr.allTyped_follows es expected).bind fun ts => .pure _

theorem Block.typed_follows : ∀ b : Block,
    Follows ρ (b.typed c) ((b.relabeled ρ).typed (c.against r))
  | ⟨ss, _⟩ => by
    simp only [Block.relabeled, Block.typed]
    exact Follows.enter.bind fun _ => (Stmt.allTyped_follows ss).bind fun _ => .leave

theorem Stmt.typed_follows : ∀ s : Stmt,
    Follows ρ (s.typed c) ((s.relabeled ρ).typed (c.against r))
  | .block b => by
    simp only [Stmt.relabeled, Stmt.typed]
    exact Block.typed_follows b
  | .localVar _ t vs _ => by
    simp only [Stmt.relabeled, Stmt.typed, TypeExpr.isInferred_relabeled,
      Context.valueType_against h]
    split
    · exact VarDeclarator.allInferred_follows vs
    · exact VarDeclarator.allTyped_follows vs _
  | .localType _ | .breakTo .. | .continueTo .. | .empty _ => .pure _
  | .expr e _ | .throwing e _ => by
    simp only [Stmt.relabeled, Stmt.typed]
    exact .discard (.note e (Expr.typed_follows e none))
  | .ifThen e a _ | .whileLoop e a _ => by
    simp only [Stmt.relabeled, Stmt.typed]
    refine (Follows.discard (.note e (Expr.typed_follows e none))).bind fun _ => ?_
    exact Follows.enter.bind fun _ => (Stmt.typed_follows a).bind fun _ => .leave
  | .ifElse e a b _ => by
    simp only [Stmt.relabeled, Stmt.typed]
    refine (Follows.discard (.note e (Expr.typed_follows e none))).bind fun _ => ?_
    refine Follows.enter.bind fun _ => (Stmt.typed_follows a).bind fun _ => ?_
    refine Follows.leave.bind fun _ => ?_
    exact Follows.enter.bind fun _ => (Stmt.typed_follows b).bind fun _ => .leave
  | .doLoop a e _ => by
    simp only [Stmt.relabeled, Stmt.typed]
    refine Follows.enter.bind fun _ => (Stmt.typed_follows a).bind fun _ => ?_
    exact Follows.leave.bind fun _ => .discard (.note e (Expr.typed_follows e none))
  | .forLoop i none us a _ => by
    simp only [Stmt.relabeled, Stmt.typed, Expr.optionRelabeled]
    refine Follows.enter.bind fun _ => (Stmt.allTyped_follows i).bind fun _ => ?_
    refine (Follows.discard (Expr.allTyped_follows us none)).bind fun _ => ?_
    refine Follows.enter.bind fun _ => (Stmt.typed_follows a).bind fun _ => ?_
    exact Follows.leave.bind fun _ => .leave
  | .forLoop i (some e) us a _ => by
    simp only [Stmt.relabeled, Stmt.typed, Expr.optionRelabeled]
    refine Follows.enter.bind fun _ => (Stmt.allTyped_follows i).bind fun _ => ?_
    refine (Follows.discard (.note e (Expr.typed_follows e none))).bind fun _ => ?_
    refine (Follows.discard (Expr.allTyped_follows us none)).bind fun _ => ?_
    refine Follows.enter.bind fun _ => (Stmt.typed_follows a).bind fun _ => ?_
    exact Follows.leave.bind fun _ => .leave
  | .forEach _ t n e a _ => by
    simp only [Stmt.relabeled, Stmt.typed, TypeExpr.isInferred_relabeled,
      Context.valueType_against h]
    refine Follows.enter.bind fun _ => ?_
    refine (Follows.note e (Expr.typed_follows e none)).bind fun iterable => ?_
    refine (Follows.declare n _).bind fun _ => ?_
    refine Follows.enter.bind fun _ => (Stmt.typed_follows a).bind fun _ => ?_
    exact Follows.leave.bind fun _ => .leave
  | .ret none _ => .pure _
  | .ret (some e) _ => by
    simp only [Stmt.relabeled, Stmt.typed, Expr.optionRelabeled]
    exact .discard (.note e (Expr.typed_follows e none))
  | .tryCatch rs b cs none _ => by
    simp only [Stmt.relabeled, Stmt.typed, Block.optionRelabeled]
    refine Follows.enter.bind fun _ => (Stmt.allTyped_follows rs).bind fun _ => ?_
    refine (Block.typed_follows b).bind fun _ => Follows.leave.bind fun _ => ?_
    exact (CatchClause.allTyped_follows cs).bind fun _ => .pure _
  | .tryCatch rs b cs (some f) _ => by
    simp only [Stmt.relabeled, Stmt.typed, Block.optionRelabeled]
    refine Follows.enter.bind fun _ => (Stmt.allTyped_follows rs).bind fun _ => ?_
    refine (Block.typed_follows b).bind fun _ => Follows.leave.bind fun _ => ?_
    exact (CatchClause.allTyped_follows cs).bind fun _ => Block.typed_follows f
  | .switch e cs _ => by
    simp only [Stmt.relabeled, Stmt.typed]
    refine (Follows.discard (.note e (Expr.typed_follows e none))).bind fun _ => ?_
    exact Follows.enter.bind fun _ => (SwitchCase.allTyped_follows cs).bind fun _ => .leave
  | .synchronized e b _ => by
    simp only [Stmt.relabeled, Stmt.typed]
    refine (Follows.discard (.note e (Expr.typed_follows e none))).bind fun _ => ?_
    exact Block.typed_follows b
  | .labeled _ a _ => by
    simp only [Stmt.relabeled, Stmt.typed]
    exact Stmt.typed_follows a
  | .assertion e none _ => by
    simp only [Stmt.relabeled, Stmt.typed, Expr.optionRelabeled]
    exact (Follows.discard (.note e (Expr.typed_follows e none))).bind fun _ => .pure _
  | .assertion e (some m) _ => by
    simp only [Stmt.relabeled, Stmt.typed, Expr.optionRelabeled]
    refine (Follows.discard (.note e (Expr.typed_follows e none))).bind fun _ => ?_
    exact .discard (.note m (Expr.typed_follows m none))

theorem Stmt.allTyped_follows : ∀ ss : List Stmt,
    Follows ρ (Stmt.allTyped c ss) (Stmt.allTyped (c.against r) (Stmt.allRelabeled ρ ss))
  | [] => .pure _
  | s :: ss => by
    simp only [Stmt.allRelabeled, Stmt.allTyped]
    exact (Stmt.typed_follows s).bind fun _ => Stmt.allTyped_follows ss

theorem VarDeclarator.allTyped_follows : ∀ (vs : List VarDeclarator) (declared : Option DataType),
    Follows ρ (VarDeclarator.allTyped c declared vs)
      (VarDeclarator.allTyped (c.against r) declared (VarDeclarator.allRelabeled ρ vs))
  | [], _ => .pure _
  | ⟨n, _, none, _⟩ :: vs, declared => by
    simp only [VarDeclarator.allRelabeled, VarDeclarator.relabeled, Expr.optionRelabeled,
      VarDeclarator.allTyped]
    exact (Follows.declare n _).bind fun _ => VarDeclarator.allTyped_follows vs declared
  | ⟨n, _, some e, _⟩ :: vs, declared => by
    simp only [VarDeclarator.allRelabeled, VarDeclarator.relabeled, Expr.optionRelabeled,
      VarDeclarator.allTyped]
    refine (Follows.discard (.note e (Expr.typed_follows e _))).bind fun _ => ?_
    exact (Follows.declare n _).bind fun _ => VarDeclarator.allTyped_follows vs declared

theorem VarDeclarator.allInferred_follows : ∀ vs : List VarDeclarator,
    Follows ρ (VarDeclarator.allInferred c vs)
      (VarDeclarator.allInferred (c.against r) (VarDeclarator.allRelabeled ρ vs))
  | [] => .pure _
  | ⟨n, _, none, _⟩ :: vs => by
    simp only [VarDeclarator.allRelabeled, VarDeclarator.relabeled, Expr.optionRelabeled,
      VarDeclarator.allInferred]
    exact (Follows.declare n none).bind fun _ => VarDeclarator.allInferred_follows vs
  | ⟨n, _, some e, _⟩ :: vs => by
    simp only [VarDeclarator.allRelabeled, VarDeclarator.relabeled, Expr.optionRelabeled,
      VarDeclarator.allInferred]
    refine (Follows.note e (Expr.typed_follows e none)).bind fun t => ?_
    exact (Follows.declare n t).bind fun _ => VarDeclarator.allInferred_follows vs

theorem CatchClause.allTyped_follows : ∀ cs : List CatchClause,
    Follows ρ (CatchClause.allTyped c cs)
      (CatchClause.allTyped (c.against r) (CatchClause.allRelabeled ρ cs))
  | [] => .pure _
  | ⟨_, ts, n, b, _⟩ :: cs => by
    simp only [CatchClause.allRelabeled, CatchClause.relabeled, CatchClause.allTyped]
    have htype : (ts.map (TypeExpr.relabeled ρ)).head?.bind (c.against r).valueType
        = ts.head?.bind c.valueType := by
      rw [List.head?_map, Option.bind_map]
      exact congrArg (Option.bind ts.head?) (funext fun t => c.valueType_against h ρ t)
    rw [htype]
    refine Follows.enter.bind fun _ => (Follows.declare n _).bind fun _ => ?_
    refine (Block.typed_follows b).bind fun _ => Follows.leave.bind fun _ => ?_
    exact CatchClause.allTyped_follows cs

theorem SwitchCase.allTyped_follows : ∀ cs : List SwitchCase,
    Follows ρ (SwitchCase.allTyped c cs)
      (SwitchCase.allTyped (c.against r) (SwitchCase.allRelabeled ρ cs))
  | [] => .pure _
  | ⟨ls, ss, _⟩ :: cs => by
    simp only [SwitchCase.allRelabeled, SwitchCase.relabeled, SwitchCase.allTyped]
    refine (Follows.discard (Expr.allTyped_follows ls none)).bind fun _ => ?_
    exact (Stmt.allTyped_follows ss).bind fun _ => SwitchCase.allTyped_follows cs

end

/-! ### Members -/

theorem Param.follows_declare (p : Param) :
    Follows ρ (declare p.name (c.valueType p.type))
      (declare (p.relabeled ρ).name ((c.against r).valueType (p.relabeled ρ).type)) := by
  obtain ⟨m, t, varargs, n, s⟩ := p
  rw [relabeled, Context.valueType_against h]
  exact .declare _ _

theorem typeFields_follows (declared : Option DataType) (vs : List VarDeclarator) :
    Follows ρ (typeFields c declared vs)
      (typeFields (c.against r) declared (vs.map (VarDeclarator.relabeled ρ))) := by
  refine Follows.forM fun v => ?_
  obtain ⟨n, dims, e, s⟩ := v
  cases e with
  | none => exact .pure _
  | some e => exact .discard (.note e (Expr.typed_follows h e _))

theorem Member.typed_follows (m : Member) :
    Follows ρ (m.typed c) ((m.relabeled ρ).typed (c.against r)) := by
  cases m with
  | field m t vs s =>
    simp only [relabeled, typed, VarDeclarator.allRelabeled_eq_map, Context.valueType_against h]
    exact typeFields_follows h _ vs
  | method m tps t n ps ts d b s =>
    simp only [relabeled, typed, Param.allRelabeled_eq_map, Block.optionRelabeled_eq_map,
      TypeParam.names_relabeled]
    have h : (c.addTypeVars (tps.map (·.name.name))).registry.Agrees r := h
    refine (Follows.forM (Param.follows_declare h)).bind fun _ => ?_
    cases b with
    | none => exact .pure _
    | some b => exact Block.typed_follows h b
  | constructor m tps n ps ts b s =>
    simp only [relabeled, typed, Param.allRelabeled_eq_map, TypeParam.names_relabeled]
    have h : (c.addTypeVars (tps.map (·.name.name))).registry.Agrees r := h
    exact (Follows.forM (Param.follows_declare h)).bind fun _ => Block.typed_follows h b
  | initializer st b s =>
    simp only [relabeled, typed]
    exact Block.typed_follows h b
  | type d => exact .pure _

/-- **The types of a relabelled member** are those of the member. -/
theorem Member.typeTable_relabeled (m : Member) :
    (m.relabeled ρ).typeTable (c.against r) = TypeTable.relabeled ρ (m.typeTable c) := by
  have hrun := Member.typed_follows h (ρ := ρ) m ⟨.empty, []⟩
  rw [typeTable, typeTable]
  exact congrArg (fun x => x.2.table) hrun

end

end JavaGraft

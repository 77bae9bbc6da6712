import JavaGraft.Extension.Decision
import JavaGraft.Proofs.Extension.Candidates
import JavaGraft.Proofs.Typing.Asking

/-!
# Typing a member reaches every candidate

The candidates are found by one walk, types by another. Typing a member *visits* an expression if
it types it at some moment and enters the type it finds (`JavaGraft.Typer.Visits`). It visits the
receiver and the arguments of every call that stands in the member's own code
(`JavaGraft.Member.typed_visits`), so it misses no candidate, however deep in lambdas, handlers,
labels of a `switch` or initializers of arrays the candidate stands.

What is found may well be nothing, as it is for a name of a package. A literal has a type whatever
has been declared, and it is the same each time; so a literal among receiver and arguments of a
candidate is never without an answer
(`JavaGraft.Attribution.resolve_literal_operand`).
-/

namespace JavaGraft

/-! ### What is asked at a call -/

/-- The receiver of a call, if it is written, and its arguments. -/
def Call.operands (c : Call) : List Expr := c.receiver?.toList ++ c.args

namespace Place

/-- The operands of the calls of a listing that are not foreign. -/
def operands (xs : List (Place × Call)) : List Expr := (own xs).flatMap (·.2.operands)

@[simp] theorem operands_nil : operands [] = [] := rfl

@[simp] theorem operands_append (xs ys : List (Place × Call)) :
    operands (xs ++ ys) = operands xs ++ operands ys := by
  rw [operands, own_append, List.flatMap_append]
  rfl

@[simp] theorem operands_cons_inside (c : Call) (xs : List (Place × Call)) :
    operands ((inside, c) :: xs) = c.operands ++ operands xs := rfl

end Place

@[simp] theorem Modifiers.operands_foreign (m : Modifiers) :
    Place.operands (m.calls .foreign) = [] := by
  rw [Place.operands, own_foreign, List.flatMap_nil]

@[simp] theorem TypeDecl.operands_foreign (d : TypeDecl) :
    Place.operands (d.calls .foreign) = [] := by
  rw [Place.operands, own_foreign, List.flatMap_nil]

@[simp] theorem Member.operands_foreign (ms : List Member) :
    Place.operands (Member.allCalls .foreign ms) = [] := by
  rw [Place.operands, own_foreign, List.flatMap_nil]

@[simp] theorem Param.operands_calls (ps : List Param) :
    Place.operands (Param.allCalls ps) = [] := by
  rw [Place.operands, own_calls, List.flatMap_nil]

@[simp] theorem Element.operands_foreign (v : Option Element) :
    Place.operands (Element.optionCalls .foreign v) = [] := by
  rw [Place.operands, own_foreign, List.flatMap_nil]

/-- Whether an expression stands on its own makes no difference to the operands. -/
@[simp] theorem Expr.operands_slot :
    ∀ e : Expr, Place.operands (e.calls .slot) = Place.operands (e.calls .inside)
  | .paren e _ => e.operands_slot
  | .call .. | .literal .. | .name _ | .this _ | .super _ | .classLit .. | .field .. | .unary ..
  | .update .. | .methodRef .. | .cast .. | .instanceOf .. | .lambda .. | .new ..
  | .newAnonymous .. | .newArray .. | .newArrayOf .. | .arrayInit .. | .index .. | .binary ..
  | .assign .. | .conditional .. | .blockLambda .. => rfl

@[simp] theorem Expr.operands_allSlot (es : List Expr) :
    Place.operands (Expr.allCalls .slot es) = Place.operands (Expr.allCalls .inside es) := by
  induction es with
  | nil => rfl
  | cons e es ih => simp [Expr.allCalls, ih]

/-! ### Visits -/

namespace Context

/-- At some moment of typing, the expression is found to have the type. -/
def Finds (c : Context) (e : Expr) (t : DataType) : Prop :=
  ∃ expected s, ((e.typed c expected).run s).1 = some t

/-- At some moment the expression was typed, and the type that was found, if any, is in the
table. -/
def Enters (c : Context) (e : Expr) (table : TypeTable) : Prop :=
  ∃ expected s, ∀ t, ((e.typed c expected).run s).1 = some t → (e, t) ∈ table

/-- What is in a table is in a larger one. -/
theorem Enters.mono {c : Context} {e : Expr} {table table' : TypeTable} (h : c.Enters e table)
    (hsub : table ⊆ table') : c.Enters e table' := by
  obtain ⟨expected, s, hs⟩ := h
  exact ⟨expected, s, fun t ht => hsub (hs t ht)⟩

end Context

namespace Typer

variable {c : Context} {α β : Type} {x : Typer α} {f : α → Typer β} {es es' : List Expr}

/-- **A step of typing that visits expressions**: each of them is typed and entered, nothing is
entered that is not found, and nothing that was in the table is lost. -/
structure Visits (c : Context) (x : Typer α) (es : List Expr) : Prop where
  keeps : ∀ s, s.table ⊆ (x.run s).2.table
  finds : ∀ s e t, (e, t) ∈ (x.run s).2.table → (e, t) ∈ s.table ∨ c.Finds e t
  enters : ∀ s, ∀ e ∈ es, c.Enters e (x.run s).2.table

namespace Visits

/-- A step that leaves the table as it is. -/
theorem of_table (h : ∀ s, (x.run s).2.table = s.table) : Visits c x [] where
  keeps s := by rw [h s]; exact List.Subset.refl _
  finds s e t ht := .inl (by rwa [h s] at ht)
  enters _ _ he := absurd he List.not_mem_nil

theorem mono (h : Visits c x es) (hsub : es' ⊆ es) : Visits c x es' :=
  ⟨h.keeps, h.finds, fun s e he => h.enters s e (hsub he)⟩

theorem right (h : Visits c x (es ++ es')) : Visits c x es' :=
  h.mono (List.subset_append_right es es')

theorem pure (a : α) : Visits c (Pure.pure a) [] := .of_table fun _ => rfl

theorem bind (hx : Visits c x es) (hf : ∀ a, Visits c (f a) es') :
    Visits c (x >>= f) (es ++ es') where
  keeps s := List.Subset.trans (hx.keeps s) ((hf _).keeps _)
  finds s e t ht := by
    rcases (hf _).finds _ e t ht with ht | ht
    · exact hx.finds s e t ht
    · exact .inr ht
  enters s e he := by
    rcases List.mem_append.mp he with he | he
    · exact (hx.enters s e he).mono ((hf _).keeps _)
    · exact (hf _).enters _ e he

/-- What comes afterwards visits nothing more. -/
theorem before (hx : Visits c x es) (hf : ∀ a, Visits c (f a) []) : Visits c (x >>= f) es := by
  simpa using hx.bind hf

/-- What comes first visits nothing. -/
theorem after (hx : Visits c x []) (hf : ∀ a, Visits c (f a) es) : Visits c (x >>= f) es :=
  hx.bind hf

theorem discard (hx : Visits c x es) : Visits c (Functor.discard x) es :=
  ⟨hx.keeps, hx.finds, hx.enters⟩

/-- Reading the state visits nothing. -/
theorem read {f : TyperState → Typer β} (hf : ∀ s, Visits c (f s) es) :
    Visits c (MonadState.get >>= f) es :=
  ⟨fun s => (hf s).keeps s, fun s => (hf s).finds s, fun s => (hf s).enters s⟩

theorem enter : Visits c Typer.enter [] := .of_table fun _ => rfl

theorem leave : Visits c Typer.leave [] := .of_table fun _ => rfl

theorem declare (name : Ident) (type : Option DataType) :
    Visits c (Typer.declare name type) [] := .of_table fun _ => rfl

theorem forM {xs : List α} {g : α → Typer PUnit} (hg : ∀ x, Visits c (g x) []) :
    Visits c (xs.forM g) [] :=
  forM_induction (C := (Visits c · [])) (.pure _) (fun _ _ hx hy => hx.before fun _ => hy)
    fun x _ => hg x

/-- What noting adds to the table. -/
theorem table_note (e : Expr) (p : Typer (Option DataType)) (s : TyperState) :
    ((Typer.note e p).run s).2.table
      = (p.run s).1.toList.map (fun t => (e, t)) ++ (p.run s).2.table := by
  rw [run_note]

/-- **An expression is visited by being typed and noted.** -/
theorem entry {e : Expr} {expected : Option DataType} (h : Visits c (e.typed c expected) es) :
    Visits c (Typer.note e (e.typed c expected)) (e :: es) where
  keeps s := by
    rw [table_note]
    exact List.Subset.trans (h.keeps s) (List.subset_append_right _ _)
  finds s e' t ht := by
    rw [table_note, List.mem_append, List.mem_map] at ht
    rcases ht with ⟨t', ht', heq⟩ | ht
    · obtain ⟨rfl, rfl⟩ := Prod.mk.inj heq
      exact .inr ⟨expected, s, Option.mem_toList.mp ht'⟩
    · exact h.finds s e' t ht
  enters s e' he := by
    rw [table_note]
    rcases List.mem_cons.mp he with rfl | he
    · refine ⟨expected, s, fun t ht => List.mem_append_left _ ?_⟩
      exact List.mem_map_of_mem (Option.mem_toList.mpr ht)
    · exact (h.enters s e' he).mono (List.subset_append_right _ _)

/-- The same, if only what is below the expression is of interest. -/
theorem note {e : Expr} {expected : Option DataType} (h : Visits c (e.typed c expected) es) :
    Visits c (Typer.note e (e.typed c expected)) es :=
  h.entry.mono (List.subset_cons_self e es)

end Visits

end Typer

/-! ### Expressions and statements -/

open Typer Place

section

-- The linter does not see what the theorems of a mutual block pass on to each other.
set_option linter.unusedSectionVars false

variable {c : Context}

/-- Operands come before what is below them in the listing, but between it in typing. -/
theorem operands_regroup (es fs es' fs' : List Expr) :
    (es ++ fs) ++ (es' ++ fs') ⊆ (es ++ es') ++ (fs ++ fs') := by
  intro e he
  simp only [List.mem_append] at he ⊢
  tauto

mutual

theorem Expr.typed_visits : ∀ (e : Expr) (expected : Option DataType),
    Visits c (e.typed c expected) (operands (e.calls .inside))
  | .literal .., _ | .this _, _ | .super _, _ | .classLit .., _ => .pure _
  | .name _, _ => by
    simp only [Expr.typed]
    exact .read fun _ => .pure _
  | .field e n _, _ => by
    simp only [Expr.typed]
    exact (Expr.typed_visits e none).note.before fun _ => .read fun _ => .pure _
  | .call id f as s, _ => by
    have hf := Expr.typed_visits f none
    have has := Expr.allTyped_visits as none
    simp only [Expr.calls, operands_cons_inside, operands_append, below_inside]
    cases f with
    | this t | super t =>
      simp only [Expr.typed]
      exact has.discard.before fun _ => .pure _
    | name i =>
      simp only [Expr.typed]
      exact has.before fun _ => .pure _
    | field e n t =>
      simp only [Expr.typed]
      have he := (Expr.typed_visits e none).entry
      refine (he.bind fun _ => .read fun _ => has.before fun _ => .pure _).mono ?_
      exact operands_regroup [e] as _ _
    | _ =>
      simp only [Expr.typed]
      refine (hf.note.discard.bind fun _ => has.discard.before fun _ => .pure _).mono ?_
      exact operands_regroup [] as _ _
  | .new _ as _, _ | .newArray _ as _, _ => by
    simp only [Expr.typed]
    exact (Expr.allTyped_visits as none).right.discard.before fun _ => .pure _
  | .newAnonymous _ as ms _, _ => by
    simp only [Expr.calls, operands_append, Member.operands_foreign, List.append_nil, Expr.typed]
    exact (Expr.allTyped_visits as none).right.discard.before fun _ => .pure _
  | .newArrayOf _ ds es _ _, _ => by
    simp only [Expr.calls, operands_append, Expr.typed]
    refine (Expr.allTyped_visits ds none).right.discard.bind fun _ => ?_
    exact (Expr.allTyped_visits es _).right.discard.before fun _ => .pure _
  | .arrayInit es _, _ => by
    simp only [Expr.typed]
    exact (Expr.allTyped_visits es _).right.discard.before fun _ => .pure _
  | .index a b _, _ => by
    simp only [Expr.calls, operands_append, Expr.typed]
    refine (Expr.typed_visits a none).note.bind fun _ => ?_
    exact (Expr.typed_visits b none).note.discard.before fun _ => .pure _
  | .unary _ e _, _ => by
    simp only [Expr.typed]
    exact (Expr.typed_visits e none).note.before fun _ => .pure _
  | .update e _ _, _ => by
    simp only [Expr.typed]
    exact (Expr.typed_visits e none).note
  | .paren e _, expected => by
    simp only [Expr.typed]
    exact (Expr.typed_visits e expected).note
  | .binary a _ b _, _ => by
    simp only [Expr.calls, operands_append, Expr.typed]
    refine (Expr.typed_visits a none).note.bind fun _ => ?_
    exact (Expr.typed_visits b none).note.before fun _ => .pure _
  | .instanceOf e _ none _, _ => by
    simp only [Expr.typed]
    exact (Expr.typed_visits e none).note.discard.before fun _ => .pure _
  | .instanceOf e _ (some n) _, _ => by
    simp only [Expr.typed]
    refine (Expr.typed_visits e none).note.discard.before fun _ => ?_
    exact (Visits.declare n _).before fun _ => .pure _
  | .assign a _ b _, _ => by
    simp only [Expr.calls, operands_append, Expr.typed]
    refine (Expr.typed_visits a none).note.bind fun _ => ?_
    exact (Expr.typed_visits b _).note.discard.before fun _ => .pure _
  | .conditional e a b _, _ => by
    simp only [Expr.calls, operands_append, Expr.typed, List.append_assoc]
    refine (Expr.typed_visits e none).note.discard.bind fun _ => ?_
    refine (Expr.typed_visits a none).note.bind fun _ => ?_
    exact (Expr.typed_visits b none).note.before fun _ => .pure _
  | .cast _ e _, _ | .methodRef e _ _, _ => by
    simp only [Expr.typed]
    exact (Expr.typed_visits e none).note.discard.before fun _ => .pure _
  | .lambda ps e _, _ => by
    simp only [Expr.typed]
    refine Visits.enter.after fun _ => (Visits.forM fun p => .declare _ _).after fun _ => ?_
    refine (Expr.typed_visits e none).note.discard.before fun _ => ?_
    exact Visits.leave.before fun _ => .pure _
  | .blockLambda ps b _, _ => by
    simp only [Expr.typed]
    refine Visits.enter.after fun _ => (Visits.forM fun p => .declare _ _).after fun _ => ?_
    exact (Block.typed_visits b).before fun _ => Visits.leave.before fun _ => .pure _

theorem Expr.allTyped_visits : ∀ (es : List Expr) (expected : Option DataType),
    Visits c (Expr.allTyped c expected es) (es ++ operands (Expr.allCalls .inside es))
  | [], _ => .pure _
  | e :: es, expected => by
    simp only [Expr.allCalls, operands_append, Expr.allTyped]
    have he := (Expr.typed_visits e expected).entry
    refine (he.bind fun _ => (Expr.allTyped_visits es expected).before fun _ => .pure _).mono ?_
    exact operands_regroup [e] es _ _

theorem Block.typed_visits : ∀ b : Block, Visits c (b.typed c) (operands (b.calls .inside))
  | ⟨ss, _⟩ => by
    simp only [Block.typed]
    exact Visits.enter.after fun _ => (Stmt.allTyped_visits ss).before fun _ => .leave

theorem Stmt.typed_visits : ∀ s : Stmt, Visits c (s.typed c) (operands (s.calls .inside))
  | .block b => by
    simp only [Stmt.typed]
    exact Block.typed_visits b
  | .localVar _ t vs _ => by
    simp only [Stmt.calls, operands_append, Modifiers.operands_foreign, List.nil_append,
      filled_inside, Stmt.typed]
    split
    · exact VarDeclarator.allInferred_visits vs
    · exact VarDeclarator.allTyped_visits vs _
  | .localType d => by
    simp only [Stmt.calls, TypeDecl.operands_foreign, Stmt.typed]
    exact .pure _
  | .breakTo .. | .continueTo .. | .empty _ => .pure _
  | .expr e _ | .throwing e _ => by
    simp only [Stmt.calls, filled_inside, Expr.operands_slot, Stmt.typed]
    exact (Expr.typed_visits e none).note.discard
  | .ifThen e a _ | .whileLoop e a _ => by
    simp only [Stmt.calls, operands_append, filled_inside, Expr.operands_slot, Stmt.typed]
    refine (Expr.typed_visits e none).note.discard.bind fun _ => Visits.enter.after fun _ => ?_
    exact (Stmt.typed_visits a).before fun _ => .leave
  | .ifElse e a b _ => by
    simp only [Stmt.calls, operands_append, filled_inside, Expr.operands_slot, Stmt.typed,
      List.append_assoc]
    refine (Expr.typed_visits e none).note.discard.bind fun _ => Visits.enter.after fun _ => ?_
    refine (Stmt.typed_visits a).bind fun _ => Visits.leave.after fun _ => ?_
    exact Visits.enter.after fun _ => (Stmt.typed_visits b).before fun _ => .leave
  | .doLoop a e _ => by
    simp only [Stmt.calls, operands_append, filled_inside, Expr.operands_slot, Stmt.typed]
    refine Visits.enter.after fun _ => (Stmt.typed_visits a).bind fun _ => ?_
    exact Visits.leave.after fun _ => (Expr.typed_visits e none).note.discard
  | .forLoop i none us a _ => by
    simp only [Stmt.calls, Expr.optionCalls, operands_append, List.append_nil, filled_inside,
      Expr.operands_allSlot, Stmt.typed, List.append_assoc]
    refine Visits.enter.after fun _ => (Stmt.allTyped_visits i).bind fun _ => ?_
    refine (Expr.allTyped_visits us none).right.discard.bind fun _ => Visits.enter.after fun _ => ?_
    exact (Stmt.typed_visits a).before fun _ => Visits.leave.before fun _ => .leave
  | .forLoop i (some e) us a _ => by
    simp only [Stmt.calls, Expr.optionCalls, operands_append, filled_inside, Expr.operands_slot,
      Expr.operands_allSlot, Stmt.typed, List.append_assoc]
    refine Visits.enter.after fun _ => (Stmt.allTyped_visits i).bind fun _ => ?_
    refine (Expr.typed_visits e none).note.discard.bind fun _ => ?_
    refine (Expr.allTyped_visits us none).right.discard.bind fun _ => Visits.enter.after fun _ => ?_
    exact (Stmt.typed_visits a).before fun _ => Visits.leave.before fun _ => .leave
  | .forEach _ t n e a _ => by
    simp only [Stmt.calls, operands_append, Modifiers.operands_foreign, List.nil_append,
      filled_inside, Expr.operands_slot, Stmt.typed]
    refine Visits.enter.after fun _ => (Expr.typed_visits e none).note.bind fun _ => ?_
    refine (Visits.declare n _).after fun _ => Visits.enter.after fun _ => ?_
    exact (Stmt.typed_visits a).before fun _ => Visits.leave.before fun _ => .leave
  | .ret none _ => .pure _
  | .ret (some e) _ => by
    simp only [Stmt.calls, Expr.optionCalls, filled_inside, Expr.operands_slot, Stmt.typed]
    exact (Expr.typed_visits e none).note.discard
  | .tryCatch rs b cs none _ => by
    simp only [Stmt.calls, Block.optionCalls, operands_append, List.append_nil, Stmt.typed,
      List.append_assoc]
    refine Visits.enter.after fun _ => (Stmt.allTyped_visits rs).bind fun _ => ?_
    refine (Block.typed_visits b).bind fun _ => Visits.leave.after fun _ => ?_
    exact (CatchClause.allTyped_visits cs).before fun _ => .pure _
  | .tryCatch rs b cs (some f) _ => by
    simp only [Stmt.calls, Block.optionCalls, operands_append, Stmt.typed, List.append_assoc]
    refine Visits.enter.after fun _ => (Stmt.allTyped_visits rs).bind fun _ => ?_
    refine (Block.typed_visits b).bind fun _ => Visits.leave.after fun _ => ?_
    exact (CatchClause.allTyped_visits cs).bind fun _ => Block.typed_visits f
  | .switch e cs _ => by
    simp only [Stmt.calls, operands_append, filled_inside, Expr.operands_slot, Stmt.typed]
    refine (Expr.typed_visits e none).note.discard.bind fun _ => Visits.enter.after fun _ => ?_
    exact (SwitchCase.allTyped_visits cs).before fun _ => .leave
  | .synchronized e b _ => by
    simp only [Stmt.calls, operands_append, filled_inside, Expr.operands_slot, Stmt.typed]
    exact (Expr.typed_visits e none).note.discard.bind fun _ => Block.typed_visits b
  | .labeled _ a _ => by
    simp only [Stmt.typed]
    exact Stmt.typed_visits a
  | .assertion e none _ => by
    simp only [Stmt.calls, Expr.optionCalls, List.append_nil, filled_inside, Expr.operands_slot,
      Stmt.typed]
    exact (Expr.typed_visits e none).note.discard.before fun _ => .pure _
  | .assertion e (some m) _ => by
    simp only [Stmt.calls, Expr.optionCalls, operands_append, filled_inside, Expr.operands_slot,
      Stmt.typed]
    refine (Expr.typed_visits e none).note.discard.bind fun _ => ?_
    exact (Expr.typed_visits m none).note.discard

theorem Stmt.allTyped_visits : ∀ ss : List Stmt,
    Visits c (Stmt.allTyped c ss) (operands (Stmt.allCalls .inside ss))
  | [] => .pure _
  | s :: ss => by
    simp only [Stmt.allCalls, operands_append, Stmt.allTyped]
    exact (Stmt.typed_visits s).bind fun _ => Stmt.allTyped_visits ss

theorem VarDeclarator.allTyped_visits : ∀ (vs : List VarDeclarator) (declared : Option DataType),
    Visits c (VarDeclarator.allTyped c declared vs) (operands (VarDeclarator.allCalls .slot vs))
  | [], _ => .pure _
  | ⟨n, _, none, _⟩ :: vs, declared => by
    simp only [VarDeclarator.allTyped]
    exact (Visits.declare n _).after fun _ => VarDeclarator.allTyped_visits vs declared
  | ⟨n, _, some e, _⟩ :: vs, declared => by
    simp only [VarDeclarator.allCalls, Expr.optionCalls, operands_append, Expr.operands_slot,
      VarDeclarator.allTyped]
    refine (Expr.typed_visits e _).note.discard.bind fun _ => ?_
    exact (Visits.declare n _).after fun _ => VarDeclarator.allTyped_visits vs declared

theorem VarDeclarator.allInferred_visits : ∀ vs : List VarDeclarator,
    Visits c (VarDeclarator.allInferred c vs) (operands (VarDeclarator.allCalls .slot vs))
  | [] => .pure _
  | ⟨n, _, none, _⟩ :: vs => by
    simp only [VarDeclarator.allInferred]
    exact (Visits.declare n none).after fun _ => VarDeclarator.allInferred_visits vs
  | ⟨n, _, some e, _⟩ :: vs => by
    simp only [VarDeclarator.allCalls, Expr.optionCalls, operands_append, Expr.operands_slot,
      VarDeclarator.allInferred]
    refine (Expr.typed_visits e none).note.bind fun t => ?_
    exact (Visits.declare n t).after fun _ => VarDeclarator.allInferred_visits vs

theorem CatchClause.allTyped_visits : ∀ cs : List CatchClause,
    Visits c (CatchClause.allTyped c cs) (operands (CatchClause.allCalls .inside cs))
  | [] => .pure _
  | ⟨_, ts, n, b, _⟩ :: cs => by
    simp only [CatchClause.allCalls, operands_append, Modifiers.operands_foreign, List.nil_append,
      CatchClause.allTyped]
    refine Visits.enter.after fun _ => (Visits.declare n _).after fun _ => ?_
    refine (Block.typed_visits b).bind fun _ => Visits.leave.after fun _ => ?_
    exact CatchClause.allTyped_visits cs

theorem SwitchCase.allTyped_visits : ∀ cs : List SwitchCase,
    Visits c (SwitchCase.allTyped c cs) (operands (SwitchCase.allCalls .inside cs))
  | [] => .pure _
  | ⟨ls, ss, _⟩ :: cs => by
    simp only [SwitchCase.allCalls, operands_append, below_inside, SwitchCase.allTyped,
      List.append_assoc]
    refine (Expr.allTyped_visits ls none).right.discard.bind fun _ => ?_
    exact (Stmt.allTyped_visits ss).bind fun _ => SwitchCase.allTyped_visits cs

end

end

/-! ### Members -/

/-- The initial values of fields are visited as those of variables are. -/
theorem typeFields_visits (c : Context) (declared : Option DataType) (vs : List VarDeclarator) :
    Visits c (typeFields c declared vs) (operands (VarDeclarator.allCalls .slot vs)) := by
  rw [typeFields]
  induction vs with
  | nil => exact .pure _
  | cons v vs ih =>
    obtain ⟨n, dims, e, s⟩ := v
    rw [VarDeclarator.allCalls, operands_append]
    cases e with
    | none => exact (Visits.pure _).bind fun _ => ih
    | some e =>
      rw [Expr.optionCalls, Expr.operands_slot]
      exact (Expr.typed_visits e _).note.discard.bind fun _ => ih

/-- **Typing a member visits the operands of its own calls**, its type parameters being declared. -/
theorem Member.typed_visits (c : Context) (m : Member) :
    ∃ c', Visits c' (m.typed c) (operands (m.calls .inside)) := by
  cases m with
  | field m t vs s =>
    refine ⟨c, ?_⟩
    simp only [Member.calls, operands_append, Modifiers.operands_foreign, List.nil_append]
    exact typeFields_visits c _ vs
  | method m tps t n ps ts d b s =>
    refine ⟨c.addTypeVars (tps.map (·.name.name)), ?_⟩
    simp only [Member.calls, operands_append, Modifiers.operands_foreign, Param.operands_calls,
      Element.operands_foreign, List.nil_append, Member.typed]
    refine (Visits.forM fun p => .declare _ _).after fun _ => ?_
    cases b with
    | none => exact .pure _
    | some b => exact Block.typed_visits b
  | constructor m tps n ps ts b s =>
    refine ⟨c.addTypeVars (tps.map (·.name.name)), ?_⟩
    simp only [Member.calls, operands_append, Modifiers.operands_foreign, Param.operands_calls,
      List.nil_append, Member.typed]
    exact (Visits.forM fun p => .declare _ _).after fun _ => Block.typed_visits b
  | initializer st b s => exact ⟨c, Block.typed_visits b⟩
  | type d =>
    refine ⟨c, ?_⟩
    rw [Member.calls, TypeDecl.operands_foreign]
    exact .pure _

/-- A literal has one type, whenever it is typed. -/
theorem Context.Finds.literal {c : Context} {v : Literal} {s : Span} {t : DataType}
    (h : c.Finds (.literal v s) t) : t = v.type := by
  obtain ⟨expected, st, h⟩ := h
  exact (Option.some.inj h).symm

namespace Attribution

/-- Every table that is kept is the table of its member at some place. -/
def Kept (a : Attribution) : Prop := ∀ x ∈ a.tables, ∃ c, x.2 = x.1.2.typeTable c

variable {a : Attribution}

theorem Kept.ensure (h : a.Kept) (site : Site) (m : Member) : (a.ensure site m).Kept := by
  rw [Attribution.ensure]
  split
  · exact h
  · split
    · exact h
    · next c _ =>
      intro x hx
      rcases List.mem_append.mp hx with hx | hx
      · exact h x hx
      · obtain rfl := List.mem_singleton.mp hx
        exact ⟨c, rfl⟩

/-- A member of a file that there is has a table once it has been asked for. -/
theorem Kept.lookup_ensure (h : a.Kept) {site : Site} (hfile : site.file < a.scopes.length)
    (m : Member) :
    ∃ c, (a.ensure site m).tables.lookup (site.file, m) = some (m.typeTable c) := by
  have hsome : ((a.ensure site m).tables.lookup (site.file, m)).isSome = true := by
    rw [Attribution.ensure]
    split
    · assumption
    · simp [context?, List.getElem?_eq_getElem hfile, List.lookup_append]
  obtain ⟨table, htable⟩ := Option.isSome_iff_exists.mp hsome
  obtain ⟨c, hc⟩ := h.ensure site m _ (mem_of_lookup htable)
  exact ⟨c, htable.trans (congrArg some hc)⟩

end Attribution

end JavaGraft

import JavaGraft.Proofs.Tree.Inside
import JavaGraft.Typing.Attribution

/-!
# What typing enters

Typing a member never looks at what is in the table already: it comes to the same types, leaves the
same local variables and puts the same entries in front, whatever the table is
(`JavaGraft.Typer.Writes`). And it enters nothing but expressions of the member
(`JavaGraft.Member.typed_writes`). So a table that several members share grows by the table that the
member would have alone.
-/

namespace JavaGraft

namespace Typer

variable {α β : Type} {x : Typer α} {f : α → Typer β} {os os' parts : List Outline} {o : Outline}
  {l : Label}

/-- **A step of typing that writes expressions of outlines**, and reads nothing but the local
variables. -/
def Writes (x : Typer α) (os : List Outline) : Prop :=
  ∀ scope, ∃ a scope' entries, (∀ p ∈ entries, p.1 ∈ Outline.allExprs os) ∧
    ∀ table, x.run ⟨scope, table⟩ = (a, ⟨scope', entries ++ table⟩)

namespace Writes

theorem mono (h : Writes x os) (hsub : Outline.allExprs os ⊆ Outline.allExprs os') :
    Writes x os' := by
  intro scope
  obtain ⟨a, scope', entries, hentries, hrun⟩ := h scope
  exact ⟨a, scope', entries, fun p hp => hsub (hentries p hp), hrun⟩

/-- A step that leaves the table as it is. -/
theorem still (h : ∀ scope, ∃ a scope', ∀ table, x.run ⟨scope, table⟩ = (a, ⟨scope', table⟩)) :
    Writes x os := by
  intro scope
  obtain ⟨a, scope', hrun⟩ := h scope
  exact ⟨a, scope', [], nofun, hrun⟩

theorem pure (a : α) : Writes (Pure.pure a) os := still fun scope => ⟨a, scope, fun _ => rfl⟩

theorem bind (hx : Writes x os) (hf : ∀ a, Writes (f a) os) : Writes (x >>= f) os := by
  intro scope
  obtain ⟨a, scope₁, entries, hentries, hrun⟩ := hx scope
  obtain ⟨b, scope₂, entries', hentries', hrun'⟩ := hf a scope₁
  refine ⟨b, scope₂, entries' ++ entries, fun p hp => ?_, fun table => ?_⟩
  · exact (List.mem_append.mp hp).elim (hentries' p) (hentries p)
  · change (f (x.run ⟨scope, table⟩).1).run (x.run ⟨scope, table⟩).2 = _
    rw [hrun table, hrun' (entries ++ table), List.append_assoc]

theorem discard (hx : Writes x os) : Writes (Functor.discard x) os := by
  intro scope
  obtain ⟨a, scope', entries, hentries, hrun⟩ := hx scope
  refine ⟨⟨⟩, scope', entries, hentries, fun table => ?_⟩
  change (PUnit.unit, (x.run ⟨scope, table⟩).2) = _
  rw [hrun table]

/-- Reading the local variables. -/
theorem read {f : TyperState → Typer β}
    (hf : ∀ scope table table', f ⟨scope, table⟩ = f ⟨scope, table'⟩) (h : ∀ s, Writes (f s) os) :
    Writes (MonadState.get >>= f) os := by
  intro scope
  obtain ⟨a, scope', entries, hentries, hrun⟩ := h ⟨scope, []⟩ scope
  refine ⟨a, scope', entries, hentries, fun table => ?_⟩
  change (f ⟨scope, table⟩).run ⟨scope, table⟩ = _
  rw [hf scope table [], hrun table]

theorem changeScope (g : LocalScope → LocalScope) : Writes (Typer.changeScope g) os :=
  still fun scope => ⟨(), g scope, fun _ => rfl⟩

theorem enter : Writes Typer.enter os := changeScope _

theorem leave : Writes Typer.leave os := changeScope _

theorem declare (name : Ident) (type : Option DataType) : Writes (Typer.declare name type) os :=
  changeScope _

theorem forM {xs : List α} {g : α → Typer PUnit} (hg : ∀ x ∈ xs, Writes (g x) os) :
    Writes (xs.forM g) os :=
  forM_induction (C := (Writes · os)) (.pure _) (fun _ _ hx hy => hx.bind fun _ => hy) hg

/-! #### Places in outlines -/

theorem left (h : Writes x os) : Writes x (os ++ os') := h.mono (by simp)

theorem right (h : Writes x os') : Writes x (os ++ os') := h.mono (by simp)

theorem first (h : Writes x [o]) : Writes x (o :: os) :=
  show Writes x ([o] ++ os) from h.left

theorem later (h : Writes x os) : Writes x (o :: os) :=
  show Writes x ([o] ++ os) from h.right

theorem below (h : Writes x parts) : Writes x [.node l parts] := h.mono (by simp)

/-- **Noting an expression** writes it besides what is written below it. -/
theorem note {e : Expr} {p : Typer (Option DataType)} (h : Writes p e.parts) :
    Writes (Typer.note e p) [.node (.expr e) e.parts] := by
  intro scope
  obtain ⟨a, scope', entries, hentries, hrun⟩ := h scope
  refine ⟨a, scope', a.toList.map (fun t => (e, t)) ++ entries, fun q hq => ?_, fun table => ?_⟩
  · rw [Outline.allExprs_node, Outline.allExprs_nil, List.append_nil]
    rcases List.mem_append.mp hq with hq | hq
    · obtain ⟨t, -, rfl⟩ := List.mem_map.mp hq
      exact List.mem_append_left _ (List.mem_singleton_self e)
    · exact List.mem_append_right _ (hentries q hq)
  · rw [run_note, hrun table, List.append_assoc]

end Writes

end Typer

/-! ### Expressions and statements -/

open Typer Typer.Writes

section

-- The linter does not see what the theorems of a mutual block pass on to each other.
set_option linter.unusedSectionVars false

variable {c : Context}

mutual

theorem Expr.typed_writes : ∀ (e : Expr) (expected : Option DataType),
    Writes (e.typed c expected) e.parts
  | .literal .., _ | .this _, _ | .super _, _ | .classLit .., _ => .pure _
  | .name _, _ => by
    simp only [Expr.typed]
    exact .read (fun _ _ _ => rfl) fun _ => .pure _
  | .field e _ _, _ => by
    simp only [Expr.typed]
    exact (Expr.typed_writes e none).note.bind fun _ => .read (fun _ _ _ => rfl) fun _ => .pure _
  | .call _ f as _, _ => by
    have hf := (Expr.typed_writes f none).note
    have has := Expr.allTyped_writes as none
    cases f with
    | this _ | super _ =>
      simp only [Expr.typed]
      exact .below (.bind has.discard.later fun _ => .pure _)
    | name _ =>
      simp only [Expr.typed]
      exact .below (.bind has.later fun _ => .pure _)
    | field e _ _ =>
      simp only [Expr.typed]
      refine .below (.bind (.first (.below (Expr.typed_writes e none).note)) fun _ => ?_)
      exact .read (fun _ _ _ => rfl) fun _ => has.later.bind fun _ => .pure _
    | _ =>
      simp only [Expr.typed]
      exact .below (hf.discard.first.bind fun _ => has.discard.later.bind fun _ => .pure _)
  | .new _ as _, _ => by
    simp only [Expr.typed]
    exact .below (.bind (.later (Expr.allTyped_writes as none).discard) fun _ => .pure _)
  | .newAnonymous _ as _ _, _ => by
    simp only [Expr.typed]
    exact .below (.bind (.left (.later (Expr.allTyped_writes as none).discard)) fun _ => .pure _)
  | .newArray _ ds _, _ => by
    simp only [Expr.typed]
    exact .bind (.later (Expr.allTyped_writes ds none).discard) fun _ => .pure _
  | .newArrayOf t ds es _ _, _ => by
    simp only [Expr.typed]
    refine .bind (.left (.later (Expr.allTyped_writes ds none).discard)) fun _ => ?_
    exact .bind (.right (Expr.allTyped_writes es _).discard) fun _ => .pure _
  | .arrayInit es _, _ => by
    simp only [Expr.typed]
    exact (Expr.allTyped_writes es _).discard.bind fun _ => .pure _
  | .index a b _, _ => by
    simp only [Expr.typed]
    refine (Expr.typed_writes a none).note.first.bind fun _ => ?_
    exact (Expr.typed_writes b none).note.discard.later.bind fun _ => .pure _
  | .unary _ e _, _ => by
    simp only [Expr.typed]
    exact (Expr.typed_writes e none).note.bind fun _ => .pure _
  | .update e _ _, _ => by
    simp only [Expr.typed]
    exact (Expr.typed_writes e none).note
  | .binary a _ b _, _ => by
    simp only [Expr.typed]
    refine (Expr.typed_writes a none).note.first.bind fun _ => ?_
    exact (Expr.typed_writes b none).note.later.bind fun _ => .pure _
  | .instanceOf e _ none _, _ => by
    simp only [Expr.typed]
    exact (Expr.typed_writes e none).note.discard.first.bind fun _ => .pure _
  | .instanceOf e _ (some _) _, _ => by
    simp only [Expr.typed]
    refine (Expr.typed_writes e none).note.discard.first.bind fun _ => ?_
    exact (Writes.declare _ _).bind fun _ => .pure _
  | .assign a _ b _, _ => by
    simp only [Expr.typed]
    refine (Expr.typed_writes a none).note.first.bind fun _ => ?_
    exact (Expr.typed_writes b _).note.discard.later.bind fun _ => .pure _
  | .conditional e a b _, _ => by
    simp only [Expr.typed]
    refine (Expr.typed_writes e none).note.discard.first.bind fun _ => ?_
    refine (Expr.typed_writes a none).note.first.later.bind fun _ => ?_
    exact (Expr.typed_writes b none).note.later.later.bind fun _ => .pure _
  | .cast _ e _, _ => by
    simp only [Expr.typed]
    exact (Expr.typed_writes e none).note.discard.later.bind fun _ => .pure _
  | .paren e _, _ => by
    simp only [Expr.typed]
    exact (Expr.typed_writes e _).note
  | .lambda _ e _, _ => by
    simp only [Expr.typed]
    refine .below (.bind .enter fun _ => .bind (.forM fun _ _ => .declare _ _) fun _ => ?_)
    exact (Expr.typed_writes e none).note.discard.bind fun _ => Writes.leave.bind fun _ => .pure _
  | .blockLambda _ b _, _ => by
    simp only [Expr.typed]
    refine .below (.bind .enter fun _ => .bind (.forM fun _ _ => .declare _ _) fun _ => ?_)
    exact .below ((Block.typed_writes b).bind fun _ => Writes.leave.bind fun _ => .pure _)
  | .methodRef e _ _, _ => by
    simp only [Expr.typed]
    exact (Expr.typed_writes e none).note.discard.bind fun _ => .pure _

theorem Expr.allTyped_writes : ∀ (es : List Expr) (expected : Option DataType),
    Writes (Expr.allTyped c expected es) (Expr.outlines es)
  | [], _ => .pure _
  | e :: es, expected => by
    simp only [Expr.allTyped]
    refine (Expr.typed_writes e expected).note.first.bind fun _ => ?_
    exact (Expr.allTyped_writes es expected).later.bind fun _ => .pure _

theorem Block.typed_writes : ∀ b : Block, Writes (b.typed c) b.parts
  | ⟨ss, _⟩ => by
    simp only [Block.typed]
    exact Writes.enter.bind fun _ => (Stmt.allTyped_writes ss).bind fun _ => .leave

theorem Stmt.typed_writes : ∀ s : Stmt, Writes (s.typed c) s.parts
  | .block b => by
    simp only [Stmt.typed]
    exact (Block.typed_writes b).below
  | .localVar _ t vs _ => by
    simp only [Stmt.typed]
    split
    · exact (VarDeclarator.allInferred_writes vs).later
    · exact (VarDeclarator.allTyped_writes vs _).later
  | .localType _ | .breakTo .. | .continueTo .. | .empty _ | .ret none _ => .pure _
  | .expr e _ | .throwing e _ | .ret (some e) _ => by
    simp only [Stmt.typed]
    exact (Expr.typed_writes e none).note.discard
  | .ifThen e a _ | .whileLoop e a _ => by
    simp only [Stmt.typed]
    refine (Expr.typed_writes e none).note.discard.first.bind fun _ => Writes.enter.bind fun _ => ?_
    exact (Stmt.typed_writes a).below.later.bind fun _ => .leave
  | .ifElse e a b _ => by
    simp only [Stmt.typed]
    refine (Expr.typed_writes e none).note.discard.first.bind fun _ => Writes.enter.bind fun _ => ?_
    refine (Stmt.typed_writes a).below.first.later.bind fun _ => Writes.leave.bind fun _ => ?_
    refine Writes.enter.bind fun _ => (Stmt.typed_writes b).below.later.later.bind fun _ => ?_
    exact .leave
  | .doLoop a e _ => by
    simp only [Stmt.typed]
    refine Writes.enter.bind fun _ => (Stmt.typed_writes a).below.first.bind fun _ => ?_
    exact Writes.leave.bind fun _ => (Expr.typed_writes e none).note.discard.later
  | .forLoop i none us a _ => by
    simp only [Stmt.typed]
    refine Writes.enter.bind fun _ => (Stmt.allTyped_writes i).left.left.left.bind fun _ => ?_
    refine (Expr.allTyped_writes us none).discard.right.left.bind fun _ => ?_
    refine Writes.enter.bind fun _ => (Stmt.typed_writes a).below.right.bind fun _ => ?_
    exact Writes.leave.bind fun _ => .leave
  | .forLoop i (some e) us a _ => by
    simp only [Stmt.typed]
    refine Writes.enter.bind fun _ => (Stmt.allTyped_writes i).left.left.left.bind fun _ => ?_
    refine (Expr.typed_writes e none).note.discard.right.left.left.bind fun _ => ?_
    refine (Expr.allTyped_writes us none).discard.right.left.bind fun _ => ?_
    refine Writes.enter.bind fun _ => (Stmt.typed_writes a).below.right.bind fun _ => ?_
    exact Writes.leave.bind fun _ => .leave
  | .forEach _ _ _ e a _ => by
    simp only [Stmt.typed]
    refine Writes.enter.bind fun _ => (Expr.typed_writes e none).note.first.later.bind fun _ => ?_
    refine (Writes.declare _ _).bind fun _ => Writes.enter.bind fun _ => ?_
    refine (Stmt.typed_writes a).below.later.later.bind fun _ => ?_
    exact Writes.leave.bind fun _ => .leave
  | .tryCatch rs b cs none _ => by
    simp only [Stmt.typed]
    refine Writes.enter.bind fun _ => (Stmt.allTyped_writes rs).left.left.bind fun _ => ?_
    refine (Block.typed_writes b).below.first.right.left.bind fun _ => Writes.leave.bind fun _ => ?_
    exact (CatchClause.allTyped_writes cs).later.right.left.bind fun _ => .pure _
  | .tryCatch rs b cs (some f) _ => by
    simp only [Stmt.typed]
    refine Writes.enter.bind fun _ => (Stmt.allTyped_writes rs).left.left.bind fun _ => ?_
    refine (Block.typed_writes b).below.first.right.left.bind fun _ => Writes.leave.bind fun _ => ?_
    refine (CatchClause.allTyped_writes cs).later.right.left.bind fun _ => ?_
    exact (Block.typed_writes f).below.right
  | .switch e cs _ => by
    simp only [Stmt.typed]
    refine (Expr.typed_writes e none).note.discard.first.bind fun _ => Writes.enter.bind fun _ => ?_
    exact (SwitchCase.allTyped_writes cs).later.bind fun _ => .leave
  | .synchronized e b _ => by
    simp only [Stmt.typed]
    refine (Expr.typed_writes e none).note.discard.first.bind fun _ => ?_
    exact (Block.typed_writes b).below.later
  | .labeled _ a _ => by
    simp only [Stmt.typed]
    exact (Stmt.typed_writes a).below
  | .assertion e none _ => by
    simp only [Stmt.typed]
    exact (Expr.typed_writes e none).note.discard.first.bind fun _ => .pure _
  | .assertion e (some m) _ => by
    simp only [Stmt.typed]
    refine (Expr.typed_writes e none).note.discard.first.bind fun _ => ?_
    exact (Expr.typed_writes m none).note.discard.later

theorem Stmt.allTyped_writes : ∀ ss : List Stmt, Writes (Stmt.allTyped c ss) (Stmt.outlines ss)
  | [] => .pure _
  | s :: ss => by
    simp only [Stmt.allTyped]
    exact (Stmt.typed_writes s).below.first.bind fun _ => (Stmt.allTyped_writes ss).later

theorem VarDeclarator.allTyped_writes : ∀ (vs : List VarDeclarator) (declared : Option DataType),
    Writes (VarDeclarator.allTyped c declared vs) (VarDeclarator.parts vs)
  | [], _ => .pure _
  | ⟨_, _, none, _⟩ :: vs, declared => by
    simp only [VarDeclarator.allTyped]
    exact .bind (.declare _ _) fun _ => VarDeclarator.allTyped_writes vs declared
  | ⟨_, _, some e, _⟩ :: vs, declared => by
    simp only [VarDeclarator.allTyped]
    refine (Expr.typed_writes e _).note.discard.first.bind fun _ => ?_
    exact .bind (.declare _ _) fun _ => (VarDeclarator.allTyped_writes vs declared).later

theorem VarDeclarator.allInferred_writes : ∀ vs : List VarDeclarator,
    Writes (VarDeclarator.allInferred c vs) (VarDeclarator.parts vs)
  | [] => .pure _
  | ⟨_, _, none, _⟩ :: vs => by
    simp only [VarDeclarator.allInferred]
    exact .bind (.declare _ _) fun _ => VarDeclarator.allInferred_writes vs
  | ⟨_, _, some e, _⟩ :: vs => by
    simp only [VarDeclarator.allInferred]
    refine (Expr.typed_writes e none).note.first.bind fun _ => ?_
    exact .bind (.declare _ _) fun _ => (VarDeclarator.allInferred_writes vs).later

theorem CatchClause.allTyped_writes : ∀ cs : List CatchClause,
    Writes (CatchClause.allTyped c cs) (CatchClause.parts cs)
  | [] => .pure _
  | ⟨_, _, _, b, _⟩ :: cs => by
    simp only [CatchClause.allTyped]
    refine .right (.bind .enter fun _ => .bind (.declare _ _) fun _ => ?_)
    refine (Block.typed_writes b).below.first.bind fun _ => Writes.leave.bind fun _ => ?_
    exact (CatchClause.allTyped_writes cs).later

theorem SwitchCase.allTyped_writes : ∀ cs : List SwitchCase,
    Writes (SwitchCase.allTyped c cs) (SwitchCase.parts cs)
  | [] => .pure _
  | ⟨ls, ss, _⟩ :: cs => by
    simp only [SwitchCase.allTyped]
    refine (Expr.allTyped_writes ls none).discard.left.left.bind fun _ => ?_
    refine (Stmt.allTyped_writes ss).right.left.bind fun _ => ?_
    exact (SwitchCase.allTyped_writes cs).right

end

end

/-! ### Members -/

theorem typeFields_writes (c : Context) (declared : Option DataType) (vs : List VarDeclarator) :
    Writes (typeFields c declared vs) (VarDeclarator.parts vs) := by
  rw [typeFields]
  induction vs with
  | nil => exact .pure _
  | cons v vs ih =>
    obtain ⟨n, dims, e, s⟩ := v
    cases e with
    | none => exact .bind (.pure _) fun _ => ih
    | some e => exact (Expr.typed_writes e _).note.discard.first.bind fun _ => ih.later

/-- **Typing a member writes expressions of the member**, and does not read the table. -/
theorem Member.typed_writes (c : Context) (m : Member) : Writes (m.typed c) m.parts := by
  cases m with
  | field _ _ vs _ => exact .below (typeFields_writes c _ vs).later
  | method _ tps _ _ ps _ _ b _ =>
    cases b with
    | none => exact .bind (.forM fun _ _ => .declare _ _) fun _ => .pure _
    | some b =>
      refine .below (.bind (.forM fun _ _ => .declare _ _) fun _ => ?_)
      exact (Block.typed_writes b).below.right
  | constructor _ tps _ ps _ b _ =>
    exact .below (.bind (.forM fun _ _ => .declare _ _) fun _ => (Block.typed_writes b).below.right)
  | initializer _ b _ => exact Block.typed_writes b
  | type _ => exact .pure _

end JavaGraft

import JavaGraft.Proofs.Extension.Redirection

/-!
# The calls of a redirected tree

Redirection neither makes nor loses calls: the calls of a redirected tree are those of the tree, at
the same places and with the same numbers, and a call has one argument more than before exactly if
it is in a slot and has a new callee (`JavaGraft.Member.marks_redirected`). So what was redirected
can be read off the two trees, and a call that merely has a redirected one inside it is told apart
from it.

For this, the new callees must not contain calls themselves, and only calls with a name may have
one, for otherwise the callee that is dropped could take calls along
(`JavaGraft.IsRedirection`).
-/

namespace JavaGraft

/-- What is asked of new callees: only calls of a name have one, and no calls are in it. -/
def IsRedirection (callee : Call → Option Expr) : Prop :=
  ∀ c g, callee c = some g → c.name?.isSome ∧ ∀ p, g.calls p = []

/-- The place, the number and the number of arguments of a call. -/
def Place.mark (x : Place × Call) : Place × Nat × Nat := (x.1, x.2.id, x.2.args.length)

/-- The number of arguments that a call comes to have. -/
def Place.arity (callee : Call → Option Expr) (x : Place × Call) : Nat :=
  if x.1 = .slot ∧ (callee x.2).isSome then x.2.args.length + 1 else x.2.args.length

/-- The place, the number and the number of arguments that a call comes to have. -/
def Place.newMark (callee : Call → Option Expr) (x : Place × Call) : Place × Nat × Nat :=
  (x.1, x.2.id, arity callee x)

section Marks

variable {callee : Call → Option Expr}

/-! ### Foreign calls keep their marks -/

theorem Place.newMark_hide (xs : List (Place × Call)) :
    (xs.map Place.hide).map (Place.newMark callee) = (xs.map Place.hide).map Place.mark := by
  simp [Place.newMark, Place.mark, Place.arity, Place.hide]

@[simp] theorem Modifiers.newMark_foreign (m : Modifiers) :
    (m.calls .foreign).map (Place.newMark callee) = (m.calls .foreign).map Place.mark := by
  rw [← m.map_hide .foreign, Place.newMark_hide]

@[simp] theorem TypeDecl.newMark_foreign (d : TypeDecl) :
    (d.calls .foreign).map (Place.newMark callee) = (d.calls .foreign).map Place.mark := by
  rw [← d.map_hide .foreign, Place.newMark_hide]

@[simp] theorem Member.newMark_foreign (ms : List Member) :
    (Member.allCalls .foreign ms).map (Place.newMark callee)
      = (Member.allCalls .foreign ms).map Place.mark := by
  rw [← Member.allMap_hide .foreign ms, Place.newMark_hide]

@[simp] theorem Param.newMark_calls (ps : List Param) :
    (Param.allCalls ps).map (Place.newMark callee) = (Param.allCalls ps).map Place.mark := by
  rw [← Param.allMap_hide ps, Place.newMark_hide]

@[simp] theorem Element.newMark_foreign (v : Option Element) :
    (Element.optionCalls .foreign v).map (Place.newMark callee)
      = (Element.optionCalls .foreign v).map Place.mark := by
  rw [← Element.optionMap_hide .foreign v, Place.newMark_hide]

/-! ### Code -/

theorem Expr.length_allRedirected (p : Place) (es : List Expr) :
    (Expr.allRedirected callee p es).length = es.length := by
  induction es with
  | nil => rfl
  | cons e es ih => rw [Expr.allRedirected, List.length_cons, ih, List.length_cons]

/-- With a callee that is dropped no calls are lost: those in it are in the receiver. -/
theorem Call.marks_receiver (c : Call) (hname : c.name?.isSome) (p : Place)
    (h : ((c.callee.redirected callee p.below).calls p.below).map Place.mark
      = (c.callee.calls p.below).map (Place.newMark callee)) :
    ((c.receiver.redirected callee p.below).calls p.below).map Place.mark
      = (c.callee.calls p.below).map (Place.newMark callee) := by
  obtain ⟨id, f, as, s⟩ := c
  cases f with
  | field e n fs => simpa [Expr.redirected, Expr.calls, Call.receiver, Call.receiver?] using h
  -- Without a written receiver there is nothing in the callee; other callees have no name.
  | name _ | this _ | super _ => rfl
  | _ => exact absurd hname (by simp [Call.name?])

/-- What becomes of the marks of a call, from what becomes of those in its callee and its
arguments. -/
theorem Expr.marks_call (hto : IsRedirection callee) (p : Place) (c : Call)
    (hcallee : ((c.callee.redirected callee p.below).calls p.below).map Place.mark
      = (c.callee.calls p.below).map (Place.newMark callee))
    (hargs : (Expr.allCalls p.below (Expr.allRedirected callee p.below c.args)).map Place.mark
      = (Expr.allCalls p.below c.args).map (Place.newMark callee)) :
    (((Expr.call c.id c.callee c.args c.span).redirected callee p).calls p).map Place.mark
      = ((Expr.call c.id c.callee c.args c.span).calls p).map (Place.newMark callee) := by
  rw [Expr.redirected_call]
  -- Either the call keeps its callee, or the dropped callee's receiver becomes an argument.
  cases hnew : if p = .slot then callee c else none with
  | none =>
    have harity : Place.arity callee (p, c) = c.args.length := by
      rw [Place.arity, if_neg]
      rintro ⟨hslot, hsome⟩
      rw [if_pos hslot] at hnew
      simp [hnew] at hsome
    simp only [Expr.calls, List.map_cons, List.map_append, hcallee, hargs, Place.mark,
      Place.newMark, harity, Expr.length_allRedirected]
  | some g =>
    obtain ⟨rfl, hg⟩ := Option.ite_none_right_eq_some.mp hnew
    obtain ⟨hname, hcalls⟩ := hto c g hg
    have harity : Place.arity callee (.slot, c) = c.args.length + 1 := by
      rw [Place.arity, if_pos ⟨rfl, by simp [hg]⟩]
    have hreceiver := c.marks_receiver hname .slot hcallee
    simp only [Expr.calls, Expr.allCalls, hcalls, List.nil_append, List.map_cons, List.map_append,
      hreceiver, hargs, Place.mark, Place.newMark, harity, List.length_cons,
      Expr.length_allRedirected]

mutual

theorem Expr.marks_redirected (hto : IsRedirection callee) (p : Place) : ∀ e : Expr,
    ((e.redirected callee p).calls p).map Place.mark = (e.calls p).map (Place.newMark callee)
  | .literal .. | .name _ | .this _ | .super _ | .classLit .. => rfl
  | .paren e _ => e.marks_redirected hto p
  | .field e _ _ | .unary _ e _ | .update e _ _ | .methodRef e _ _ | .cast _ e _
  | .instanceOf e _ _ _ | .lambda _ e _ => e.marks_redirected hto p.below
  | .call id f as s =>
    Expr.marks_call hto p ⟨id, f, as, s⟩ (f.marks_redirected hto p.below)
      (Expr.allMarks_redirected hto p.below as)
  | .new _ as _ | .newArray _ as _ | .arrayInit as _ => Expr.allMarks_redirected hto p.below as
  | .newAnonymous _ as ms _ => by
    simp only [Expr.redirected, Expr.calls, List.map_append,
      Expr.allMarks_redirected hto p.below as, Member.newMark_foreign]
  | .newArrayOf _ ds es _ _ => by
    simp only [Expr.redirected, Expr.calls, List.map_append,
      Expr.allMarks_redirected hto p.below ds, Expr.allMarks_redirected hto p.below es]
  | .index a b _ | .binary a _ b _ | .assign a _ b _ => by
    simp only [Expr.redirected, Expr.calls, List.map_append, a.marks_redirected hto p.below,
      b.marks_redirected hto p.below]
  | .conditional e a b _ => by
    simp only [Expr.redirected, Expr.calls, List.map_append, e.marks_redirected hto p.below,
      a.marks_redirected hto p.below, b.marks_redirected hto p.below]
  | .blockLambda _ b _ => b.marks_redirected hto p.below

theorem Expr.allMarks_redirected (hto : IsRedirection callee) (p : Place) : ∀ es : List Expr,
    (Expr.allCalls p (Expr.allRedirected callee p es)).map Place.mark
      = (Expr.allCalls p es).map (Place.newMark callee)
  | [] => rfl
  | e :: es => by
    simp only [Expr.allRedirected, Expr.allCalls, List.map_append, e.marks_redirected hto p,
      Expr.allMarks_redirected hto p es]

theorem Expr.optionMarks_redirected (hto : IsRedirection callee) (p : Place) : ∀ e : Option Expr,
    (Expr.optionCalls p (Expr.optionRedirected callee p e)).map Place.mark
      = (Expr.optionCalls p e).map (Place.newMark callee)
  | none => rfl
  | some e => e.marks_redirected hto p

theorem Block.marks_redirected (hto : IsRedirection callee) (p : Place) : ∀ b : Block,
    ((b.redirected callee p).calls p).map Place.mark = (b.calls p).map (Place.newMark callee)
  | ⟨ss, _⟩ => Stmt.allMarks_redirected hto p ss

theorem Block.optionMarks_redirected (hto : IsRedirection callee) (p : Place) : ∀ b : Option Block,
    (Block.optionCalls p (Block.optionRedirected callee p b)).map Place.mark
      = (Block.optionCalls p b).map (Place.newMark callee)
  | none => rfl
  | some b => b.marks_redirected hto p

theorem Stmt.marks_redirected (hto : IsRedirection callee) (p : Place) : ∀ s : Stmt,
    ((s.redirected callee p).calls p).map Place.mark = (s.calls p).map (Place.newMark callee)
  | .block b => b.marks_redirected hto p
  | .localVar m _ vs _ => by
    simp only [Stmt.redirected, Stmt.calls, List.map_append, Modifiers.newMark_foreign,
      VarDeclarator.allMarks_redirected hto p.filled vs]
  | .localType d => by
    simp only [Stmt.redirected, Stmt.calls, TypeDecl.newMark_foreign]
  | .breakTo .. | .continueTo .. | .empty _ => rfl
  | .expr e _ | .throwing e _ => e.marks_redirected hto p.filled
  | .ret e _ => Expr.optionMarks_redirected hto p.filled e
  | .ifThen e a _ | .whileLoop e a _ => by
    simp only [Stmt.redirected, Stmt.calls, List.map_append, e.marks_redirected hto p.filled,
      a.marks_redirected hto p]
  | .ifElse e a b _ => by
    simp only [Stmt.redirected, Stmt.calls, List.map_append, e.marks_redirected hto p.filled,
      a.marks_redirected hto p, b.marks_redirected hto p]
  | .doLoop a e _ => by
    simp only [Stmt.redirected, Stmt.calls, List.map_append, a.marks_redirected hto p,
      e.marks_redirected hto p.filled]
  | .forLoop i e us a _ => by
    simp only [Stmt.redirected, Stmt.calls, List.map_append, Stmt.allMarks_redirected hto p i,
      Expr.optionMarks_redirected hto p.filled e, Expr.allMarks_redirected hto p.filled us,
      a.marks_redirected hto p]
  | .forEach m _ _ e a _ => by
    simp only [Stmt.redirected, Stmt.calls, List.map_append, Modifiers.newMark_foreign,
      e.marks_redirected hto p.filled, a.marks_redirected hto p]
  | .tryCatch rs b cs f _ => by
    simp only [Stmt.redirected, Stmt.calls, List.map_append, Stmt.allMarks_redirected hto p rs,
      b.marks_redirected hto p, CatchClause.allMarks_redirected hto p cs,
      Block.optionMarks_redirected hto p f]
  | .switch e cs _ => by
    simp only [Stmt.redirected, Stmt.calls, List.map_append, e.marks_redirected hto p.filled,
      SwitchCase.allMarks_redirected hto p cs]
  | .synchronized e b _ => by
    simp only [Stmt.redirected, Stmt.calls, List.map_append, e.marks_redirected hto p.filled,
      b.marks_redirected hto p]
  | .labeled _ a _ => a.marks_redirected hto p
  | .assertion e m _ => by
    simp only [Stmt.redirected, Stmt.calls, List.map_append, e.marks_redirected hto p.filled,
      Expr.optionMarks_redirected hto p.filled m]

theorem Stmt.allMarks_redirected (hto : IsRedirection callee) (p : Place) : ∀ ss : List Stmt,
    (Stmt.allCalls p (Stmt.allRedirected callee p ss)).map Place.mark
      = (Stmt.allCalls p ss).map (Place.newMark callee)
  | [] => rfl
  | s :: ss => by
    simp only [Stmt.allRedirected, Stmt.allCalls, List.map_append, s.marks_redirected hto p,
      Stmt.allMarks_redirected hto p ss]

theorem VarDeclarator.allMarks_redirected (hto : IsRedirection callee) (p : Place) :
    ∀ vs : List VarDeclarator,
    (VarDeclarator.allCalls p (VarDeclarator.allRedirected callee p vs)).map Place.mark
      = (VarDeclarator.allCalls p vs).map (Place.newMark callee)
  | [] => rfl
  | ⟨_, _, e, _⟩ :: vs => by
    simp only [VarDeclarator.allRedirected, VarDeclarator.allCalls, List.map_append,
      Expr.optionMarks_redirected hto p e, VarDeclarator.allMarks_redirected hto p vs]

theorem CatchClause.allMarks_redirected (hto : IsRedirection callee) (p : Place) :
    ∀ cs : List CatchClause,
    (CatchClause.allCalls p (CatchClause.allRedirected callee p cs)).map Place.mark
      = (CatchClause.allCalls p cs).map (Place.newMark callee)
  | [] => rfl
  | ⟨m, _, _, b, _⟩ :: cs => by
    simp only [CatchClause.allRedirected, CatchClause.allCalls, List.map_append,
      Modifiers.newMark_foreign, b.marks_redirected hto p, CatchClause.allMarks_redirected hto p cs]

theorem SwitchCase.allMarks_redirected (hto : IsRedirection callee) (p : Place) :
    ∀ cs : List SwitchCase,
    (SwitchCase.allCalls p (SwitchCase.allRedirected callee p cs)).map Place.mark
      = (SwitchCase.allCalls p cs).map (Place.newMark callee)
  | [] => rfl
  | ⟨ls, ss, _⟩ :: cs => by
    simp only [SwitchCase.allRedirected, SwitchCase.allCalls, List.map_append,
      Expr.allMarks_redirected hto p.below ls, Stmt.allMarks_redirected hto p ss,
      SwitchCase.allMarks_redirected hto p cs]

end

/-! ### Members -/

/-- **A redirected member has the calls of the member**, and those that were redirected have one
argument more. -/
theorem Member.marks_redirected (hto : IsRedirection callee) (p : Place) (m : Member) :
    ((m.redirected callee p).calls p).map Place.mark = (m.calls p).map (Place.newMark callee) := by
  cases m with
  | field m t vs s =>
    simp only [Member.redirected, Member.calls, List.map_append, Modifiers.newMark_foreign,
      VarDeclarator.allMarks_redirected hto p.filled vs]
  | method m tps t n ps ts d b s =>
    simp only [Member.redirected, Member.calls, List.map_append, Modifiers.newMark_foreign,
      Param.newMark_calls, Element.newMark_foreign, Block.optionMarks_redirected hto p b]
  | constructor m tps n ps ts b s =>
    simp only [Member.redirected, Member.calls, List.map_append, Modifiers.newMark_foreign,
      Param.newMark_calls, b.marks_redirected hto p]
  | initializer st b s => exact b.marks_redirected hto p
  | type d => simp only [Member.redirected, Member.calls, TypeDecl.newMark_foreign]

end Marks

end JavaGraft

import JavaGraft.Proofs.Scope.Agreement
import JavaGraft.Proofs.Scope.Visible
import JavaGraft.Typing.Member

/-!
# What typing declares

Local variables have the scope of blocks: what is declared in a scope is there until the scope is
closed. A type test that binds a variable declares it in the innermost scope that is open, wherever
in an expression it stands; only lambdas have scopes of their own. So typing an expression leaves
the local variables as declaring the variables of its type tests does, from left to right
(`JavaGraft.Expr.typed_binds`), and typing a statement changes nothing outside the innermost scope
(`JavaGraft.Stmt.typed_keeps`).

An expression statement is no different (`JavaGraft.Stmt.expr_typed_scope`): behind it, the
variables that it binds are in scope to the end of the block, and everything else is as before.
-/

namespace JavaGraft

/-- A name to be declared, and its type. -/
abbrev Binding := Ident × Option DataType

/-! ### Declaring several variables -/

namespace LocalScope

/-- Declares variables one after the other, in the innermost scope. -/
def declareAll (s : LocalScope) (bs : List Binding) : LocalScope :=
  bs.foldl (fun s b => s.declare b.1.name b.2 b.1.span) s

variable {s s' : LocalScope} {bs : List Binding}

theorem declareAll_append (bs bs' : List Binding) :
    s.declareAll (bs ++ bs') = (s.declareAll bs).declareAll bs' := List.foldl_append

@[simp] theorem depth_declareAll : (s.declareAll bs).depth = s.depth := by
  induction bs generalizing s with
  | nil => rfl
  | cons b bs ih => exact ih

theorem Orderly.declareAll (h : s.Orderly) : (s.declareAll bs).Orderly := by
  induction bs generalizing s with
  | nil => exact h
  | cons b bs ih => exact ih h.declare

theorem Agree.declareAll (h : s.Agree s') : (s.declareAll bs).Agree (s'.declareAll bs) := by
  induction bs generalizing s s' with
  | nil => exact h
  | cons b bs ih => exact ih h.declare

theorem Agree.leave_declareAll (h : s.Orderly) (hdepth : s.depth ≠ 0) :
    (s.declareAll bs).leave.Agree s.leave := by
  induction bs generalizing s with
  | nil => exact .refl _
  | cons b bs ih => exact (ih h.declare hdepth).trans (.leave_declare h hdepth)

/-- Other names mean what they meant before. -/
theorem get?_declareAll_of_not_mem {name : String} (h : name ∉ bs.map (·.1.name)) :
    (s.declareAll bs).get? name = s.get? name := by
  induction bs generalizing s with
  | nil => rfl
  | cons b bs ih =>
    obtain ⟨hb, hbs⟩ := not_or.mp (mt List.mem_cons.mpr h)
    exact (ih hbs).trans ((get?_declare name).trans (if_neg (Ne.symm hb)))

/-- A name that is declared means one of the variables of the name. -/
theorem exists_get?_declareAll {name : String} (h : name ∈ bs.map (·.1.name)) :
    ∃ b ∈ bs, b.1.name = name
      ∧ (s.declareAll bs).get? name = some ⟨name, b.2, s.depth, b.1.span⟩ := by
  induction bs generalizing s with
  | nil => exact absurd h List.not_mem_nil
  | cons b bs ih =>
    by_cases hbs : name ∈ bs.map (·.1.name)
    · obtain ⟨b', hb', hname, hget⟩ := ih (s := s.declare b.1.name b.2 b.1.span) hbs
      exact ⟨b', List.mem_cons_of_mem b hb', hname, hget⟩
    · obtain rfl : name = b.1.name := (List.mem_cons.mp h).resolve_right hbs
      refine ⟨b, List.mem_cons_self, rfl, (get?_declareAll_of_not_mem hbs).trans ?_⟩
      rw [get?_declare, if_pos rfl]

/-! ### Scopes over a scope -/

/-- A record that comes to agree with another one once `k` scopes are closed. -/
structure Over (k : Nat) (base s : LocalScope) : Prop where
  orderly : s.Orderly
  depth : s.depth = base.depth + k
  agree : (leave^[k] s).Agree base

variable {base : LocalScope} {k : Nat}

theorem Over.refl (h : s.Orderly) : Over 0 s s := ⟨h, rfl, .refl s⟩

theorem Over.enter (h : Over k base s) : Over (k + 1) base s.enter where
  orderly := h.orderly.enter
  depth := congrArg (· + 1) h.depth
  agree := by
    rw [Function.iterate_succ_apply, leave_enter h.orderly]
    exact h.agree

theorem depth_leave (h : s.depth = k + 1) : s.leave.depth = k := by
  rw [leave_eq (by omega), h]
  rfl

theorem Over.leave (h : Over (k + 1) base s) : Over k base s.leave where
  orderly := h.orderly.leave
  depth := depth_leave h.depth
  agree := by simpa only [Function.iterate_succ_apply] using h.agree

/-- Declaring in the innermost of the scopes is not noticed below. -/
theorem Over.declareAll (h : Over (k + 1) base s) (hs : s'.Orderly)
    (hs' : s'.Agree (s.declareAll bs)) : Over (k + 1) base s' where
  orderly := hs
  depth := hs'.depth.trans (depth_declareAll.trans h.depth)
  agree := by
    have hdepth : s.depth ≠ 0 := by
      have := h.depth
      omega
    have hleave : s'.leave.Agree s.leave :=
      (hs'.leave hs h.orderly.declareAll).trans (.leave_declareAll h.orderly hdepth)
    have hbase := h.agree
    rw [Function.iterate_succ_apply] at hbase ⊢
    exact (hleave.iterate_leave hs.leave h.orderly.leave).trans hbase

end LocalScope

/-! ### Steps of typing -/

namespace Typer

open LocalScope

variable {α β : Type} {x : Typer α} {f : α → Typer β} {bs bs' : List Binding}

/-- A step of typing that declares variables in the innermost scope, and does nothing else to the
local variables. -/
def Binds (x : Typer α) (bs : List Binding) : Prop :=
  ∀ s, s.scope.Orderly →
    (x.run s).2.scope.Orderly ∧ (x.run s).2.scope.Agree (s.scope.declareAll bs)

/-- A step of typing that takes the local variables from one state to another one. -/
def Takes (P : LocalScope → Prop) (x : Typer α) (Q : LocalScope → Prop) : Prop :=
  ∀ s, P s.scope → Q (x.run s).2.scope

variable {P Q R : LocalScope → Prop} {base : LocalScope} {k : Nat}

namespace Takes

theorem bind (hx : Takes P x Q) (hf : ∀ a, Takes Q (f a) R) : Takes P (x >>= f) R :=
  fun s hs => hf (x.run s).1 (x.run s).2 (hx s hs)

theorem pure (a : α) : Takes P (Pure.pure a) P := fun _ hs => hs

theorem forM {xs : List α} {g : α → Typer PUnit} (hg : ∀ x ∈ xs, Takes P (g x) P) :
    Takes P (xs.forM g) P :=
  forM_induction (C := (Takes P · P)) (.pure _) (fun _ _ hx hy => hx.bind fun _ => hy) hg

theorem enter : Takes (Over k base) Typer.enter (Over (k + 1) base) := fun _ hs => hs.enter

theorem leave : Takes (Over (k + 1) base) Typer.leave (Over k base) := fun _ hs => hs.leave

end Takes

namespace Binds

/-- A step that leaves the local variables as they are. -/
theorem still (h : ∀ s, (x.run s).2.scope = s.scope) : Binds x [] := fun s hs => by
  rw [h s]
  exact ⟨hs, .refl _⟩

theorem pure (a : α) : Binds (Pure.pure a) [] := still fun _ => rfl

theorem declare (name : Ident) (type : Option DataType) :
    Binds (Typer.declare name type) [(name, type)] := fun _ hs => ⟨hs.declare, .refl _⟩

theorem bind (hx : Binds x bs) (hf : ∀ a, Binds (f a) bs') : Binds (x >>= f) (bs ++ bs') := by
  intro s hs
  obtain ⟨horderly, hagree⟩ := hx s hs
  obtain ⟨horderly', hagree'⟩ := hf (x.run s).1 (x.run s).2 horderly
  refine ⟨horderly', hagree'.trans ?_⟩
  rw [declareAll_append]
  exact hagree.declareAll

/-- A step, and then something that does not touch the local variables. -/
theorem andThen (hx : Binds x bs) (hf : ∀ a, Binds (f a) []) : Binds (x >>= f) bs := by
  have h := hx.bind hf
  rwa [List.append_nil] at h

theorem discard (hx : Binds x bs) : Binds (Functor.discard x) bs := fun s hs => hx s hs

theorem read {f : TyperState → Typer β} (h : ∀ s, Binds (f s) bs) :
    Binds (MonadState.get >>= f) bs := fun s hs => h s s hs

theorem note {e : Expr} {p : Typer (Option DataType)} (h : Binds p bs) :
    Binds (Typer.note e p) bs := by
  refine h.andThen fun a => ?_
  cases a with
  | none => exact .pure _
  | some t => exact still fun _ => rfl

/-- In a scope that is closed later on, it does not matter what is declared. -/
theorem keeps (h : Binds x bs) : Takes (Over (k + 1) base) x (Over (k + 1) base) := fun s hs =>
  hs.declareAll (h s hs.orderly).1 (h s hs.orderly).2

/-- A step that closes what it opens. -/
theorem of_takes (h : ∀ base, Takes (Over 0 base) x (Over 0 base)) : Binds x [] := fun s hs =>
  have hover := h s.scope s (.refl hs)
  ⟨hover.orderly, hover.agree⟩

end Binds

end Typer

/-! ### Type tests -/

mutual

/-- The variables that the type tests in an expression bind, with the types written there, from left
to right; those in a lambda end with it. -/
def Expr.patterns (c : Context) : Expr → List Binding
  | .literal .. | .name _ | .this _ | .super _ | .classLit .. | .lambda .. | .blockLambda .. => []
  | .paren e _ | .field e _ _ | .unary _ e _ | .update e _ _ | .methodRef e _ _ | .cast _ e _ =>
    e.patterns c
  | .instanceOf e t b _ => e.patterns c ++ b.toList.map fun name => (name, c.valueType t)
  | .call _ f as _ => f.patterns c ++ Expr.allPatterns c as
  | .new _ as _ | .newAnonymous _ as _ _ | .newArray _ as _ | .arrayInit as _ =>
    Expr.allPatterns c as
  | .newArrayOf _ ds es _ _ => Expr.allPatterns c ds ++ Expr.allPatterns c es
  | .index a b _ | .binary a _ b _ | .assign a _ b _ => a.patterns c ++ b.patterns c
  | .conditional e a b _ => e.patterns c ++ a.patterns c ++ b.patterns c

/-- The variables that expressions bind. -/
def Expr.allPatterns (c : Context) : List Expr → List Binding
  | [] => []
  | e :: es => e.patterns c ++ Expr.allPatterns c es

end

mutual

/-- Their names are those that are in scope behind the expression. -/
theorem Expr.map_patterns (c : Context) : ∀ e : Expr,
    (e.patterns c).map (·.1.name) = e.bound
  | .literal .. | .name _ | .this _ | .super _ | .classLit .. | .lambda .. | .blockLambda .. => rfl
  | .paren e _ | .field e _ _ | .unary _ e _ | .update e _ _ | .methodRef e _ _ | .cast _ e _ =>
    e.map_patterns c
  | .instanceOf e _ b _ => by
    rw [Expr.patterns, Expr.bound, List.map_append, e.map_patterns, List.map_map]
    rfl
  | .call _ f as _ => by
    rw [Expr.patterns, Expr.bound, List.map_append, f.map_patterns, Expr.map_allPatterns c as]
  | .new _ as _ | .newAnonymous _ as _ _ | .newArray _ as _ | .arrayInit as _ =>
    Expr.map_allPatterns c as
  | .newArrayOf _ ds es _ _ => by
    rw [Expr.patterns, Expr.bound, List.map_append, Expr.map_allPatterns c ds,
      Expr.map_allPatterns c es]
  | .index a b _ | .binary a _ b _ | .assign a _ b _ => by
    rw [Expr.patterns, Expr.bound, List.map_append, a.map_patterns, b.map_patterns]
  | .conditional e a b _ => by
    rw [Expr.patterns, Expr.bound, List.map_append, List.map_append, e.map_patterns,
      a.map_patterns, b.map_patterns]

theorem Expr.map_allPatterns (c : Context) : ∀ es : List Expr,
    (Expr.allPatterns c es).map (·.1.name) = Expr.allBound es
  | [] => rfl
  | e :: es => by
    rw [Expr.allPatterns, Expr.allBound, List.map_append, e.map_patterns,
      Expr.map_allPatterns c es]

end

/-! ### Expressions and statements -/

open Typer LocalScope

section

-- The linter does not see what the theorems of a mutual block pass on to each other.
set_option linter.unusedSectionVars false

variable {c : Context}

mutual

/-- **Typing an expression declares the variables of its type tests**, and leaves the local
variables alone otherwise. -/
theorem Expr.typed_binds : ∀ (e : Expr) (expected : Option DataType),
    Binds (e.typed c expected) (e.patterns c)
  | .literal .., _ | .this _, _ | .super _, _ | .classLit .., _ => .pure _
  | .name _, _ => by
    simp only [Expr.typed]
    exact .read fun _ => .pure _
  | .field e _ _, _ => by
    simp only [Expr.typed]
    exact (Expr.typed_binds e none).note.andThen fun _ => .read fun _ => .pure _
  | .call _ f as _, _ => by
    have hf := (Expr.typed_binds f none).note (e := f)
    have has := Expr.allTyped_binds as none
    cases f with
    | this _ | super _ | name _ =>
      simp only [Expr.typed]
      exact has.andThen fun _ => .pure _
    | field e _ _ =>
      simp only [Expr.typed]
      refine (Expr.typed_binds e none).note.bind fun _ => ?_
      exact .read fun _ => has.andThen fun _ => .pure _
    | _ =>
      simp only [Expr.typed]
      exact hf.discard.bind fun _ => has.discard.andThen fun _ => .pure _
  | .new _ as _, _ | .newAnonymous _ as _ _, _ | .newArray _ as _, _ => by
    simp only [Expr.typed]
    exact (Expr.allTyped_binds as none).discard.andThen fun _ => .pure _
  | .newArrayOf t ds es _ _, _ => by
    simp only [Expr.typed]
    refine (Expr.allTyped_binds ds none).discard.bind fun _ => ?_
    exact (Expr.allTyped_binds es _).discard.andThen fun _ => .pure _
  | .arrayInit es _, _ => by
    simp only [Expr.typed]
    exact (Expr.allTyped_binds es _).discard.andThen fun _ => .pure _
  | .index a b _, _ => by
    simp only [Expr.typed]
    refine (Expr.typed_binds a none).note.bind fun _ => ?_
    exact (Expr.typed_binds b none).note.discard.andThen fun _ => .pure _
  | .unary _ e _, _ => by
    simp only [Expr.typed]
    exact (Expr.typed_binds e none).note.andThen fun _ => .pure _
  | .update e _ _, _ => by
    simp only [Expr.typed]
    exact (Expr.typed_binds e none).note
  | .binary a _ b _, _ => by
    simp only [Expr.typed]
    refine (Expr.typed_binds a none).note.bind fun _ => ?_
    exact (Expr.typed_binds b none).note.andThen fun _ => .pure _
  | .instanceOf e _ none _, _ => by
    simp only [Expr.typed]
    exact (Expr.typed_binds e none).note.discard.bind fun _ => .pure _
  | .instanceOf e _ (some _) _, _ => by
    simp only [Expr.typed]
    refine (Expr.typed_binds e none).note.discard.bind fun _ => ?_
    exact (Binds.declare _ _).andThen fun _ => .pure _
  | .assign a _ b _, _ => by
    simp only [Expr.typed]
    refine (Expr.typed_binds a none).note.bind fun _ => ?_
    exact (Expr.typed_binds b _).note.discard.andThen fun _ => .pure _
  | .conditional e a b _, _ => by
    simp only [Expr.typed]
    rw [Expr.patterns, List.append_assoc]
    refine (Expr.typed_binds e none).note.discard.bind fun _ => ?_
    refine (Expr.typed_binds a none).note.bind fun _ => ?_
    exact (Expr.typed_binds b none).note.andThen fun _ => .pure _
  | .cast _ e _, _ | .methodRef e _ _, _ => by
    simp only [Expr.typed]
    exact (Expr.typed_binds e none).note.discard.andThen fun _ => .pure _
  | .paren e _, _ => by
    simp only [Expr.typed]
    exact (Expr.typed_binds e _).note
  | .lambda _ e _, _ => by
    simp only [Expr.typed]
    refine .of_takes fun _ => .bind .enter fun _ => ?_
    refine .bind (.forM fun _ _ => (Binds.declare _ _).keeps) fun _ => ?_
    refine (Expr.typed_binds e none).note.discard.keeps.bind fun _ => ?_
    exact .bind .leave fun _ => .pure _
  | .blockLambda _ b _, _ => by
    simp only [Expr.typed]
    refine .of_takes fun _ => .bind .enter fun _ => ?_
    refine .bind (.forM fun _ _ => (Binds.declare _ _).keeps) fun _ => ?_
    exact .bind (Block.typed_keeps b) fun _ => .bind .leave fun _ => .pure _

theorem Expr.allTyped_binds : ∀ (es : List Expr) (expected : Option DataType),
    Binds (Expr.allTyped c expected es) (Expr.allPatterns c es)
  | [], _ => .pure _
  | e :: es, expected => by
    simp only [Expr.allTyped]
    refine (Expr.typed_binds e expected).note.bind fun _ => ?_
    exact (Expr.allTyped_binds es expected).andThen fun _ => .pure _

/-- A block closes the scope that it opens. -/
theorem Block.typed_keeps {base : LocalScope} {k : Nat} : ∀ b : Block,
    Takes (Over k base) (b.typed c) (Over k base)
  | ⟨ss, _⟩ => by
    simp only [Block.typed]
    exact .bind .enter fun _ => .bind (Stmt.allTyped_keeps ss) fun _ => .leave

/-- **Typing a statement** changes nothing but the innermost scope. -/
theorem Stmt.typed_keeps {base : LocalScope} {k : Nat} : ∀ s : Stmt,
    Takes (Over (k + 1) base) (s.typed c) (Over (k + 1) base)
  | .block b => by
    simp only [Stmt.typed]
    exact Block.typed_keeps b
  | .localVar _ t vs _ => by
    simp only [Stmt.typed]
    split
    · exact VarDeclarator.allInferred_keeps vs
    · exact VarDeclarator.allTyped_keeps vs _
  | .localType _ | .breakTo .. | .continueTo .. | .empty _ | .ret none _ => .pure _
  | .expr e _ | .throwing e _ | .ret (some e) _ => by
    simp only [Stmt.typed]
    exact (Expr.typed_binds e none).note.discard.keeps
  | .ifThen e a _ | .whileLoop e a _ => by
    simp only [Stmt.typed]
    refine (Expr.typed_binds e none).note.discard.keeps.bind fun _ => .bind .enter fun _ => ?_
    exact (Stmt.typed_keeps a).bind fun _ => .leave
  | .ifElse e a b _ => by
    simp only [Stmt.typed]
    refine (Expr.typed_binds e none).note.discard.keeps.bind fun _ => .bind .enter fun _ => ?_
    refine (Stmt.typed_keeps a).bind fun _ => .bind .leave fun _ => .bind .enter fun _ => ?_
    exact (Stmt.typed_keeps b).bind fun _ => .leave
  | .doLoop a e _ => by
    simp only [Stmt.typed]
    refine .bind .enter fun _ => (Stmt.typed_keeps a).bind fun _ => .bind .leave fun _ => ?_
    exact (Expr.typed_binds e none).note.discard.keeps
  | .forLoop i none us a _ => by
    simp only [Stmt.typed]
    refine .bind .enter fun _ => (Stmt.allTyped_keeps i).bind fun _ => ?_
    refine (Expr.allTyped_binds us none).discard.keeps.bind fun _ => .bind .enter fun _ => ?_
    exact (Stmt.typed_keeps a).bind fun _ => .bind .leave fun _ => .leave
  | .forLoop i (some e) us a _ => by
    simp only [Stmt.typed]
    refine .bind .enter fun _ => (Stmt.allTyped_keeps i).bind fun _ => ?_
    refine (Expr.typed_binds e none).note.discard.keeps.bind fun _ => ?_
    refine (Expr.allTyped_binds us none).discard.keeps.bind fun _ => .bind .enter fun _ => ?_
    exact (Stmt.typed_keeps a).bind fun _ => .bind .leave fun _ => .leave
  | .forEach _ _ _ e a _ => by
    simp only [Stmt.typed]
    refine .bind .enter fun _ => (Expr.typed_binds e none).note.keeps.bind fun _ => ?_
    refine (Binds.declare _ _).keeps.bind fun _ => .bind .enter fun _ => ?_
    exact (Stmt.typed_keeps a).bind fun _ => .bind .leave fun _ => .leave
  | .tryCatch rs b cs none _ => by
    simp only [Stmt.typed]
    refine .bind .enter fun _ => (Stmt.allTyped_keeps rs).bind fun _ => ?_
    refine (Block.typed_keeps b).bind fun _ => .bind .leave fun _ => ?_
    exact (CatchClause.allTyped_keeps cs).bind fun _ => .pure _
  | .tryCatch rs b cs (some f) _ => by
    simp only [Stmt.typed]
    refine .bind .enter fun _ => (Stmt.allTyped_keeps rs).bind fun _ => ?_
    refine (Block.typed_keeps b).bind fun _ => .bind .leave fun _ => ?_
    exact (CatchClause.allTyped_keeps cs).bind fun _ => Block.typed_keeps f
  | .switch e cs _ => by
    simp only [Stmt.typed]
    refine (Expr.typed_binds e none).note.discard.keeps.bind fun _ => .bind .enter fun _ => ?_
    exact (SwitchCase.allTyped_keeps cs).bind fun _ => .leave
  | .synchronized e b _ => by
    simp only [Stmt.typed]
    exact (Expr.typed_binds e none).note.discard.keeps.bind fun _ => Block.typed_keeps b
  | .labeled _ a _ => by
    simp only [Stmt.typed]
    exact Stmt.typed_keeps a
  | .assertion e none _ => by
    simp only [Stmt.typed]
    exact (Expr.typed_binds e none).note.discard.keeps.bind fun _ => .pure _
  | .assertion e (some m) _ => by
    simp only [Stmt.typed]
    refine (Expr.typed_binds e none).note.discard.keeps.bind fun _ => ?_
    exact (Expr.typed_binds m none).note.discard.keeps

theorem Stmt.allTyped_keeps {base : LocalScope} {k : Nat} : ∀ ss : List Stmt,
    Takes (Over (k + 1) base) (Stmt.allTyped c ss) (Over (k + 1) base)
  | [] => .pure _
  | s :: ss => by
    simp only [Stmt.allTyped]
    exact (Stmt.typed_keeps s).bind fun _ => Stmt.allTyped_keeps ss

theorem VarDeclarator.allTyped_keeps {base : LocalScope} {k : Nat} :
    ∀ (vs : List VarDeclarator) (declared : Option DataType),
      Takes (Over (k + 1) base) (VarDeclarator.allTyped c declared vs) (Over (k + 1) base)
  | [], _ => .pure _
  | ⟨_, _, none, _⟩ :: vs, declared => by
    simp only [VarDeclarator.allTyped]
    exact (Binds.declare _ _).keeps.bind fun _ => VarDeclarator.allTyped_keeps vs declared
  | ⟨_, _, some e, _⟩ :: vs, declared => by
    simp only [VarDeclarator.allTyped]
    refine (Expr.typed_binds e _).note.discard.keeps.bind fun _ => ?_
    exact (Binds.declare _ _).keeps.bind fun _ => VarDeclarator.allTyped_keeps vs declared

theorem VarDeclarator.allInferred_keeps {base : LocalScope} {k : Nat} :
    ∀ vs : List VarDeclarator,
      Takes (Over (k + 1) base) (VarDeclarator.allInferred c vs) (Over (k + 1) base)
  | [] => .pure _
  | ⟨_, _, none, _⟩ :: vs => by
    simp only [VarDeclarator.allInferred]
    exact (Binds.declare _ _).keeps.bind fun _ => VarDeclarator.allInferred_keeps vs
  | ⟨_, _, some e, _⟩ :: vs => by
    simp only [VarDeclarator.allInferred]
    refine (Expr.typed_binds e none).note.keeps.bind fun _ => ?_
    exact (Binds.declare _ _).keeps.bind fun _ => VarDeclarator.allInferred_keeps vs

theorem CatchClause.allTyped_keeps {base : LocalScope} {k : Nat} : ∀ cs : List CatchClause,
    Takes (Over k base) (CatchClause.allTyped c cs) (Over k base)
  | [] => .pure _
  | ⟨_, _, _, b, _⟩ :: cs => by
    simp only [CatchClause.allTyped]
    refine .bind .enter fun _ => (Binds.declare _ _).keeps.bind fun _ => ?_
    refine (Block.typed_keeps b).bind fun _ => .bind .leave fun _ => ?_
    exact CatchClause.allTyped_keeps cs

theorem SwitchCase.allTyped_keeps {base : LocalScope} {k : Nat} : ∀ cs : List SwitchCase,
    Takes (Over (k + 1) base) (SwitchCase.allTyped c cs) (Over (k + 1) base)
  | [] => .pure _
  | ⟨ls, ss, _⟩ :: cs => by
    simp only [SwitchCase.allTyped]
    refine (Expr.allTyped_binds ls none).discard.keeps.bind fun _ => ?_
    exact (Stmt.allTyped_keeps ss).bind fun _ => SwitchCase.allTyped_keeps cs

end

end

/-! ### Expression statements -/

/-- **What an expression statement declares**: the variables of its type tests that stand outside of
lambdas, in the innermost scope. They are in scope behind the statement until that scope is closed.
All other names mean what they meant before, and once the scope is closed everything is as if the
statement had not been there. -/
theorem Stmt.expr_typed_scope (c : Context) (e : Expr) (span : Span) (s : TyperState)
    (hs : s.scope.Orderly) :
    let after := (((Stmt.expr e span).typed c).run s).2.scope
    after.Agree (s.scope.declareAll (e.patterns c))
      ∧ (∀ name ∉ e.bound, after.get? name = s.scope.get? name)
      ∧ (∀ name ∈ e.bound, ∃ b ∈ e.patterns c, b.1.name = name
          ∧ after.get? name = some ⟨name, b.2, s.scope.depth, b.1.span⟩)
      ∧ (s.scope.depth ≠ 0 → after.leave.Agree s.scope.leave) := by
  intro after
  have hbinds : Binds ((Stmt.expr e span).typed c) (e.patterns c) := by
    simp only [Stmt.typed]
    exact (Expr.typed_binds e none).note.discard
  obtain ⟨horderly, hagree⟩ := hbinds s hs
  refine ⟨hagree, fun name hname => ?_, fun name hname => ?_, fun hdepth => ?_⟩
  · rw [← e.map_patterns c] at hname
    exact (hagree.get? name).trans (get?_declareAll_of_not_mem hname)
  · rw [← e.map_patterns c] at hname
    obtain ⟨b, hb, hb', hget⟩ := exists_get?_declareAll (s := s.scope) hname
    exact ⟨b, hb, hb', (hagree.get? name).trans hget⟩
  · exact (hagree.leave horderly hs.declareAll).trans (.leave_declareAll hs hdepth)

/-- The expression `o instanceof String s`. -/
def Expr.sampleTest : Expr :=
  .instanceOf (.name ⟨"o", ⟨0, 1, 1, 1⟩⟩)
    ⟨.named ⟨[⟨"String", ⟨13, 6, 1, 14⟩⟩], ⟨13, 6, 1, 14⟩⟩, [], 0, ⟨13, 6, 1, 14⟩⟩
    (some ⟨"s", ⟨20, 1, 1, 21⟩⟩) ⟨0, 21, 1, 1⟩

/-- A block with a variable `s` of type `int`. -/
def LocalScope.sampleBlock : LocalScope :=
  LocalScope.empty.enter.declare "s" (some (.simple .int)) ⟨0, 1, 1, 1⟩

theorem LocalScope.orderly_sampleBlock : LocalScope.sampleBlock.Orderly :=
  Orderly.empty.enter.declare

/-- Behind the statement `o instanceof String s;` the name `s` means the variable that it binds,
until the block is closed; `t` means nothing, as before. -/
theorem Stmt.expr_typed_scope_sampleTest :
    let c : Context := .inType .empty ⟨"", [], []⟩ .object
    let s : TyperState := ⟨.sampleBlock, []⟩
    let after := (((Stmt.expr .sampleTest ⟨0, 22, 1, 1⟩).typed c).run s).2.scope
    s.scope.Orderly ∧ s.scope.depth ≠ 0
      ∧ after.get? "s" = some ⟨"s", none, 1, ⟨20, 1, 1, 21⟩⟩
      ∧ after.get? "t" = none
      ∧ after.leave.Agree s.scope.leave := by
  intro c s after
  have hs : s.scope.Orderly := LocalScope.orderly_sampleBlock
  have hdepth : s.scope.depth ≠ 0 := by decide
  obtain ⟨hagree, hother, -, hleave⟩ :=
    Stmt.expr_typed_scope c .sampleTest ⟨0, 22, 1, 1⟩ s hs
  refine ⟨hs, hdepth, (hagree.get? "s").trans ?_, (hother "t" ?_).trans ?_, hleave hdepth⟩
  · decide +kernel
  · decide
  · decide

/-- It does not leave the visible names and their types as they are. -/
theorem Stmt.expr_typed_scope_ne :
    ¬ ∀ (c : Context) (e : Expr) (span : Span) (s : TyperState), s.scope.Orderly → ∀ name,
      ((((Stmt.expr e span).typed c).run s).2.scope.get? name).map LocalVar.type
        = (s.scope.get? name).map LocalVar.type := by
  intro h
  have := h (.inType .empty ⟨"", [], []⟩ .object) .sampleTest ⟨0, 22, 1, 1⟩ ⟨.sampleBlock, []⟩
    LocalScope.orderly_sampleBlock "s"
  revert this
  decide +kernel

end JavaGraft

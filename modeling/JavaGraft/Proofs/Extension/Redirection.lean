import JavaGraft.Extension.Splice
import JavaGraft.Proofs.Tree.Calls

/-!
# Redirected trees

What the transformation of a type means, said without numbers of calls: `Expr.redirected` walks
over the type's own code, and where it meets a call in a slot for which `callee` has a new callee,
the call gets that callee, and its receiver as the first argument. Receivers and arguments are
redirected themselves, everywhere else the tree is copied, and what is foreign is left alone.

Splicing knows nothing of slots and goes by the numbers of calls. The two agree wherever `new`
has a number's callee exactly for the calls in slots (`JavaGraft.Member.spliced_eq_redirected`).
-/

namespace JavaGraft

/-! ### Redirecting -/

mutual

/-- An expression at a place, with calls redirected. -/
def Expr.redirected (callee : Call → Option Expr) (p : Place) : Expr → Expr
  | .call id (.field e n fs) as s =>
    match if p = .slot then callee ⟨id, .field e n fs, as, s⟩ else none with
    | some g => .call id g (e.redirected callee p.below :: Expr.allRedirected callee p.below as) s
    | none =>
      .call id (.field (e.redirected callee p.below) n fs) (Expr.allRedirected callee p.below as) s
  | .call id f as s =>
    match if p = .slot then callee ⟨id, f, as, s⟩ else none with
    | some g => .call id g (.this f.span :: Expr.allRedirected callee p.below as) s
    | none => .call id (f.redirected callee p.below) (Expr.allRedirected callee p.below as) s
  | .paren e s => .paren (e.redirected callee p) s
  | .field e n s => .field (e.redirected callee p.below) n s
  | .new t as s => .new t (Expr.allRedirected callee p.below as) s
  | .newAnonymous t as ms s => .newAnonymous t (Expr.allRedirected callee p.below as) ms s
  | .newArray t ds s => .newArray t (Expr.allRedirected callee p.below ds) s
  | .newArrayOf t ds es b s =>
    .newArrayOf t (Expr.allRedirected callee p.below ds) (Expr.allRedirected callee p.below es) b s
  | .arrayInit es s => .arrayInit (Expr.allRedirected callee p.below es) s
  | .index a b s => .index (a.redirected callee p.below) (b.redirected callee p.below) s
  | .unary op e s => .unary op (e.redirected callee p.below) s
  | .update e op s => .update (e.redirected callee p.below) op s
  | .binary a op b s => .binary (a.redirected callee p.below) op (b.redirected callee p.below) s
  | .instanceOf e t n s => .instanceOf (e.redirected callee p.below) t n s
  | .assign a op b s => .assign (a.redirected callee p.below) op (b.redirected callee p.below) s
  | .conditional e a b s =>
    .conditional (e.redirected callee p.below) (a.redirected callee p.below)
      (b.redirected callee p.below) s
  | .cast t e s => .cast t (e.redirected callee p.below) s
  | .lambda ps e s => .lambda ps (e.redirected callee p.below) s
  | .blockLambda ps b s => .blockLambda ps (b.redirected callee p.below) s
  | .methodRef e n s => .methodRef (e.redirected callee p.below) n s
  | .literal v s => .literal v s
  | .name i => .name i
  | .this s => .this s
  | .super s => .super s
  | .classLit t s => .classLit t s

/-- Expressions at a place, with calls redirected. -/
def Expr.allRedirected (callee : Call → Option Expr) (p : Place) : List Expr → List Expr
  | [] => []
  | e :: es => e.redirected callee p :: Expr.allRedirected callee p es

/-- An expression, if there is one, with calls redirected. -/
def Expr.optionRedirected (callee : Call → Option Expr) (p : Place) : Option Expr → Option Expr
  | none => none
  | some e => some (e.redirected callee p)

/-- A block with calls redirected. -/
def Block.redirected (callee : Call → Option Expr) (p : Place) : Block → Block
  | ⟨ss, s⟩ => ⟨Stmt.allRedirected callee p ss, s⟩

/-- A block, if there is one, with calls redirected. -/
def Block.optionRedirected (callee : Call → Option Expr) (p : Place) : Option Block → Option Block
  | none => none
  | some b => some (b.redirected callee p)

/-- A statement with calls redirected. -/
def Stmt.redirected (callee : Call → Option Expr) (p : Place) : Stmt → Stmt
  | .block b => .block (b.redirected callee p)
  | .localVar m t vs s => .localVar m t (VarDeclarator.allRedirected callee p.filled vs) s
  | .localType d => .localType d
  | .expr e s => .expr (e.redirected callee p.filled) s
  | .ifThen e a s => .ifThen (e.redirected callee p.filled) (a.redirected callee p) s
  | .ifElse e a b s =>
    .ifElse (e.redirected callee p.filled) (a.redirected callee p) (b.redirected callee p) s
  | .whileLoop e a s => .whileLoop (e.redirected callee p.filled) (a.redirected callee p) s
  | .doLoop a e s => .doLoop (a.redirected callee p) (e.redirected callee p.filled) s
  | .forLoop i e us a s =>
    .forLoop (Stmt.allRedirected callee p i) (Expr.optionRedirected callee p.filled e)
      (Expr.allRedirected callee p.filled us) (a.redirected callee p) s
  | .forEach m t n e a s => .forEach m t n (e.redirected callee p.filled) (a.redirected callee p) s
  | .ret e s => .ret (Expr.optionRedirected callee p.filled e) s
  | .breakTo l s => .breakTo l s
  | .continueTo l s => .continueTo l s
  | .throwing e s => .throwing (e.redirected callee p.filled) s
  | .tryCatch rs b cs f s =>
    .tryCatch (Stmt.allRedirected callee p rs) (b.redirected callee p)
      (CatchClause.allRedirected callee p cs) (Block.optionRedirected callee p f) s
  | .switch e cs s =>
    .switch (e.redirected callee p.filled) (SwitchCase.allRedirected callee p cs) s
  | .synchronized e b s => .synchronized (e.redirected callee p.filled) (b.redirected callee p) s
  | .labeled l a s => .labeled l (a.redirected callee p) s
  | .assertion e m s =>
    .assertion (e.redirected callee p.filled) (Expr.optionRedirected callee p.filled m) s
  | .empty s => .empty s

/-- Statements with calls redirected. -/
def Stmt.allRedirected (callee : Call → Option Expr) (p : Place) : List Stmt → List Stmt
  | [] => []
  | s :: ss => s.redirected callee p :: Stmt.allRedirected callee p ss

/-- Variables with calls redirected in their initial values, which are at the place. -/
def VarDeclarator.allRedirected (callee : Call → Option Expr) (p : Place) :
    List VarDeclarator → List VarDeclarator
  | [] => []
  | ⟨n, dims, e, s⟩ :: vs =>
    ⟨n, dims, Expr.optionRedirected callee p e, s⟩ :: VarDeclarator.allRedirected callee p vs

/-- Handlers with calls redirected. -/
def CatchClause.allRedirected (callee : Call → Option Expr) (p : Place) :
    List CatchClause → List CatchClause
  | [] => []
  | ⟨m, ts, n, b, s⟩ :: cs =>
    ⟨m, ts, n, b.redirected callee p, s⟩ :: CatchClause.allRedirected callee p cs

/-- Groups of a `switch` with calls redirected. -/
def SwitchCase.allRedirected (callee : Call → Option Expr) (p : Place) :
    List SwitchCase → List SwitchCase
  | [] => []
  | ⟨ls, ss, s⟩ :: cs =>
    ⟨Expr.allRedirected callee p.below ls, Stmt.allRedirected callee p ss, s⟩ ::
      SwitchCase.allRedirected callee p cs

end

/-- **A member with the calls in its slots redirected.** -/
def Member.redirected (callee : Call → Option Expr) (p : Place) : Member → Member
  | .field m t vs s => .field m t (VarDeclarator.allRedirected callee p.filled vs) s
  | .method m tps t n ps ts d b s => .method m tps t n ps ts d (Block.optionRedirected callee p b) s
  | .constructor m tps n ps ts b s => .constructor m tps n ps ts (b.redirected callee p) s
  | .initializer st b s => .initializer st (b.redirected callee p) s
  | .type d => .type d

/-- **A type with other annotations**, and with the calls in the slots of its members redirected.
All the rest is as it was. -/
def TypeDecl.redirected (d : TypeDecl) (annots : List Annot)
    (callee : Member → Call → Option Expr) : TypeDecl :=
  { d with
    modifiers := { d.modifiers with annots }
    members := d.members.map fun m => m.redirected (callee m) .inside }

/-- **What becomes of a call**: if it is in a slot and has a new callee, that callee is called with
the receiver in front of the arguments. -/
theorem Expr.redirected_call (callee : Call → Option Expr) (p : Place) (c : Call) :
    (Expr.call c.id c.callee c.args c.span).redirected callee p =
      match if p = .slot then callee c else none with
      | some g =>
        .call c.id g
          (c.receiver.redirected callee p.below :: Expr.allRedirected callee p.below c.args) c.span
      | none =>
        .call c.id (c.callee.redirected callee p.below) (Expr.allRedirected callee p.below c.args)
          c.span := by
  obtain ⟨id, f, as, s⟩ := c
  cases f with
  | field e n fs =>
    simp only [Expr.redirected, Call.receiver, Call.receiver?, Option.getD_some, Place.below_below]
  | _ => rfl

/-- Splicing does with a call what its number asks for. -/
theorem Expr.spliced_call (new : Nat → Option Expr) (c : Call) :
    (Expr.call c.id c.callee c.args c.span).spliced new =
      match new c.id with
      | some g => .call c.id g (c.receiver.spliced new :: Expr.allSpliced new c.args) c.span
      | none => .call c.id (c.callee.spliced new) (Expr.allSpliced new c.args) c.span := by
  obtain ⟨id, f, as, s⟩ := c
  cases f <;> rfl

/-! ### Splicing by number redirects by place -/

/-- Whether `new` has, for the calls listed, what `callee` has for those in slots, and nothing for
the others. Foreign calls do not matter. -/
def Agrees (new : Nat → Option Expr) (callee : Call → Option Expr) (xs : List (Place × Call)) :
    Prop :=
  ∀ x ∈ xs, x.1 ≠ .foreign → new x.2.id = if x.1 = .slot then callee x.2 else none

section Agrees

variable {new : Nat → Option Expr} {callee : Call → Option Expr}

@[simp] theorem agrees_append {xs ys : List (Place × Call)} :
    Agrees new callee (xs ++ ys) ↔ Agrees new callee xs ∧ Agrees new callee ys := by
  simp only [Agrees, List.forall_mem_append]

theorem agrees_cons {x : Place × Call} {xs : List (Place × Call)} :
    Agrees new callee (x :: xs) ↔
      (x.1 ≠ .foreign → new x.2.id = if x.1 = .slot then callee x.2 else none) ∧
        Agrees new callee xs := by
  simp only [Agrees, List.forall_mem_cons]

/-- Where a callee is treated alike, so is the receiver in it. -/
theorem Call.receiver_congr {p : Place} (c : Call)
    (h : c.callee.spliced new = c.callee.redirected callee p.below) :
    c.receiver.spliced new = c.receiver.redirected callee p.below := by
  obtain ⟨id, f, as, s⟩ := c
  cases f with
  | field e n fs =>
    rw [Expr.spliced, Expr.redirected, Place.below_below] at h
    exact (Expr.field.inj h).1
  | _ => rfl

mutual

theorem Expr.spliced_eq_redirected {p : Place} (hp : p.IsOwn) :
    ∀ e : Expr, Agrees new callee (e.calls p) → e.spliced new = e.redirected callee p
  | .literal .. | .name _ | .this _ | .super _ | .classLit .. => fun _ => rfl
  | .paren e _ => fun h => by
    rw [Expr.spliced, Expr.redirected, e.spliced_eq_redirected hp h]
  | .field e _ _ | .unary _ e _ | .update e _ _ | .methodRef e _ _ | .cast _ e _
  | .instanceOf e _ _ _ | .lambda _ e _ => fun h => by
    rw [Expr.spliced, Expr.redirected, e.spliced_eq_redirected hp.below h]
  | .call id f as s => fun h => by
    rw [Expr.calls, agrees_cons, agrees_append] at h
    obtain ⟨hnew, hf, has⟩ := h
    -- The receiver is inside the callee, so what holds of the callee holds of it.
    have hcallee := f.spliced_eq_redirected hp.below hf
    have hreceiver := Call.receiver_congr ⟨id, f, as, s⟩ hcallee
    rw [Expr.spliced_call new ⟨id, f, as, s⟩, Expr.redirected_call callee p ⟨id, f, as, s⟩,
      hnew hp, hcallee, hreceiver, Expr.allSpliced_eq_redirected hp.below as has]
  | .new _ as _ | .newArray _ as _ | .arrayInit as _ => fun h => by
    rw [Expr.spliced, Expr.redirected, Expr.allSpliced_eq_redirected hp.below as h]
  | .newAnonymous _ as ms _ => fun h => by
    rw [Expr.calls, agrees_append] at h
    rw [Expr.spliced, Expr.redirected, Expr.allSpliced_eq_redirected hp.below as h.1]
  | .newArrayOf _ ds es _ _ => fun h => by
    rw [Expr.calls, agrees_append] at h
    rw [Expr.spliced, Expr.redirected, Expr.allSpliced_eq_redirected hp.below ds h.1,
      Expr.allSpliced_eq_redirected hp.below es h.2]
  | .index a b _ | .binary a _ b _ | .assign a _ b _ => fun h => by
    rw [Expr.calls, agrees_append] at h
    rw [Expr.spliced, Expr.redirected, a.spliced_eq_redirected hp.below h.1,
      b.spliced_eq_redirected hp.below h.2]
  | .conditional e a b _ => fun h => by
    rw [Expr.calls, agrees_append, agrees_append] at h
    rw [Expr.spliced, Expr.redirected, e.spliced_eq_redirected hp.below h.1.1,
      a.spliced_eq_redirected hp.below h.1.2, b.spliced_eq_redirected hp.below h.2]
  | .blockLambda _ b _ => fun h => by
    rw [Expr.spliced, Expr.redirected, b.spliced_eq_redirected hp.below h]

theorem Expr.allSpliced_eq_redirected {p : Place} (hp : p.IsOwn) :
    ∀ es : List Expr, Agrees new callee (Expr.allCalls p es) →
      Expr.allSpliced new es = Expr.allRedirected callee p es
  | [] => fun _ => rfl
  | e :: es => fun h => by
    rw [Expr.allCalls, agrees_append] at h
    rw [Expr.allSpliced, Expr.allRedirected, e.spliced_eq_redirected hp h.1,
      Expr.allSpliced_eq_redirected hp es h.2]

theorem Block.spliced_eq_redirected {p : Place} (hp : p.IsOwn) :
    ∀ b : Block, Agrees new callee (b.calls p) → b.spliced new = b.redirected callee p
  | ⟨ss, _⟩ => fun h => by
    rw [Block.spliced, Block.redirected, Stmt.allSpliced_eq_redirected hp ss h]

theorem Stmt.spliced_eq_redirected {p : Place} (hp : p.IsOwn) :
    ∀ s : Stmt, Agrees new callee (s.calls p) → s.spliced new = s.redirected callee p
  | .block b => fun h => by rw [Stmt.spliced, Stmt.redirected, b.spliced_eq_redirected hp h]
  | .localVar _ _ vs _ => fun h => by
    rw [Stmt.calls, agrees_append] at h
    rw [Stmt.spliced, Stmt.redirected, VarDeclarator.allSpliced_eq_redirected hp.filled vs h.2]
  | .localType _ | .breakTo .. | .continueTo .. | .empty _ | .ret none _ => fun _ => rfl
  | .expr e _ | .throwing e _ => fun h => by
    rw [Stmt.spliced, Stmt.redirected, e.spliced_eq_redirected hp.filled h]
  | .ret (some e) _ => fun h => by
    rw [Stmt.spliced, Stmt.redirected, Expr.optionRedirected, e.spliced_eq_redirected hp.filled h]
  | .ifThen e a _ | .whileLoop e a _ => fun h => by
    rw [Stmt.calls, agrees_append] at h
    rw [Stmt.spliced, Stmt.redirected, e.spliced_eq_redirected hp.filled h.1,
      a.spliced_eq_redirected hp h.2]
  | .ifElse e a b _ => fun h => by
    rw [Stmt.calls, agrees_append, agrees_append] at h
    rw [Stmt.spliced, Stmt.redirected, e.spliced_eq_redirected hp.filled h.1.1,
      a.spliced_eq_redirected hp h.1.2, b.spliced_eq_redirected hp h.2]
  | .doLoop a e _ => fun h => by
    rw [Stmt.calls, agrees_append] at h
    rw [Stmt.spliced, Stmt.redirected, a.spliced_eq_redirected hp h.1,
      e.spliced_eq_redirected hp.filled h.2]
  | .forLoop i none us a _ => fun h => by
    rw [Stmt.calls, agrees_append, agrees_append, agrees_append] at h
    rw [Stmt.spliced, Stmt.redirected, Expr.optionRedirected,
      Stmt.allSpliced_eq_redirected hp i h.1.1.1, Expr.allSpliced_eq_redirected hp.filled us h.1.2,
      a.spliced_eq_redirected hp h.2]
  | .forLoop i (some e) us a _ => fun h => by
    rw [Stmt.calls, agrees_append, agrees_append, agrees_append] at h
    rw [Stmt.spliced, Stmt.redirected, Expr.optionRedirected,
      Stmt.allSpliced_eq_redirected hp i h.1.1.1, e.spliced_eq_redirected hp.filled h.1.1.2,
      Expr.allSpliced_eq_redirected hp.filled us h.1.2, a.spliced_eq_redirected hp h.2]
  | .forEach _ _ _ e a _ => fun h => by
    rw [Stmt.calls, agrees_append, agrees_append] at h
    rw [Stmt.spliced, Stmt.redirected, e.spliced_eq_redirected hp.filled h.1.2,
      a.spliced_eq_redirected hp h.2]
  | .tryCatch rs b cs none _ => fun h => by
    rw [Stmt.calls, agrees_append, agrees_append, agrees_append] at h
    rw [Stmt.spliced, Stmt.redirected, Block.optionRedirected,
      Stmt.allSpliced_eq_redirected hp rs h.1.1.1, b.spliced_eq_redirected hp h.1.1.2,
      CatchClause.allSpliced_eq_redirected hp cs h.1.2]
  | .tryCatch rs b cs (some f) _ => fun h => by
    rw [Stmt.calls, agrees_append, agrees_append, agrees_append] at h
    rw [Stmt.spliced, Stmt.redirected, Block.optionRedirected,
      Stmt.allSpliced_eq_redirected hp rs h.1.1.1, b.spliced_eq_redirected hp h.1.1.2,
      CatchClause.allSpliced_eq_redirected hp cs h.1.2, f.spliced_eq_redirected hp h.2]
  | .switch e cs _ => fun h => by
    rw [Stmt.calls, agrees_append] at h
    rw [Stmt.spliced, Stmt.redirected, e.spliced_eq_redirected hp.filled h.1,
      SwitchCase.allSpliced_eq_redirected hp cs h.2]
  | .synchronized e b _ => fun h => by
    rw [Stmt.calls, agrees_append] at h
    rw [Stmt.spliced, Stmt.redirected, e.spliced_eq_redirected hp.filled h.1,
      b.spliced_eq_redirected hp h.2]
  | .labeled _ a _ => fun h => by rw [Stmt.spliced, Stmt.redirected, a.spliced_eq_redirected hp h]
  | .assertion e none _ => fun h => by
    rw [Stmt.calls, agrees_append] at h
    rw [Stmt.spliced, Stmt.redirected, Expr.optionRedirected,
      e.spliced_eq_redirected hp.filled h.1]
  | .assertion e (some m) _ => fun h => by
    rw [Stmt.calls, agrees_append] at h
    rw [Stmt.spliced, Stmt.redirected, Expr.optionRedirected,
      e.spliced_eq_redirected hp.filled h.1, m.spliced_eq_redirected hp.filled h.2]

theorem Stmt.allSpliced_eq_redirected {p : Place} (hp : p.IsOwn) :
    ∀ ss : List Stmt, Agrees new callee (Stmt.allCalls p ss) →
      Stmt.allSpliced new ss = Stmt.allRedirected callee p ss
  | [] => fun _ => rfl
  | s :: ss => fun h => by
    rw [Stmt.allCalls, agrees_append] at h
    rw [Stmt.allSpliced, Stmt.allRedirected, s.spliced_eq_redirected hp h.1,
      Stmt.allSpliced_eq_redirected hp ss h.2]

theorem VarDeclarator.allSpliced_eq_redirected {p : Place} (hp : p.IsOwn) :
    ∀ vs : List VarDeclarator, Agrees new callee (VarDeclarator.allCalls p vs) →
      VarDeclarator.allSpliced new vs = VarDeclarator.allRedirected callee p vs
  | [] => fun _ => rfl
  | ⟨_, _, none, _⟩ :: vs => fun h => by
    rw [VarDeclarator.allCalls, agrees_append] at h
    rw [VarDeclarator.allSpliced, VarDeclarator.allRedirected, Expr.optionRedirected,
      VarDeclarator.allSpliced_eq_redirected hp vs h.2]
  | ⟨_, _, some e, _⟩ :: vs => fun h => by
    rw [VarDeclarator.allCalls, agrees_append] at h
    rw [VarDeclarator.allSpliced, VarDeclarator.allRedirected, Expr.optionRedirected,
      e.spliced_eq_redirected hp h.1, VarDeclarator.allSpliced_eq_redirected hp vs h.2]

theorem CatchClause.allSpliced_eq_redirected {p : Place} (hp : p.IsOwn) :
    ∀ cs : List CatchClause, Agrees new callee (CatchClause.allCalls p cs) →
      CatchClause.allSpliced new cs = CatchClause.allRedirected callee p cs
  | [] => fun _ => rfl
  | ⟨_, _, _, b, _⟩ :: cs => fun h => by
    rw [CatchClause.allCalls, agrees_append, agrees_append] at h
    rw [CatchClause.allSpliced, CatchClause.allRedirected, b.spliced_eq_redirected hp h.1.2,
      CatchClause.allSpliced_eq_redirected hp cs h.2]

theorem SwitchCase.allSpliced_eq_redirected {p : Place} (hp : p.IsOwn) :
    ∀ cs : List SwitchCase, Agrees new callee (SwitchCase.allCalls p cs) →
      SwitchCase.allSpliced new cs = SwitchCase.allRedirected callee p cs
  | [] => fun _ => rfl
  | ⟨ls, ss, _⟩ :: cs => fun h => by
    rw [SwitchCase.allCalls, agrees_append, agrees_append] at h
    rw [SwitchCase.allSpliced, SwitchCase.allRedirected,
      Expr.allSpliced_eq_redirected hp.below ls h.1.1, Stmt.allSpliced_eq_redirected hp ss h.1.2,
      SwitchCase.allSpliced_eq_redirected hp cs h.2]

end

/-- **Splicing by number redirects by place**, if the numbers of the calls in slots ask for what is
to become of these calls, and those of the other calls for nothing. -/
theorem Member.spliced_eq_redirected {p : Place} (hp : p.IsOwn) (m : Member)
    (h : Agrees new callee (m.calls p)) : m.spliced new = m.redirected callee p := by
  cases m with
  | field m t vs s =>
    rw [Member.calls, agrees_append] at h
    rw [Member.spliced, Member.redirected,
      VarDeclarator.allSpliced_eq_redirected hp.filled vs h.2]
  | method m tps t n ps ts d b s =>
    rw [Member.calls, agrees_append] at h
    cases b with
    | none => rfl
    | some b =>
      rw [Member.spliced, Member.redirected, Option.map_some, b.spliced_eq_redirected hp h.2]
      rfl
  | constructor m tps n ps ts b s =>
    rw [Member.calls, agrees_append] at h
    rw [Member.spliced, Member.redirected, b.spliced_eq_redirected hp h.2]
  | initializer st b s => rw [Member.spliced, Member.redirected, b.spliced_eq_redirected hp h]
  | type d => rfl

end Agrees

end JavaGraft

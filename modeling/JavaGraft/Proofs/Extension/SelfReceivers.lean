import JavaGraft.Proofs.Extension.Report
import JavaGraft.Proofs.Extension.Result
import JavaGraft.Proofs.Tree.SelfWords

/-!
# `this` and `super` as receivers

When a call is redirected, its receiver becomes an argument, and a call without receiver counts as
one on `this`. Neither the member in which the call stands nor the receiver itself is asked whether
that makes sense. So static code may come to say `this` (`JavaGraft.TypeDecl.extended_this`), and
`super`, of which only the members may be used, may come to be passed on by itself
(`JavaGraft.TypeDecl.extended_super`). How often either happens is known exactly: once for every
redirected call without receiver, and once for every redirected call on `super`.

Both are cases of one count. Redirection takes a call's receiver out of its callee and puts it in
front of the arguments, so that words are lost and gained only where the receiver is itself `this`
or `super`, or is not written (`JavaGraft.Member.countP_redirected`).
-/

namespace JavaGraft

/-! ### Counting words -/

section Counting

variable {callee : Call → Option Expr} {f : SelfWord × SelfUse → Bool}

/-- What is asked of new callees and of the words that are counted: only calls of a name, with or
without a receiver, have a new callee; neither word is in it; and a word that counts as a target
counts as a value. -/
structure IsTracked (callee : Call → Option Expr) (f : SelfWord × SelfUse → Bool) : Prop where
  named : ∀ c g, callee c = some g →
    (∃ i, c.callee = .name i) ∨ ∃ e n s, c.callee = .field e n s
  wordless : ∀ c g, callee c = some g → ∀ u, g.selfWords u = []
  value : ∀ w, f (w, .target) → f (w, .value)

/-- The words that a call gains if its receiver becomes an argument. -/
def Call.gained (f : SelfWord × SelfUse → Bool) (c : Call) : Nat :=
  (c.receiver.selfWords .value).countP f - (c.callee.selfWords .callee).countP f

/-- The words that calls gain if they have a new callee. -/
def Call.allGained (callee : Call → Option Expr) (f : SelfWord × SelfUse → Bool) : List Call → Nat
  | [] => 0
  | c :: cs => (if (callee c).isSome then c.gained f else 0) + allGained callee f cs

theorem Call.allGained_append (cs ds : List Call) :
    allGained callee f (cs ++ ds) = allGained callee f cs + allGained callee f ds := by
  induction cs with
  | nil => exact (Nat.zero_add _).symm
  | cons c cs ih => rw [List.cons_append, allGained, allGained, ih, Nat.add_assoc]

/-- The words that the calls in slots gain. -/
def Place.gains (callee : Call → Option Expr) (f : SelfWord × SelfUse → Bool)
    (xs : List (Place × Call)) : Nat := Call.allGained callee f (slots xs)

@[simp] theorem Place.gains_append (xs ys : List (Place × Call)) :
    gains callee f (xs ++ ys) = gains callee f xs + gains callee f ys := by
  rw [gains, slots_append, Call.allGained_append]
  rfl

theorem Place.gains_of_slots {xs : List (Place × Call)} (h : slots xs = []) :
    gains callee f xs = 0 := by
  rw [gains, h]
  rfl

@[simp] theorem Modifiers.gains_foreign (m : Modifiers) :
    Place.gains callee f (m.calls .foreign) = 0 := Place.gains_of_slots m.slots_foreign

@[simp] theorem TypeDecl.gains_foreign (d : TypeDecl) :
    Place.gains callee f (d.calls .foreign) = 0 := Place.gains_of_slots d.slots_foreign

@[simp] theorem Member.gains_foreign (ms : List Member) :
    Place.gains callee f (Member.allCalls .foreign ms) = 0 :=
  Place.gains_of_slots (Member.slots_foreign ms)

@[simp] theorem Param.gains_calls (ps : List Param) :
    Place.gains callee f (Param.allCalls ps) = 0 := Place.gains_of_slots (Param.slots_calls ps)

@[simp] theorem Element.gains_foreign (v : Option Element) :
    Place.gains callee f (Element.optionCalls .foreign v) = 0 :=
  Place.gains_of_slots (Element.slots_foreign v)

/-- What a word is used for matters to the word alone, and words are not redirected. -/
theorem Expr.selfWords_redirected_value (p : Place) (e : Expr) :
    ((e.redirected callee p).selfWords .value).countP f + (e.selfWords .target).countP f =
      ((e.redirected callee p).selfWords .target).countP f + (e.selfWords .value).countP f := by
  cases e with
  | this s => exact Nat.add_comm _ _
  | super s => exact Nat.add_comm _ _
  | call id g as s =>
    rw [Expr.redirected_call callee p ⟨id, g, as, s⟩]
    split <;> rfl
  | _ => rfl

/-- A word that is counted as a target is counted as a value. -/
theorem Expr.countP_target_le (h : IsTracked callee f) (e : Expr) :
    (e.selfWords .target).countP f ≤ (e.selfWords .value).countP f := by
  have hword (w : SelfWord) : [(w, SelfUse.target)].countP f ≤ [(w, SelfUse.value)].countP f := by
    cases htarget : f (w, .target) with
    | false => simp [htarget]
    | true => simp [htarget, h.value w htarget]
  cases e with
  | this s => exact hword .this
  | super s => exact hword .super
  | _ => exact Nat.le_refl _

/-- If a call is redirected, the words of its callee come back in the receiver. -/
theorem Call.countP_receiver (h : IsTracked callee f) (c : Call) (p : Place)
    (hcallee : (∃ i, c.callee = .name i) ∨ ∃ e n s, c.callee = .field e n s) :
    ((c.receiver.redirected callee p.below).selfWords .value).countP f =
      ((c.callee.redirected callee p.below).selfWords .callee).countP f + c.gained f := by
  obtain ⟨id, g, as, s⟩ := c
  rcases hcallee with ⟨i, rfl⟩ | ⟨e, n, fs, rfl⟩
  · simp [Call.gained, Call.receiver, Call.receiver?, Expr.redirected, Expr.selfWords]
  · have hvalue : ((e.redirected callee p.below).selfWords .value).countP f +
        (e.selfWords .target).countP f =
      ((e.redirected callee p.below).selfWords .target).countP f +
        (e.selfWords .value).countP f := e.selfWords_redirected_value p.below
    have hle := e.countP_target_le h
    simp only [Call.gained, Call.receiver, Call.receiver?, Option.getD_some, Expr.redirected,
      Expr.selfWords, Place.below_below]
    omega

/-- What becomes of the words of a call, from what becomes of those in its callee and its
arguments. -/
theorem Expr.countP_call (h : IsTracked callee f) (p : Place) (u : SelfUse) (c : Call)
    (hcallee : ((c.callee.redirected callee p.below).selfWords .callee).countP f =
      (c.callee.selfWords .callee).countP f + Place.gains callee f (c.callee.calls p.below))
    (hargs : (Expr.allSelfWords (Expr.allRedirected callee p.below c.args)).countP f =
      (Expr.allSelfWords c.args).countP f + Place.gains callee f (Expr.allCalls p.below c.args)) :
    (((Expr.call c.id c.callee c.args c.span).redirected callee p).selfWords u).countP f =
      ((Expr.call c.id c.callee c.args c.span).selfWords u).countP f +
        Place.gains callee f ((Expr.call c.id c.callee c.args c.span).calls p) := by
  have hcalls : Place.gains callee f ((Expr.call c.id c.callee c.args c.span).calls p) =
      (if p = .slot ∧ (callee c).isSome then c.gained f else 0) +
        (Place.gains callee f (c.callee.calls p.below) +
          Place.gains callee f (Expr.allCalls p.below c.args)) := by
    rw [← Place.gains_append]
    cases p <;> simp [Expr.calls, Place.gains, Place.slots, Call.allGained]
  rw [Expr.redirected_call, hcalls]
  cases hnew : if p = .slot then callee c else none with
  | none =>
    have hkept : ¬ (p = .slot ∧ (callee c).isSome) := by
      rintro ⟨hslot, hsome⟩
      rw [if_pos hslot] at hnew
      simp [hnew] at hsome
    simp only [Expr.selfWords, List.countP_append, hcallee, hargs, if_neg hkept]
    omega
  | some g =>
    obtain ⟨rfl, hg⟩ := Option.ite_none_right_eq_some.mp hnew
    have hreceiver := c.countP_receiver h .slot (h.named c g hg)
    simp only [Expr.selfWords, Expr.allSelfWords, h.wordless c g hg, List.nil_append,
      List.countP_append, hreceiver, hcallee, hargs, hg, Option.isSome_some, and_self, if_true]
    omega

mutual

theorem Expr.countP_redirected (h : IsTracked callee f) (p : Place) (u : SelfUse) : ∀ e : Expr,
    ((e.redirected callee p).selfWords u).countP f =
      (e.selfWords u).countP f + Place.gains callee f (e.calls p)
  | .literal .. | .name _ | .this _ | .super _ | .classLit .. => rfl
  | .paren e _ => e.countP_redirected h p .value
  | .field e _ _ | .methodRef e _ _ => e.countP_redirected h p.below .target
  | .unary _ e _ | .update e _ _ | .cast _ e _ | .instanceOf e _ _ _ | .lambda _ e _ =>
    e.countP_redirected h p.below .value
  | .call id g as s =>
    Expr.countP_call h p u ⟨id, g, as, s⟩ (g.countP_redirected h p.below .callee)
      (Expr.allCountP_redirected h p.below as)
  | .new _ as _ | .newArray _ as _ | .arrayInit as _ => Expr.allCountP_redirected h p.below as
  | .newAnonymous _ as ms _ => by
    simp only [Expr.redirected, Expr.selfWords, Expr.calls, List.countP_append, Place.gains_append,
      Expr.allCountP_redirected h p.below as, Member.gains_foreign]
    omega
  | .newArrayOf _ ds es _ _ => by
    simp only [Expr.redirected, Expr.selfWords, Expr.calls, List.countP_append, Place.gains_append,
      Expr.allCountP_redirected h p.below ds, Expr.allCountP_redirected h p.below es]
    omega
  | .index a b _ | .binary a _ b _ | .assign a _ b _ => by
    simp only [Expr.redirected, Expr.selfWords, Expr.calls, List.countP_append, Place.gains_append,
      a.countP_redirected h p.below .value, b.countP_redirected h p.below .value]
    omega
  | .conditional e a b _ => by
    simp only [Expr.redirected, Expr.selfWords, Expr.calls, List.countP_append, Place.gains_append,
      e.countP_redirected h p.below .value, a.countP_redirected h p.below .value,
      b.countP_redirected h p.below .value]
    omega
  | .blockLambda _ b _ => b.countP_redirected h p.below

theorem Expr.allCountP_redirected (h : IsTracked callee f) (p : Place) : ∀ es : List Expr,
    (Expr.allSelfWords (Expr.allRedirected callee p es)).countP f =
      (Expr.allSelfWords es).countP f + Place.gains callee f (Expr.allCalls p es)
  | [] => rfl
  | e :: es => by
    simp only [Expr.allRedirected, Expr.allSelfWords, Expr.allCalls, List.countP_append,
      Place.gains_append, e.countP_redirected h p .value, Expr.allCountP_redirected h p es]
    omega

theorem Expr.optionCountP_redirected (h : IsTracked callee f) (p : Place) : ∀ e : Option Expr,
    (Expr.optionSelfWords (Expr.optionRedirected callee p e)).countP f =
      (Expr.optionSelfWords e).countP f + Place.gains callee f (Expr.optionCalls p e)
  | none => rfl
  | some e => e.countP_redirected h p .value

theorem Block.countP_redirected (h : IsTracked callee f) (p : Place) : ∀ b : Block,
    ((b.redirected callee p).selfWords).countP f =
      b.selfWords.countP f + Place.gains callee f (b.calls p)
  | ⟨ss, _⟩ => Stmt.allCountP_redirected h p ss

theorem Block.optionCountP_redirected (h : IsTracked callee f) (p : Place) : ∀ b : Option Block,
    (Block.optionSelfWords (Block.optionRedirected callee p b)).countP f =
      (Block.optionSelfWords b).countP f + Place.gains callee f (Block.optionCalls p b)
  | none => rfl
  | some b => b.countP_redirected h p

theorem Stmt.countP_redirected (h : IsTracked callee f) (p : Place) : ∀ s : Stmt,
    ((s.redirected callee p).selfWords).countP f =
      s.selfWords.countP f + Place.gains callee f (s.calls p)
  | .block b => b.countP_redirected h p
  | .localVar m _ vs _ => by
    simp only [Stmt.redirected, Stmt.selfWords, Stmt.calls, List.countP_append, Place.gains_append,
      Modifiers.gains_foreign, VarDeclarator.allCountP_redirected h p.filled vs]
    omega
  | .localType d => by
    simp only [Stmt.redirected, Stmt.calls, TypeDecl.gains_foreign, Nat.add_zero]
  | .breakTo .. | .continueTo .. | .empty _ => rfl
  | .expr e _ | .throwing e _ => e.countP_redirected h p.filled .value
  | .ret e _ => Expr.optionCountP_redirected h p.filled e
  | .ifThen e a _ | .whileLoop e a _ | .doLoop a e _ => by
    simp only [Stmt.redirected, Stmt.selfWords, Stmt.calls, List.countP_append, Place.gains_append,
      e.countP_redirected h p.filled .value, a.countP_redirected h p]
    omega
  | .ifElse e a b _ => by
    simp only [Stmt.redirected, Stmt.selfWords, Stmt.calls, List.countP_append, Place.gains_append,
      e.countP_redirected h p.filled .value, a.countP_redirected h p, b.countP_redirected h p]
    omega
  | .forLoop i e us a _ => by
    simp only [Stmt.redirected, Stmt.selfWords, Stmt.calls, List.countP_append, Place.gains_append,
      Stmt.allCountP_redirected h p i, Expr.optionCountP_redirected h p.filled e,
      Expr.allCountP_redirected h p.filled us, a.countP_redirected h p]
    omega
  | .forEach m _ _ e a _ => by
    simp only [Stmt.redirected, Stmt.selfWords, Stmt.calls, List.countP_append, Place.gains_append,
      Modifiers.gains_foreign, e.countP_redirected h p.filled .value, a.countP_redirected h p]
    omega
  | .tryCatch rs b cs fin _ => by
    simp only [Stmt.redirected, Stmt.selfWords, Stmt.calls, List.countP_append, Place.gains_append,
      Stmt.allCountP_redirected h p rs, b.countP_redirected h p,
      CatchClause.allCountP_redirected h p cs, Block.optionCountP_redirected h p fin]
    omega
  | .switch e cs _ => by
    simp only [Stmt.redirected, Stmt.selfWords, Stmt.calls, List.countP_append, Place.gains_append,
      e.countP_redirected h p.filled .value, SwitchCase.allCountP_redirected h p cs]
    omega
  | .synchronized e b _ => by
    simp only [Stmt.redirected, Stmt.selfWords, Stmt.calls, List.countP_append, Place.gains_append,
      e.countP_redirected h p.filled .value, b.countP_redirected h p]
    omega
  | .labeled _ a _ => a.countP_redirected h p
  | .assertion e m _ => by
    simp only [Stmt.redirected, Stmt.selfWords, Stmt.calls, List.countP_append, Place.gains_append,
      e.countP_redirected h p.filled .value, Expr.optionCountP_redirected h p.filled m]
    omega

theorem Stmt.allCountP_redirected (h : IsTracked callee f) (p : Place) : ∀ ss : List Stmt,
    (Stmt.allSelfWords (Stmt.allRedirected callee p ss)).countP f =
      (Stmt.allSelfWords ss).countP f + Place.gains callee f (Stmt.allCalls p ss)
  | [] => rfl
  | s :: ss => by
    simp only [Stmt.allRedirected, Stmt.allSelfWords, Stmt.allCalls, List.countP_append,
      Place.gains_append, s.countP_redirected h p, Stmt.allCountP_redirected h p ss]
    omega

theorem VarDeclarator.allCountP_redirected (h : IsTracked callee f) (p : Place) :
    ∀ vs : List VarDeclarator,
    (VarDeclarator.allSelfWords (VarDeclarator.allRedirected callee p vs)).countP f =
      (VarDeclarator.allSelfWords vs).countP f +
        Place.gains callee f (VarDeclarator.allCalls p vs)
  | [] => rfl
  | ⟨_, _, e, _⟩ :: vs => by
    simp only [VarDeclarator.allRedirected, VarDeclarator.allSelfWords, VarDeclarator.allCalls,
      List.countP_append, Place.gains_append, Expr.optionCountP_redirected h p e,
      VarDeclarator.allCountP_redirected h p vs]
    omega

theorem CatchClause.allCountP_redirected (h : IsTracked callee f) (p : Place) :
    ∀ cs : List CatchClause,
    (CatchClause.allSelfWords (CatchClause.allRedirected callee p cs)).countP f =
      (CatchClause.allSelfWords cs).countP f + Place.gains callee f (CatchClause.allCalls p cs)
  | [] => rfl
  | ⟨m, _, _, b, _⟩ :: cs => by
    simp only [CatchClause.allRedirected, CatchClause.allSelfWords, CatchClause.allCalls,
      List.countP_append, Place.gains_append, Modifiers.gains_foreign, b.countP_redirected h p,
      CatchClause.allCountP_redirected h p cs]
    omega

theorem SwitchCase.allCountP_redirected (h : IsTracked callee f) (p : Place) :
    ∀ cs : List SwitchCase,
    (SwitchCase.allSelfWords (SwitchCase.allRedirected callee p cs)).countP f =
      (SwitchCase.allSelfWords cs).countP f + Place.gains callee f (SwitchCase.allCalls p cs)
  | [] => rfl
  | ⟨ls, ss, _⟩ :: cs => by
    simp only [SwitchCase.allRedirected, SwitchCase.allSelfWords, SwitchCase.allCalls,
      List.countP_append, Place.gains_append, Expr.allCountP_redirected h p.below ls,
      Stmt.allCountP_redirected h p ss, SwitchCase.allCountP_redirected h p cs]
    omega

end

/-- **A redirected member gains what its calls gain.** -/
theorem Member.countP_redirected (h : IsTracked callee f) (p : Place) (m : Member) :
    (m.redirected callee p).selfWords.countP f =
      m.selfWords.countP f + Place.gains callee f (m.calls p) := by
  cases m with
  | field m t vs s =>
    simp only [Member.redirected, Member.selfWords, Member.calls, List.countP_append,
      Place.gains_append, Modifiers.gains_foreign,
      VarDeclarator.allCountP_redirected h p.filled vs]
    omega
  | method m tps t n ps ts d b s =>
    simp only [Member.redirected, Member.selfWords, Member.calls, List.countP_append,
      Place.gains_append, Modifiers.gains_foreign, Param.gains_calls, Element.gains_foreign,
      Block.optionCountP_redirected h p b]
    omega
  | constructor m tps n ps ts b s =>
    simp only [Member.redirected, Member.selfWords, Member.calls, List.countP_append,
      Place.gains_append, Modifiers.gains_foreign, Param.gains_calls,
      b.countP_redirected h p]
    omega
  | initializer st b s => exact b.countP_redirected h p
  | type d => simp only [Member.redirected, Member.calls, TypeDecl.gains_foreign, Nat.add_zero]

/-- If every redirected call gains one word or none, the gains are the calls that gain one. -/
theorem Place.gains_eq_countP (one : Call → Bool) (xs : List (Place × Call))
    (hgained : ∀ c, (callee c).isSome → c.gained f = if one c then 1 else 0) :
    gains callee f xs = (slots xs).countP fun c => (callee c).isSome && one c := by
  rw [gains]
  induction slots xs with
  | nil => rfl
  | cons c cs ih =>
    rw [Call.allGained, ih, List.countP_cons, Nat.add_comm]
    cases hsome : (callee c).isSome with
    | false => simp
    | true => simp [hgained c hsome]

end Counting

/-! ### The new callees of an annotation -/

/-- A call whose method has a name of its own is one of a name, with or without a receiver. -/
theorem Call.named_of_name? {c : Call} {name : String} (h : c.name? = some name)
    (hthis : name ≠ "this") (hsuper : name ≠ "super") :
    (∃ i, c.callee = .name i) ∨ ∃ e n s, c.callee = .field e n s := by
  obtain ⟨id, g, as, s⟩ := c
  cases g with
  | name i => exact .inl ⟨i, rfl⟩
  | field e n fs => exact .inr ⟨e, n, fs, rfl⟩
  | this _ => exact absurd (Option.some.inj h).symm hthis
  | super _ => exact absurd (Option.some.inj h).symm hsuper
  | _ => cases h

/-- A chain of names contains neither word. -/
theorem Expr.selfWords_ofNames (span : Span) (names : List String) (u : SelfUse) :
    (Expr.ofNames span names).selfWords u = [] := by
  revert u
  exact Expr.ofNames_induction (P := fun e => ∀ u, e.selfWords u = []) (fun _ _ => rfl)
    (fun _ _ _ he _ => he .target) span names

namespace TypeDecl

variable {d : TypeDecl} {annot : Annot} {file : Nat} {owner : TypeHash} {a : Attribution}
  {m : Member}

/-- Whether a call has a new callee, from the type of its receiver. -/
theorem isSome_newCallee_iff {call : Call} {name : String} (hname : call.name? = some name)
    (hthis : name ≠ "this") (hsuper : name ≠ "super") :
    (d.newCallee annot file owner a m call).isSome ↔ d.kind.isInterfaceLike = false ∧
      ∃ t, a.typeOf ⟨file, owner, some m⟩ call.receiver = some t ∧
        ((Catalog.listed a ⟨file, owner, none⟩ annot).offer? name t).isSome := by
  simp only [Option.isSome_iff_exists, newCallee_eq_some_iff, Catalog.calleeFor?_eq_some_iff]
  constructor
  · rintro ⟨g, hkind, name', t, x, hname', -, -, ht, hx, -⟩
    obtain rfl := Option.some.inj (hname.symm.trans hname')
    exact ⟨hkind, t, ht, x, hx⟩
  · rintro ⟨hkind, t, ht, x, hx⟩
    exact ⟨_, hkind, name, t, x, hname, hthis, hsuper, ht, hx, rfl⟩

theorem isTracked_newCallee {f : SelfWord × SelfUse → Bool}
    (hf : ∀ w, f (w, .target) → f (w, .value)) :
    IsTracked (d.newCallee annot file owner a m) f where
  named c g hg := by
    obtain ⟨name, t, x, hname, hthis, hsuper, -⟩ :=
      Catalog.calleeFor?_eq_some_iff.mp (newCallee_eq_some_iff.mp hg).2
    exact Call.named_of_name? hname hthis hsuper
  wordless c g hg u := by
    obtain ⟨name, t, x, -, -, -, -, -, rfl⟩ :=
      Catalog.calleeFor?_eq_some_iff.mp (newCallee_eq_some_iff.mp hg).2
    exact Expr.selfWords_ofNames _ _ u
  value := hf

end TypeDecl

/-! ### Static members -/

/-- Whether a member is run without an object: a static field or method, or a block that sets up
the class. -/
def Member.isStatic : Member → Bool
  | .field m .. | .method m .. => m.flags.contains .staticBit
  | .initializer isStatic .. => isStatic
  | .constructor .. | .type _ => false

/-- How often `this` stands in a member. -/
def Member.thisCount (m : Member) : Nat := m.selfWords.countP (·.1 = .this)

theorem Member.isStatic_redirected (callee : Call → Option Expr) (p : Place) (m : Member) :
    (m.redirected callee p).isStatic = m.isStatic := by
  cases m <;> rfl

/-- A call without receiver gains a `this`, and no other call does. -/
theorem Call.gained_this {c : Call}
    (hcallee : (∃ i, c.callee = .name i) ∨ ∃ e n s, c.callee = .field e n s) :
    c.gained (·.1 = .this) = if c.receiver?.isNone then 1 else 0 := by
  obtain ⟨id, g, as, s⟩ := c
  rcases hcallee with ⟨i, rfl⟩ | ⟨e, n, fs, rfl⟩
  · rfl
  · cases e <;> exact Nat.sub_self _

/-- **What a member gains**: a `this` for every call without receiver that is redirected. -/
theorem Member.thisCount_redirected {callee : Call → Option Expr}
    (h : IsTracked callee (·.1 = .this)) (m : Member) :
    (m.redirected callee .inside).thisCount =
      m.thisCount + ((m.redirectedCalls callee).filter (·.receiver?.isNone)).length := by
  have hgained : ∀ c, (callee c).isSome →
      c.gained (·.1 = .this) = if c.receiver?.isNone then 1 else 0 := fun c hc => by
    obtain ⟨g, hg⟩ := Option.isSome_iff_exists.mp hc
    exact Call.gained_this (h.named c g hg)
  rw [thisCount, m.countP_redirected h, Place.gains_eq_countP _ _ hgained, redirectedCalls,
    List.filter_filter, ← List.countP_eq_length_filter, thisCount]
  simp only [Bool.and_comm]

namespace TypeDecl

/-- **Static code may come to say `this`.** Every member stays static or not, and gains one `this`
for each call without receiver that is redirected in it. So if the static members do not say
`this`, then they do afterwards if, and only if, a call without receiver is redirected in one of
them. Whether that happens does not depend on the member: on a class or an enum such a call is
redirected if something is offered that fits its name and the type itself. -/
theorem extended_this (d : TypeDecl) (annot : Annot) (file : Nat) (owner : TypeHash) (r : Registry)
    (files : List SourceFile) (hd : d.callIds.Nodup) :
    let after := (d.extended annot file owner (.start r files)).decl
    let callee := d.newCallee annot file owner (.start r files)
    List.Forall₂ (fun m m' => m'.isStatic = m.isStatic ∧ m'.thisCount =
        m.thisCount + ((m.redirectedCalls (callee m)).filter (·.receiver?.isNone)).length)
      d.members after.members ∧
    ((∀ m ∈ d.members, m.isStatic → m.thisCount = 0) →
      ((∀ m ∈ after.members, m.isStatic → m.thisCount = 0) ↔
        ∀ m ∈ d.members, m.isStatic → ∀ call ∈ m.redirectedCalls (callee m),
          call.receiver?.isSome)) ∧
    ∀ m call i, call.callee = .name i → i.name ≠ "this" → i.name ≠ "super" →
      ((callee m call).isSome ↔ d.kind.isInterfaceLike = false ∧
        ((Catalog.listed (.start r files) ⟨file, owner, none⟩ annot).offer? i.name
          (.simple owner)).isSome) := by
  intro after callee
  obtain ⟨annots, -, hdecl⟩ := d.extended_decl annot file owner r files hd
  have hmembers : after.members = d.members.map fun m => m.redirected (callee m) .inside :=
    congrArg TypeDecl.members hdecl
  have hcount (m : Member) : (m.redirected (callee m) .inside).thisCount =
      m.thisCount + ((m.redirectedCalls (callee m)).filter (·.receiver?.isNone)).length :=
    Member.thisCount_redirected (isTracked_newCallee fun _ h => h) m
  refine ⟨?_, fun hbefore => ?_, fun m call i hi hthis hsuper => ?_⟩
  · rw [hmembers, List.forall₂_map_right_iff, List.forall₂_same]
    exact fun m _ => ⟨m.isStatic_redirected _ _, hcount m⟩
  · rw [hmembers, List.forall_mem_map]
    refine forall₂_congr fun m hm => ?_
    rw [m.isStatic_redirected]
    refine imp_congr_right fun hstatic => ?_
    rw [hcount, hbefore m hm hstatic, Nat.zero_add, List.length_eq_zero_iff, List.filter_eq_nil_iff]
    simp [Option.isSome_iff_ne_none]
  · obtain ⟨id, g, as, s⟩ := call
    obtain rfl : g = .name i := hi
    -- The receiver of such a call is `this`, which has the type around it wherever it stands.
    rw [isSome_newCallee_iff rfl hthis hsuper]
    simp [Call.receiver, Call.receiver?, Attribution.typeOf]

end TypeDecl

namespace Sample

/-- An enum with a block that sets up the class and calls a method without receiver. -/
def withStatic (method : String) : TypeDecl :=
  enum [] [.initializer true
    ⟨[.expr (.call 0 (.name (ident method)) [] .absent) .absent], .absent⟩ .absent]

end Sample

namespace TypeDecl

/-- Nothing of the name `other` is offered, so the block of `Sample.withStatic` stays as it is. -/
theorem extended_this_sample :
    (Sample.withStatic "other").callIds.Nodup ∧
      ∀ m ∈ ((Sample.withStatic "other").extended Sample.annot 0 Sample.owner
        Sample.start).decl.members, m.isStatic → m.thisCount = 0 := by
  have hd : (Sample.withStatic "other").callIds.Nodup := by decide +kernel
  obtain ⟨-, hstatic, -⟩ := (Sample.withStatic "other").extended_this Sample.annot 0 Sample.owner
    Sample.registry [Sample.file Sample.withMember] hd
  rw [show Sample.start = .start Sample.registry [Sample.file Sample.withMember] from rfl]
  refine ⟨hd, (hstatic ?_).mpr ?_⟩
  · decide +kernel
  · decide +kernel

/-- **A static block that says `this`**: `tag` is offered, so the block of `Sample.withStatic`
passes `this` to it. -/
theorem extended_this_static :
    (∀ m ∈ (Sample.withStatic "tag").members, m.isStatic → m.thisCount = 0) ∧
      ¬ ∀ m ∈ ((Sample.withStatic "tag").extended Sample.annot 0 Sample.owner
        Sample.start).decl.members, m.isStatic → m.thisCount = 0 := by
  constructor
  · decide +kernel
  · decide +kernel

end TypeDecl

/-! ### Bare `super` -/

/-- Whether a method is called on `super`. -/
def Call.onSuper (c : Call) : Bool :=
  match c.receiver? with
  | some (.super _) => true
  | _ => false

/-- A call on `super` gains a bare `super`, and no other call does. -/
theorem Call.gained_super {c : Call}
    (hcallee : (∃ i, c.callee = .name i) ∨ ∃ e n s, c.callee = .field e n s) :
    c.gained (· == (.super, .value)) = if c.onSuper then 1 else 0 := by
  obtain ⟨id, g, as, s⟩ := c
  rcases hcallee with ⟨i, rfl⟩ | ⟨e, n, fs, rfl⟩
  · rfl
  · cases e with
    | this _ | super _ => rfl
    | _ => exact Nat.sub_self _

/-- Bare `super` in a redirected member: one more for every call on `super` that is redirected. -/
theorem Member.count_super_redirected {callee : Call → Option Expr}
    (h : IsTracked callee (· == (.super, .value))) (m : Member) :
    (m.redirected callee .inside).selfWords.countP (· == (.super, .value)) =
      m.selfWords.countP (· == (.super, .value)) +
        ((m.redirectedCalls callee).filter (·.onSuper)).length := by
  have hgained : ∀ c, (callee c).isSome →
      c.gained (· == (.super, .value)) = if c.onSuper then 1 else 0 := fun c hc => by
    obtain ⟨g, hg⟩ := Option.isSome_iff_exists.mp hc
    exact Call.gained_super (h.named c g hg)
  rw [m.countP_redirected h, Place.gains_eq_countP _ _ hgained, redirectedCalls,
    List.filter_filter, ← List.countP_eq_length_filter]
  simp only [Bool.and_comm]

namespace TypeDecl

/-- What a redirected type says, if it did not say so before: outside the members nothing, and in
them what the redirected members say. -/
theorem countP_redirected_of_zero {f : SelfWord × SelfUse → Bool} (d : TypeDecl)
    {annots : List Annot} (hannots : annots ⊆ d.modifiers.annots)
    (callee : Member → Call → Option Expr) (hzero : d.selfWords.countP f = 0) :
    (d.redirected annots callee).selfWords.countP f =
      (d.members.flatMap fun m => (m.redirected (callee m) .inside).selfWords).countP f := by
  obtain ⟨⟨flags, as, s⟩, kind, name, tps, sup, is, cs, ms, span⟩ := d
  simp only [selfWords, Modifiers.selfWords, Annot.allSelfWords_eq_flatMap, List.countP_append,
    Nat.add_eq_zero_iff] at hzero
  have hsub : ((annots.flatMap fun a => AnnotArg.allSelfWords a.args).countP f) = 0 := by
    refine List.countP_eq_zero.mpr fun x hx => ?_
    obtain ⟨a, ha, hx⟩ := List.mem_flatMap.mp hx
    exact List.countP_eq_zero.mp hzero.1.1 x (List.mem_flatMap.mpr ⟨a, hannots ha, hx⟩)
  simp only [redirected, selfWords, Modifiers.selfWords, Annot.allSelfWords_eq_flatMap,
    List.countP_append, hsub, hzero.1.2, Nat.zero_add, Member.allSelfWords_eq_flatMap,
    List.flatMap_map]

/-- A member says nothing that its type does not say. -/
theorem selfWords_subset (d : TypeDecl) {m : Member} (hm : m ∈ d.members) :
    m.selfWords ⊆ d.selfWords := by
  obtain ⟨md, kind, name, tps, sup, is, cs, ms, span⟩ := d
  intro x hx
  refine List.mem_append_right _ ?_
  rw [Member.allSelfWords_eq_flatMap]
  exact List.mem_flatMap.mpr ⟨m, hm, hx⟩

/-- **Bare `super` may come to be an argument.** If every `super` in a type is the target of an
access or called as a constructor, then afterwards there are as many bare ones as calls on `super`
that are redirected; so it stays that way if, and only if, none is. Whether a call on `super` is
redirected depends on the superclass and the catalog alone: on a class or an enum it is if `super`
has a type in the member and something is offered that fits the name and this type. -/
theorem extended_super (d : TypeDecl) (annot : Annot) (file : Nat) (owner : TypeHash) (r : Registry)
    (files : List SourceFile) (hd : d.callIds.Nodup)
    (hsuper : (SelfWord.super, SelfUse.value) ∉ d.selfWords) :
    let after := (d.extended annot file owner (.start r files)).decl
    let callee := d.newCallee annot file owner (.start r files)
    after.selfWords.count (.super, .value) =
      ((d.redirectedCalls callee).filter (·.onSuper)).length ∧
    ((SelfWord.super, SelfUse.value) ∉ after.selfWords ↔
      ∀ m ∈ d.members, ∀ call ∈ m.redirectedCalls (callee m), call.onSuper = false) ∧
    ∀ m call s i cs, call.callee = .field (.super s) i cs → i.name ≠ "this" → i.name ≠ "super" →
      ((callee m call).isSome ↔ d.kind.isInterfaceLike = false ∧
        ∃ t, (Attribution.start r files).typeOf ⟨file, owner, some m⟩ (.super s) = some t ∧
          ((Catalog.listed (.start r files) ⟨file, owner, none⟩ annot).offer? i.name
            t).isSome) := by
  intro after callee
  obtain ⟨annots, hannots, hdecl⟩ := d.extended_decl annot file owner r files hd
  have hzero : ∀ ws ⊆ d.selfWords, ws.countP (· == (SelfWord.super, SelfUse.value)) = 0 :=
    fun ws hws => List.countP_eq_zero.mpr fun x hx h =>
      hsuper (beq_iff_eq.mp h ▸ hws hx)
  -- none was bare before, so each comes from a call that is redirected
  have hmember : ∀ m ∈ d.members,
      (m.redirected (callee m) .inside).selfWords.countP (· == (.super, .value)) =
        ((m.redirectedCalls (callee m)).filter (·.onSuper)).length := fun m hm => by
    rw [Member.count_super_redirected (isTracked_newCallee fun w h => by cases w <;> cases h),
      hzero _ (d.selfWords_subset hm), Nat.zero_add]
  have hcount : after.selfWords.count (.super, .value) =
      ((d.redirectedCalls callee).filter (·.onSuper)).length := by
    rw [show after = d.redirected annots callee from hdecl, List.count_eq_countP,
      d.countP_redirected_of_zero hannots.subset callee (hzero _ (List.Subset.refl _)),
      List.countP_flatMap, redirectedCalls, List.filter_flatMap, List.length_flatMap]
    exact congrArg List.sum (List.map_congr_left hmember)
  refine ⟨hcount, ?_, fun m call s i cs hcall hthis hword => ?_⟩
  · rw [← List.count_eq_zero, hcount, List.length_eq_zero_iff, List.filter_eq_nil_iff]
    simp only [redirectedCalls, List.mem_flatMap, Bool.not_eq_true, forall_exists_index, and_imp]
    exact ⟨fun h m hm call hcall => h call m hm hcall, fun h call m hm hcall => h m hm call hcall⟩
  · obtain ⟨id, g, as, span⟩ := call
    obtain rfl : g = .field (.super s) i cs := hcall
    exact isSome_newCallee_iff rfl hthis hword

end TypeDecl

namespace Sample

/-- A class below `Base` with a block that calls a method on `super`. -/
def withSuper (method : String) : TypeDecl :=
  { enum [] [.initializer false ⟨[.expr (.call 0 (.field (.super .absent) (ident method) .absent) []
      .absent) .absent], .absent⟩ .absent] with kind := .classType }

/-- The file with that class. -/
def superFile (method : String) : SourceFile := file (withSuper method)

/-- The registry with that class added to it. -/
def classRegistry : Registry :=
  ⟨[ext, { TypeSymbol.declared ⟨"", "T"⟩ .classType .none [] none with
    superclass := some (QualifiedName.hash ⟨"", "Base"⟩) }]⟩

end Sample

namespace TypeDecl

/-- Nothing of the name `other` is offered, so `Sample.withSuper` does not come to pass `super`. -/
theorem extended_super_sample :
    (SelfWord.super, SelfUse.value) ∉ (Sample.withSuper "other").selfWords ∧
      (SelfWord.super, SelfUse.value) ∉ ((Sample.withSuper "other").extended Sample.annot 0
        Sample.owner (.start Sample.classRegistry [Sample.superFile "other"])).decl.selfWords := by
  have hd : (Sample.withSuper "other").callIds.Nodup := by decide +kernel
  have hsuper : (SelfWord.super, SelfUse.value) ∉ (Sample.withSuper "other").selfWords := by
    decide +kernel
  obtain ⟨-, hbare, -⟩ := (Sample.withSuper "other").extended_super Sample.annot 0 Sample.owner
    Sample.classRegistry [Sample.superFile "other"] hd hsuper
  refine ⟨hsuper, hbare.mpr ?_⟩
  decide +kernel

/-- **A bare `super`**: `tag` is offered, so `Sample.withSuper` passes `super` to it. -/
theorem extended_super_bare :
    (SelfWord.super, SelfUse.value) ∉ (Sample.withSuper "tag").selfWords ∧
      (SelfWord.super, SelfUse.value) ∈ ((Sample.withSuper "tag").extended Sample.annot 0
        Sample.owner (.start Sample.classRegistry [Sample.superFile "tag"])).decl.selfWords := by
  constructor
  · decide +kernel
  · decide +kernel

end TypeDecl

end JavaGraft

import JavaGraft.Proofs.Extension.Meaning

/-!
# What becomes of a type, whatever becomes of its annotation

An annotation may be misused, offer nothing, or be carried out. In all three cases the type that
comes out is the type that went in, possibly without the annotation, with the calls in the slots of
its members redirected (`JavaGraft.TypeDecl.extended_decl`); unless the annotation is carried out,
no call has a new callee. So what is said of redirected types holds of every result.
-/

namespace JavaGraft

/-! ### Nothing to redirect -/

mutual

theorem Expr.redirected_none (p : Place) : ∀ e : Expr, e.redirected (fun _ => none) p = e
  | .literal .. | .name _ | .this _ | .super _ | .classLit .. => rfl
  | .paren e _ | .field e _ _ | .unary _ e _ | .update e _ _ | .methodRef e _ _ | .cast _ e _
  | .instanceOf e _ _ _ | .lambda _ e _ => by rw [Expr.redirected, e.redirected_none]
  | .call id f as s => by
    rw [Expr.redirected_call _ p ⟨id, f, as, s⟩, ite_self]
    simp only [f.redirected_none, Expr.allRedirected_none _ as]
  | .new _ as _ | .newArray _ as _ | .arrayInit as _ | .newAnonymous _ as _ _ => by
    rw [Expr.redirected, Expr.allRedirected_none _ as]
  | .newArrayOf _ ds es _ _ => by
    rw [Expr.redirected, Expr.allRedirected_none _ ds, Expr.allRedirected_none _ es]
  | .index a b _ | .binary a _ b _ | .assign a _ b _ => by
    rw [Expr.redirected, a.redirected_none, b.redirected_none]
  | .conditional e a b _ => by
    rw [Expr.redirected, e.redirected_none, a.redirected_none, b.redirected_none]
  | .blockLambda _ b _ => by rw [Expr.redirected, b.redirected_none]

theorem Expr.allRedirected_none (p : Place) :
    ∀ es : List Expr, Expr.allRedirected (fun _ => none) p es = es
  | [] => rfl
  | e :: es => by rw [Expr.allRedirected, e.redirected_none, Expr.allRedirected_none _ es]

theorem Expr.optionRedirected_none (p : Place) :
    ∀ e : Option Expr, Expr.optionRedirected (fun _ => none) p e = e
  | none => rfl
  | some e => by rw [Expr.optionRedirected, e.redirected_none]

theorem Block.redirected_none (p : Place) : ∀ b : Block, b.redirected (fun _ => none) p = b
  | ⟨ss, _⟩ => by rw [Block.redirected, Stmt.allRedirected_none _ ss]

theorem Block.optionRedirected_none (p : Place) :
    ∀ b : Option Block, Block.optionRedirected (fun _ => none) p b = b
  | none => rfl
  | some b => by rw [Block.optionRedirected, b.redirected_none]

theorem Stmt.redirected_none (p : Place) : ∀ s : Stmt, s.redirected (fun _ => none) p = s
  | .block b => by rw [Stmt.redirected, b.redirected_none]
  | .localVar _ _ vs _ => by rw [Stmt.redirected, VarDeclarator.allRedirected_none _ vs]
  | .localType _ | .breakTo .. | .continueTo .. | .empty _ => rfl
  | .expr e _ | .throwing e _ => by rw [Stmt.redirected, e.redirected_none]
  | .ifThen e a _ | .whileLoop e a _ | .doLoop a e _ | .forEach _ _ _ e a _ => by
    rw [Stmt.redirected, e.redirected_none, a.redirected_none]
  | .ifElse e a b _ => by
    rw [Stmt.redirected, e.redirected_none, a.redirected_none, b.redirected_none]
  | .forLoop i e us a _ => by
    rw [Stmt.redirected, Stmt.allRedirected_none _ i, Expr.optionRedirected_none _ e,
      Expr.allRedirected_none _ us, a.redirected_none]
  | .ret e _ => by rw [Stmt.redirected, Expr.optionRedirected_none _ e]
  | .tryCatch rs b cs f _ => by
    rw [Stmt.redirected, Stmt.allRedirected_none _ rs, b.redirected_none,
      CatchClause.allRedirected_none _ cs, Block.optionRedirected_none _ f]
  | .switch e cs _ => by
    rw [Stmt.redirected, e.redirected_none, SwitchCase.allRedirected_none _ cs]
  | .synchronized e b _ => by rw [Stmt.redirected, e.redirected_none, b.redirected_none]
  | .labeled _ a _ => by rw [Stmt.redirected, a.redirected_none]
  | .assertion e m _ => by
    rw [Stmt.redirected, e.redirected_none, Expr.optionRedirected_none _ m]

theorem Stmt.allRedirected_none (p : Place) :
    ∀ ss : List Stmt, Stmt.allRedirected (fun _ => none) p ss = ss
  | [] => rfl
  | s :: ss => by rw [Stmt.allRedirected, s.redirected_none, Stmt.allRedirected_none _ ss]

theorem VarDeclarator.allRedirected_none (p : Place) :
    ∀ vs : List VarDeclarator, VarDeclarator.allRedirected (fun _ => none) p vs = vs
  | [] => rfl
  | ⟨_, _, e, _⟩ :: vs => by
    rw [VarDeclarator.allRedirected, Expr.optionRedirected_none _ e,
      VarDeclarator.allRedirected_none _ vs]

theorem CatchClause.allRedirected_none (p : Place) :
    ∀ cs : List CatchClause, CatchClause.allRedirected (fun _ => none) p cs = cs
  | [] => rfl
  | ⟨_, _, _, b, _⟩ :: cs => by
    rw [CatchClause.allRedirected, b.redirected_none, CatchClause.allRedirected_none _ cs]

theorem SwitchCase.allRedirected_none (p : Place) :
    ∀ cs : List SwitchCase, SwitchCase.allRedirected (fun _ => none) p cs = cs
  | [] => rfl
  | ⟨ls, ss, _⟩ :: cs => by
    rw [SwitchCase.allRedirected, Expr.allRedirected_none _ ls, Stmt.allRedirected_none _ ss,
      SwitchCase.allRedirected_none _ cs]

end

/-- **Without new callees a member stays as it is.** -/
theorem Member.redirected_none (p : Place) (m : Member) : m.redirected (fun _ => none) p = m := by
  cases m with
  | field => rw [Member.redirected, VarDeclarator.allRedirected_none]
  | method => rw [Member.redirected, Block.optionRedirected_none]
  | constructor => rw [Member.redirected, Block.redirected_none]
  | initializer => rw [Member.redirected, Block.redirected_none]
  | type => rfl

/-- Where nothing is offered, no call has a new callee. -/
theorem Catalog.calleeFor?_of_no_offers {c : Catalog} (h : c.offers = []) (a : Attribution)
    (site : Site) (call : Call) : c.calleeFor? a site call = none := by
  rw [Option.eq_none_iff_forall_not_mem]
  intro g hg
  obtain ⟨name, t, x, -, -, -, -, hx, -⟩ := calleeFor?_eq_some_iff.mp hg
  simp [Catalog.offer?, h] at hx

/-- The calls in slots of a member that have a new callee. -/
def Member.redirectedCalls (m : Member) (callee : Call → Option Expr) : List Call :=
  (Place.slots (m.calls .inside)).filter fun c => (callee c).isSome

namespace TypeDecl

theorem redirected_none (d : TypeDecl) :
    d.redirected d.modifiers.annots (fun _ _ => none) = d := by
  obtain ⟨⟨flags, annots, s⟩, kind, name, tps, sup, is, cs, ms, span⟩ := d
  simp only [redirected, Member.redirected_none, List.map_id']

/-- Without decisions nothing but the annotation goes. -/
theorem applied_nil (d : TypeDecl) (annot : Annot) :
    d.applied [] (some annot) =
      d.redirected (d.modifiers.annots.erase annot) fun _ _ => none := by
  have hmembers : d.members.map (·.spliced (newCallee? [])) =
      d.members.map (·.redirected (fun _ => none) .inside) :=
    List.map_congr_left fun m _ => m.spliced_eq_redirected (by simp [Place.IsOwn])
      fun x _ _ => (ite_self none).symm
  simp only [applied, redirected, Option.elim_some, hmembers]

/-! ### Every result is a redirected type -/

/-- **The new callee of a call in a slot of a member**, if it has one: on a class or an enum, the
first of what the annotation offers that fits. -/
def newCallee (d : TypeDecl) (annot : Annot) (file : Nat) (owner : TypeHash) (a : Attribution)
    (m : Member) (call : Call) : Option Expr :=
  if d.kind.isInterfaceLike then none
  else (Catalog.listed a ⟨file, owner, none⟩ annot).calleeFor? a ⟨file, owner, some m⟩ call

/-- **When a call has a new callee**: on a class or an enum, if its method has a name of its own,
its receiver has a type, and something is offered that fits. -/
theorem newCallee_eq_some_iff {d : TypeDecl} {annot : Annot} {file : Nat} {owner : TypeHash}
    {a : Attribution} {m : Member} {call : Call} {g : Expr} :
    d.newCallee annot file owner a m call = some g ↔
      d.kind.isInterfaceLike = false ∧
        (Catalog.listed a ⟨file, owner, none⟩ annot).calleeFor? a ⟨file, owner, some m⟩ call =
          some g := by
  cases hkind : d.kind.isInterfaceLike <;> simp [newCallee, hkind]

/-- **Every result is the type with calls redirected**, perhaps without an annotation. -/
theorem extended_decl (d : TypeDecl) (annot : Annot) (file : Nat) (owner : TypeHash) (r : Registry)
    (files : List SourceFile) (hd : d.callIds.Nodup) :
    ∃ annots, annots.Sublist d.modifiers.annots ∧
      (d.extended annot file owner (.start r files)).decl =
        d.redirected annots (d.newCallee annot file owner (.start r files)) := by
  have hsame (h : d.newCallee annot file owner (.start r files) = fun _ _ => none) :
      d = d.redirected d.modifiers.annots (d.newCallee annot file owner (.start r files)) := by
    rw [h, redirected_none]
  -- nothing is redirected on an interface, nor if nothing is offered
  cases hkind : d.kind.isInterfaceLike with
  | true =>
    have hnone : d.newCallee annot file owner (.start r files) = fun _ _ => none := by
      funext m call
      simp [newCallee, hkind]
    refine ⟨_, .refl _, ?_⟩
    rw [← hsame hnone]
    simp [extended, Catalog.ofAnnot, hkind]
  | false =>
    by_cases hoffers : (Catalog.listed (.start r files) ⟨file, owner, none⟩ annot).offers = []
    · have hnone : d.newCallee annot file owner (.start r files) = fun _ _ => none := by
        funext m call
        simp [newCallee, hkind, Catalog.calleeFor?_of_no_offers hoffers]
      cases hproviders : annot.providers.isEmpty with
      | true =>
        refine ⟨_, .refl _, ?_⟩
        rw [← hsame hnone]
        simp [extended, Catalog.ofAnnot, hkind, hproviders]
      | false =>
        have hok : Catalog.ofAnnot (.start r files) ⟨file, owner, none⟩ d.kind annot =
            .ok (Catalog.listed (.start r files) ⟨file, owner, none⟩ annot) := by
          simp [Catalog.ofAnnot, hkind, hproviders, Catalog.listed]
        refine ⟨d.modifiers.annots.erase annot, List.erase_sublist, ?_⟩
        rw [hnone, ← applied_nil]
        simp only [extended, hok, (Catalog.isEmpty_iff _).mpr hoffers, if_true]
    · obtain ⟨a, hextended⟩ := d.extended_eq_redirected annot file owner r files hkind hd hoffers
      have hcallee : d.newCallee annot file owner (.start r files) = fun m =>
          (Catalog.listed (.start r files) ⟨file, owner, none⟩ annot).calleeFor? (.start r files)
            ⟨file, owner, some m⟩ := by
        funext m call
        simp [newCallee, hkind]
      exact ⟨_, List.erase_sublist, by rw [hextended, hcallee]⟩

end TypeDecl

end JavaGraft

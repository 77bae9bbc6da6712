import JavaGraft.Proofs.Extension.Redirection
import JavaGraft.Proofs.Tree.Relabel

/-!
# Candidates and splicing in relabelled code

The candidates of a relabelled type are the relabelled candidates
(`JavaGraft.TypeDecl.callSites_relabeled`), in the same order. Splicing into relabelled code gives
the relabelled result of splicing (`JavaGraft.Member.spliced_relabeled`), as long as the relabelled
numbers ask for the relabelled callees.
-/

namespace JavaGraft

variable {ρ : Relabeling}

/-! ### Looking for calls -/

theorem Expr.unparenthesized_relabeled (e : Expr) :
    (e.relabeled ρ).unparenthesized = e.unparenthesized.relabeled ρ := by
  fun_induction Expr.unparenthesized e with
  | case1 e s ih => rw [relabeled, unparenthesized, ih]
  | case2 e hparen =>
    cases e with
    | paren e s => exact (hparen e s rfl).elim
    | _ => rfl

theorem Expr.asCall?_relabeled (e : Expr) :
    (e.relabeled ρ).asCall? = e.asCall?.map (Call.relabeled ρ) := by
  cases e with
  | call id f as s =>
    simp only [relabeled, asCall?, Option.map_some, Call.relabeled, Expr.allRelabeled_eq_map]
  | _ => rfl

theorem Expr.slot_relabeled (e : Expr) : (e.relabeled ρ).slot = e.slot.map (Call.relabeled ρ) := by
  rw [slot, slot, unparenthesized_relabeled, asCall?_relabeled]
  cases e.unparenthesized.asCall? <;> rfl

theorem Expr.flatMap_slot_relabeled (es : List Expr) :
    (Expr.allRelabeled ρ es).flatMap Expr.slot = (es.flatMap Expr.slot).map (Call.relabeled ρ) := by
  rw [Expr.allRelabeled_eq_map, List.flatMap_map, List.map_flatMap]
  exact congrArg (List.flatMap · es) (funext Expr.slot_relabeled)

theorem VarDeclarator.slots_relabeled (vs : List VarDeclarator) :
    VarDeclarator.slots (VarDeclarator.allRelabeled ρ vs)
      = (VarDeclarator.slots vs).map (Call.relabeled ρ) := by
  rw [slots, slots, VarDeclarator.allRelabeled_eq_map, List.flatMap_map, List.map_flatMap]
  refine congrArg (List.flatMap · vs) (funext fun v => ?_)
  obtain ⟨n, dims, e, s⟩ := v
  cases e with
  | none => rfl
  | some e => exact e.slot_relabeled

theorem Call.name?_relabeled (c : Call) : (c.relabeled ρ).name? = c.name? := by
  obtain ⟨id, f, as, s⟩ := c
  cases f <;> rfl

theorem Call.receiver_relabeled (c : Call) : (c.relabeled ρ).receiver = c.receiver.relabeled ρ := by
  obtain ⟨id, f, as, s⟩ := c
  cases f <;> rfl

/-! ### Candidates -/

mutual

theorem Expr.sites_relabeled : ∀ e : Expr,
    (e.relabeled ρ).sites = e.sites.map (Call.relabeled ρ)
  | .literal .. | .name _ | .this _ | .super _ | .classLit .. => rfl
  | .field e _ _ | .unary _ e _ | .update e _ _ | .paren e _ | .methodRef e _ _ | .cast _ e _
  | .instanceOf e _ _ _ | .lambda _ e _ => by
    rw [Expr.relabeled, Expr.sites, Expr.sites, Expr.sites_relabeled e]
  | .call _ f as _ => by
    rw [Expr.relabeled, Expr.sites, Expr.sites, List.map_append, Expr.sites_relabeled f,
      Expr.allSites_relabeled as]
  | .new _ as _ | .newAnonymous _ as _ _ | .newArray _ as _ | .arrayInit as _ => by
    rw [Expr.relabeled, Expr.sites, Expr.sites, Expr.allSites_relabeled as]
  | .newArrayOf _ ds es _ _ => by
    rw [Expr.relabeled, Expr.sites, Expr.sites, List.map_append, Expr.allSites_relabeled ds,
      Expr.allSites_relabeled es]
  | .index a b _ | .binary a _ b _ | .assign a _ b _ => by
    rw [Expr.relabeled, Expr.sites, Expr.sites, List.map_append, Expr.sites_relabeled a,
      Expr.sites_relabeled b]
  | .conditional e a b _ => by
    rw [Expr.relabeled, Expr.sites, Expr.sites, List.map_append, List.map_append,
      Expr.sites_relabeled e, Expr.sites_relabeled a, Expr.sites_relabeled b]
  | .blockLambda _ b _ => by
    rw [Expr.relabeled, Expr.sites, Expr.sites, Block.sites_relabeled b]

theorem Expr.allSites_relabeled : ∀ es : List Expr,
    Expr.allSites (Expr.allRelabeled ρ es) = (Expr.allSites es).map (Call.relabeled ρ)
  | [] => rfl
  | e :: es => by
    rw [Expr.allRelabeled, Expr.allSites, Expr.allSites, List.map_append, Expr.sites_relabeled e,
      Expr.allSites_relabeled es]

theorem Block.sites_relabeled : ∀ b : Block,
    (b.relabeled ρ).sites = b.sites.map (Call.relabeled ρ)
  | ⟨ss, _⟩ => by rw [Block.relabeled, Block.sites, Block.sites, Stmt.allSites_relabeled ss]

theorem Stmt.sites_relabeled : ∀ s : Stmt,
    (s.relabeled ρ).sites = s.sites.map (Call.relabeled ρ)
  | .block b => by rw [Stmt.relabeled, Stmt.sites, Stmt.sites, Block.sites_relabeled b]
  | .localVar _ _ vs _ => by
    rw [Stmt.relabeled, Stmt.sites, Stmt.sites, List.map_append, VarDeclarator.slots_relabeled,
      VarDeclarator.sites_relabeled vs]
  | .localType _ | .breakTo .. | .continueTo .. | .empty _ | .ret none _ => rfl
  | .expr e _ | .throwing e _ | .assertion e none _ | .ret (some e) _ => by
    simp only [Stmt.relabeled, Expr.optionRelabeled, Stmt.sites, List.map_append,
      Expr.slot_relabeled, Expr.sites_relabeled e]
  | .ifThen e a _ | .whileLoop e a _ | .doLoop a e _ | .forEach _ _ _ e a _ => by
    simp only [Stmt.relabeled, Stmt.sites, List.map_append, Expr.slot_relabeled,
      Expr.sites_relabeled e, Stmt.sites_relabeled a]
  | .ifElse e a b _ => by
    simp only [Stmt.relabeled, Stmt.sites, List.map_append, Expr.slot_relabeled,
      Expr.sites_relabeled e, Stmt.sites_relabeled a, Stmt.sites_relabeled b]
  | .forLoop i none us a _ => by
    simp only [Stmt.relabeled, Expr.optionRelabeled, Stmt.sites, List.map_append,
      Stmt.allSites_relabeled i, Expr.flatMap_slot_relabeled, Expr.allSites_relabeled us,
      Stmt.sites_relabeled a]
  | .forLoop i (some e) us a _ => by
    simp only [Stmt.relabeled, Expr.optionRelabeled, Stmt.sites, List.map_append,
      Stmt.allSites_relabeled i, Expr.slot_relabeled, Expr.sites_relabeled e,
      Expr.flatMap_slot_relabeled, Expr.allSites_relabeled us, Stmt.sites_relabeled a]
  | .tryCatch rs b cs none _ => by
    simp only [Stmt.relabeled, Block.optionRelabeled, Stmt.sites, List.map_append,
      Stmt.allSites_relabeled rs, Block.sites_relabeled b, CatchClause.sites_relabeled cs]
  | .tryCatch rs b cs (some f) _ => by
    simp only [Stmt.relabeled, Block.optionRelabeled, Stmt.sites, List.map_append,
      Stmt.allSites_relabeled rs, Block.sites_relabeled b, CatchClause.sites_relabeled cs,
      Block.sites_relabeled f]
  | .switch e cs _ => by
    simp only [Stmt.relabeled, Stmt.sites, List.map_append, Expr.slot_relabeled,
      Expr.sites_relabeled e, SwitchCase.sites_relabeled cs]
  | .synchronized e b _ => by
    simp only [Stmt.relabeled, Stmt.sites, List.map_append, Expr.slot_relabeled,
      Expr.sites_relabeled e, Block.sites_relabeled b]
  | .labeled _ a _ => by rw [Stmt.relabeled, Stmt.sites, Stmt.sites, Stmt.sites_relabeled a]
  | .assertion e (some m) _ => by
    simp only [Stmt.relabeled, Expr.optionRelabeled, Stmt.sites, List.map_append,
      Expr.slot_relabeled, Expr.sites_relabeled e, Expr.sites_relabeled m]

theorem Stmt.allSites_relabeled : ∀ ss : List Stmt,
    Stmt.allSites (Stmt.allRelabeled ρ ss) = (Stmt.allSites ss).map (Call.relabeled ρ)
  | [] => rfl
  | s :: ss => by
    rw [Stmt.allRelabeled, Stmt.allSites, Stmt.allSites, List.map_append, Stmt.sites_relabeled s,
      Stmt.allSites_relabeled ss]

theorem VarDeclarator.sites_relabeled : ∀ vs : List VarDeclarator,
    VarDeclarator.sites (VarDeclarator.allRelabeled ρ vs)
      = (VarDeclarator.sites vs).map (Call.relabeled ρ)
  | [] => rfl
  | ⟨_, _, none, _⟩ :: vs => by
    rw [VarDeclarator.allRelabeled, VarDeclarator.relabeled, Expr.optionRelabeled,
      VarDeclarator.sites, VarDeclarator.sites, VarDeclarator.sites_relabeled vs]
  | ⟨_, _, some e, _⟩ :: vs => by
    rw [VarDeclarator.allRelabeled, VarDeclarator.relabeled, Expr.optionRelabeled,
      VarDeclarator.sites, VarDeclarator.sites, List.map_append, Expr.sites_relabeled e,
      VarDeclarator.sites_relabeled vs]

theorem CatchClause.sites_relabeled : ∀ cs : List CatchClause,
    CatchClause.sites (CatchClause.allRelabeled ρ cs)
      = (CatchClause.sites cs).map (Call.relabeled ρ)
  | [] => rfl
  | ⟨_, _, _, b, _⟩ :: cs => by
    rw [CatchClause.allRelabeled, CatchClause.relabeled, CatchClause.sites, CatchClause.sites,
      List.map_append, Block.sites_relabeled b, CatchClause.sites_relabeled cs]

theorem SwitchCase.sites_relabeled : ∀ cs : List SwitchCase,
    SwitchCase.sites (SwitchCase.allRelabeled ρ cs)
      = (SwitchCase.sites cs).map (Call.relabeled ρ)
  | [] => rfl
  | ⟨ls, ss, _⟩ :: cs => by
    rw [SwitchCase.allRelabeled, SwitchCase.relabeled, SwitchCase.sites, SwitchCase.sites,
      List.map_append, List.map_append, Expr.allSites_relabeled ls, Stmt.allSites_relabeled ss,
      SwitchCase.sites_relabeled cs]

end

mutual

theorem Element.sites_relabeled : ∀ e : Element,
    (e.relabeled ρ).sites = e.sites.map (Call.relabeled ρ)
  | .expr e => by rw [Element.relabeled, Element.sites, Element.sites, Expr.sites_relabeled e]
  | .array es _ => by
    rw [Element.relabeled, Element.sites, Element.sites, Element.allSites_relabeled es]
  | .annot ⟨_, as, _⟩ => by
    rw [Element.relabeled, Annot.relabeled, Element.sites, Element.sites,
      AnnotArg.sites_relabeled as]

theorem Element.allSites_relabeled : ∀ es : List Element,
    Element.allSites (Element.allRelabeled ρ es) = (Element.allSites es).map (Call.relabeled ρ)
  | [] => rfl
  | e :: es => by
    rw [Element.allRelabeled, Element.allSites, Element.allSites, List.map_append,
      Element.sites_relabeled e, Element.allSites_relabeled es]

theorem AnnotArg.sites_relabeled : ∀ as : List AnnotArg,
    AnnotArg.sites (AnnotArg.allRelabeled ρ as) = (AnnotArg.sites as).map (Call.relabeled ρ)
  | [] => rfl
  | ⟨_, v, _⟩ :: as => by
    rw [AnnotArg.allRelabeled, AnnotArg.relabeled, AnnotArg.sites, AnnotArg.sites,
      List.map_append, Element.sites_relabeled v, AnnotArg.sites_relabeled as]

end

theorem Member.sites_relabeled (m : Member) :
    (m.relabeled ρ).sites = m.sites.map (Call.relabeled ρ) := by
  cases m with
  | field m t vs s =>
    rw [relabeled, sites, sites, VarDeclarator.allRelabeled_eq_map, List.flatMap_map,
      List.map_flatMap]
    refine congrArg (List.flatMap · vs) (funext fun v => ?_)
    obtain ⟨n, dims, e, s⟩ := v
    cases e with
    | none => rfl
    | some e =>
      simp only [VarDeclarator.relabeled, Expr.optionRelabeled, Option.map_some, Option.getD_some,
        List.map_append, Expr.slot_relabeled, Expr.sites_relabeled]
  | method m tps t n ps ts d b s =>
    cases b with
    | none => rfl
    | some b => exact Block.sites_relabeled b
  | constructor m tps n ps ts b s => exact Block.sites_relabeled b
  | initializer st b s => exact Block.sites_relabeled b
  | type d => rfl

/-- A candidate with its labels replaced, found in the file of another number. -/
def CallSite.moved (ρ : Relabeling) (file : Nat) (s : CallSite) : CallSite :=
  ⟨s.call.relabeled ρ, file, s.site.owner, s.site.member.map (Member.relabeled ρ)⟩

/-- **The candidates of a relabelled type.** -/
theorem TypeDecl.callSites_relabeled (d : TypeDecl) (file file' : Nat) (owner : TypeHash) :
    (d.relabeled ρ).callSites file' owner
      = (d.callSites file owner).map (CallSite.moved ρ file') := by
  obtain ⟨⟨flags, as, ms⟩, kind, n, tps, sup, is, cs, members, s⟩ := d
  have hannots : ((as.map (Annot.relabeled ρ)).flatMap fun a => AnnotArg.sites a.args)
      = (as.flatMap fun a => AnnotArg.sites a.args).map (Call.relabeled ρ) := by
    rw [List.flatMap_map, List.map_flatMap]
    refine congrArg (List.flatMap · as) (funext fun a => ?_)
    obtain ⟨n, args, s⟩ := a
    exact AnnotArg.sites_relabeled args
  have hconstants : ((cs.map (EnumConstant.relabeled ρ)).flatMap fun c => Expr.allSites c.args)
      = (cs.flatMap fun c => Expr.allSites c.args).map (Call.relabeled ρ) := by
    rw [List.flatMap_map, List.map_flatMap]
    refine congrArg (List.flatMap · cs) (funext fun c => ?_)
    cases c with
    | plain as n es s => exact Expr.allSites_relabeled es
    | withBody as n es ms s => exact Expr.allSites_relabeled es
  simp only [callSites, relabeled, Modifiers.relabeled, Annot.allRelabeled_eq_map,
    EnumConstant.allRelabeled_eq_map, Member.allRelabeled_eq_map, hannots, hconstants,
    List.map_append, List.flatMap_map, List.map_flatMap, List.map_map, Member.sites_relabeled]
  rfl

/-! ### Splicing -/

section Splicing

-- The linter does not see what the theorems of a mutual block pass on to each other.
set_option linter.unusedSectionVars false

variable {new new' : Nat → Option Expr}
  (hnew : ∀ id, new' (ρ.call id) = (new id).map (Expr.relabeled ρ))

/-- Where splicing into a relabelled callee relabels, it does so with the receiver in it. -/
theorem Call.receiver_spliced_relabeled (c : Call)
    (h : (c.callee.relabeled ρ).spliced new' = (c.callee.spliced new).relabeled ρ) :
    (c.receiver.relabeled ρ).spliced new' = (c.receiver.spliced new).relabeled ρ := by
  obtain ⟨id, f, as, s⟩ := c
  cases f with
  | field e n fs =>
    simp only [Expr.relabeled, Expr.spliced] at h
    exact (Expr.field.inj h).1
  | _ => rfl

include hnew

mutual

theorem Expr.spliced_relabeled : ∀ e : Expr,
    (e.relabeled ρ).spliced new' = (e.spliced new).relabeled ρ
  | .literal .. | .name _ | .this _ | .super _ | .classLit .. => rfl
  | .field e _ _ | .unary _ e _ | .update e _ _ | .paren e _ | .methodRef e _ _ | .cast _ e _
  | .instanceOf e _ _ _ | .lambda _ e _ => by
    simp only [Expr.relabeled, Expr.spliced, Expr.spliced_relabeled e]
  | .call id f as s => by
    have hf := Expr.spliced_relabeled f
    have has := Expr.allSpliced_relabeled as
    -- The receiver moves into the arguments if there is a new callee, and is spliced there.
    have hreceiver := Call.receiver_spliced_relabeled ⟨id, f, as, s⟩ hf
    rw [← Call.receiver_relabeled] at hreceiver
    have hcall := Expr.spliced_call new' (Call.relabeled ρ ⟨id, f, as, s⟩)
    rw [hreceiver] at hcall
    simp only [Call.relabeled, ← Expr.allRelabeled_eq_map, hnew, hf, has] at hcall
    rw [Expr.relabeled, hcall, Expr.spliced_call new ⟨id, f, as, s⟩]
    cases new id <;> rfl
  | .new _ as _ | .newAnonymous _ as _ _ | .newArray _ as _ | .arrayInit as _ => by
    simp only [Expr.relabeled, Expr.spliced, Expr.allSpliced_relabeled as]
  | .newArrayOf _ ds es _ _ => by
    simp only [Expr.relabeled, Expr.spliced, Expr.allSpliced_relabeled ds,
      Expr.allSpliced_relabeled es]
  | .index a b _ | .binary a _ b _ | .assign a _ b _ => by
    simp only [Expr.relabeled, Expr.spliced, Expr.spliced_relabeled a, Expr.spliced_relabeled b]
  | .conditional e a b _ => by
    simp only [Expr.relabeled, Expr.spliced, Expr.spliced_relabeled e, Expr.spliced_relabeled a,
      Expr.spliced_relabeled b]
  | .blockLambda _ b _ => by
    simp only [Expr.relabeled, Expr.spliced, Block.spliced_relabeled b]

theorem Expr.allSpliced_relabeled : ∀ es : List Expr,
    Expr.allSpliced new' (Expr.allRelabeled ρ es) = Expr.allRelabeled ρ (Expr.allSpliced new es)
  | [] => rfl
  | e :: es => by
    simp only [Expr.allRelabeled, Expr.allSpliced, Expr.spliced_relabeled e,
      Expr.allSpliced_relabeled es]

theorem Block.spliced_relabeled : ∀ b : Block,
    (b.relabeled ρ).spliced new' = (b.spliced new).relabeled ρ
  | ⟨ss, _⟩ => by simp only [Block.relabeled, Block.spliced, Stmt.allSpliced_relabeled ss]

theorem Stmt.spliced_relabeled : ∀ s : Stmt,
    (s.relabeled ρ).spliced new' = (s.spliced new).relabeled ρ
  | .block b => by simp only [Stmt.relabeled, Stmt.spliced, Block.spliced_relabeled b]
  | .localVar _ _ vs _ => by
    simp only [Stmt.relabeled, Stmt.spliced, VarDeclarator.allSpliced_relabeled vs]
  | .localType _ | .breakTo .. | .continueTo .. | .empty _ | .ret none _ => rfl
  | .expr e _ | .throwing e _ | .ret (some e) _ | .assertion e none _ => by
    simp only [Stmt.relabeled, Expr.optionRelabeled, Stmt.spliced, Expr.spliced_relabeled e]
  | .ifThen e a _ | .whileLoop e a _ | .doLoop a e _ | .forEach _ _ _ e a _ => by
    simp only [Stmt.relabeled, Stmt.spliced, Expr.spliced_relabeled e, Stmt.spliced_relabeled a]
  | .ifElse e a b _ => by
    simp only [Stmt.relabeled, Stmt.spliced, Expr.spliced_relabeled e, Stmt.spliced_relabeled a,
      Stmt.spliced_relabeled b]
  | .forLoop i none us a _ => by
    simp only [Stmt.relabeled, Expr.optionRelabeled, Stmt.spliced, Stmt.allSpliced_relabeled i,
      Expr.allSpliced_relabeled us, Stmt.spliced_relabeled a]
  | .forLoop i (some e) us a _ => by
    simp only [Stmt.relabeled, Expr.optionRelabeled, Stmt.spliced, Stmt.allSpliced_relabeled i,
      Expr.spliced_relabeled e, Expr.allSpliced_relabeled us, Stmt.spliced_relabeled a]
  | .tryCatch rs b cs none _ => by
    simp only [Stmt.relabeled, Block.optionRelabeled, Stmt.spliced, Stmt.allSpliced_relabeled rs,
      Block.spliced_relabeled b, CatchClause.allSpliced_relabeled cs]
  | .tryCatch rs b cs (some f) _ => by
    simp only [Stmt.relabeled, Block.optionRelabeled, Stmt.spliced, Stmt.allSpliced_relabeled rs,
      Block.spliced_relabeled b, CatchClause.allSpliced_relabeled cs, Block.spliced_relabeled f]
  | .switch e cs _ => by
    simp only [Stmt.relabeled, Stmt.spliced, Expr.spliced_relabeled e,
      SwitchCase.allSpliced_relabeled cs]
  | .synchronized e b _ => by
    simp only [Stmt.relabeled, Stmt.spliced, Expr.spliced_relabeled e, Block.spliced_relabeled b]
  | .labeled _ a _ => by simp only [Stmt.relabeled, Stmt.spliced, Stmt.spliced_relabeled a]
  | .assertion e (some m) _ => by
    simp only [Stmt.relabeled, Expr.optionRelabeled, Stmt.spliced, Expr.spliced_relabeled e,
      Expr.spliced_relabeled m]

theorem Stmt.allSpliced_relabeled : ∀ ss : List Stmt,
    Stmt.allSpliced new' (Stmt.allRelabeled ρ ss) = Stmt.allRelabeled ρ (Stmt.allSpliced new ss)
  | [] => rfl
  | s :: ss => by
    simp only [Stmt.allRelabeled, Stmt.allSpliced, Stmt.spliced_relabeled s,
      Stmt.allSpliced_relabeled ss]

theorem VarDeclarator.allSpliced_relabeled : ∀ vs : List VarDeclarator,
    VarDeclarator.allSpliced new' (VarDeclarator.allRelabeled ρ vs)
      = VarDeclarator.allRelabeled ρ (VarDeclarator.allSpliced new vs)
  | [] => rfl
  | ⟨_, _, none, _⟩ :: vs => by
    simp only [VarDeclarator.allRelabeled, VarDeclarator.relabeled, Expr.optionRelabeled,
      VarDeclarator.allSpliced, VarDeclarator.allSpliced_relabeled vs]
  | ⟨_, _, some e, _⟩ :: vs => by
    simp only [VarDeclarator.allRelabeled, VarDeclarator.relabeled, Expr.optionRelabeled,
      VarDeclarator.allSpliced, Expr.spliced_relabeled e, VarDeclarator.allSpliced_relabeled vs]

theorem CatchClause.allSpliced_relabeled : ∀ cs : List CatchClause,
    CatchClause.allSpliced new' (CatchClause.allRelabeled ρ cs)
      = CatchClause.allRelabeled ρ (CatchClause.allSpliced new cs)
  | [] => rfl
  | ⟨_, _, _, b, _⟩ :: cs => by
    simp only [CatchClause.allRelabeled, CatchClause.relabeled, CatchClause.allSpliced,
      Block.spliced_relabeled b, CatchClause.allSpliced_relabeled cs]

theorem SwitchCase.allSpliced_relabeled : ∀ cs : List SwitchCase,
    SwitchCase.allSpliced new' (SwitchCase.allRelabeled ρ cs)
      = SwitchCase.allRelabeled ρ (SwitchCase.allSpliced new cs)
  | [] => rfl
  | ⟨ls, ss, _⟩ :: cs => by
    simp only [SwitchCase.allRelabeled, SwitchCase.relabeled, SwitchCase.allSpliced,
      Expr.allSpliced_relabeled ls, Stmt.allSpliced_relabeled ss,
      SwitchCase.allSpliced_relabeled cs]

end

/-- **Splicing into a relabelled member** relabels what splicing into the member gives. -/
theorem Member.spliced_relabeled (m : Member) :
    (m.relabeled ρ).spliced new' = (m.spliced new).relabeled ρ := by
  cases m with
  | field m t vs s =>
    simp only [relabeled, spliced, VarDeclarator.allSpliced_relabeled hnew]
  | method m tps t n ps ts d b s =>
    cases b with
    | none => rfl
    | some b =>
      simp only [relabeled, spliced, Block.optionRelabeled, Option.map_some,
        Block.spliced_relabeled hnew]
  | constructor m tps n ps ts b s => simp only [relabeled, spliced, Block.spliced_relabeled hnew]
  | initializer st b s => simp only [relabeled, spliced, Block.spliced_relabeled hnew]
  | type d => rfl

end Splicing

end JavaGraft

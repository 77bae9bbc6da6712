import JavaGraft.Extension.Transform
import JavaGraft.Proofs.Typing.Asking

/-!
# What becomes of a call, call by call

The decisions on the candidates of a type are made one after the other, and each of them asks for
types. What is decided does not depend on the order (`JavaGraft.Catalog.decideAll_eq_map`): a call
is replaced if it has a new callee (`JavaGraft.Catalog.calleeFor?`), which is found from the call,
its site and the catalog alone.

The catalog is read as a list of offers, a provider and one of its methods each, the providers in
the order of the annotation and their methods in the order of their declaration. The first offer
that fits decides (`JavaGraft.Catalog.provider?_eq_offer?`).
-/

namespace JavaGraft

/-! ### The first offer that fits -/

namespace Catalog

/-- What is offered: every method of every accepted provider, in order. -/
def offers (c : Catalog) : List (Extension × MethodSymbol) :=
  c.extensions.flatMap fun e => e.methods.map fun m => (e, m)

/-- The catalog of what an annotation lists. -/
def listed (a : Attribution) (site : Site) (annot : Annot) : Catalog :=
  ⟨annot.providers.map (classify a site)⟩

/-- An annotation on a class or an enum that offers something lists providers, and its catalog is
that of the list. -/
theorem ofAnnot_of_offers {a : Attribution} {site : Site} {kind : TypeKind} {annot : Annot}
    (hkind : kind.isInterfaceLike = false) (hoffers : (listed a site annot).offers ≠ []) :
    ofAnnot a site kind annot = .ok (listed a site annot) := by
  have hproviders : annot.providers.isEmpty = false := by
    rw [List.isEmpty_eq_false_iff]
    intro h
    exact hoffers (by simp [offers, extensions, listed, h])
  simp [ofAnnot, hkind, hproviders, listed]

/-- A catalog is empty if it offers nothing. -/
theorem isEmpty_iff (c : Catalog) : c.isEmpty = true ↔ c.offers = [] := by
  rw [isEmpty, methodCount, beq_iff_eq, List.length_eq_zero_iff]
  simp [offers]

/-- Whether a method can stand in for one of the name on receivers of the type: it has the name, is
not generic, and its first parameter is not exactly of that type. -/
def fits (name : String) (receiver : DataType) (m : MethodSymbol) : Bool :=
  m.name == name && m.typeParams.isNone && m.signature.params.head? != some receiver

/-- **The first offer that fits.** -/
def offer? (c : Catalog) (name : String) (receiver : DataType) :
    Option (Extension × MethodSymbol) :=
  c.offers.find? fun x => fits name receiver x.2

/-- A method that fits has the name. -/
theorem name_of_fits {name : String} {receiver : DataType} {m : MethodSymbol}
    (h : fits name receiver m) : m.name = name := by
  simp only [fits, Bool.and_eq_true, beq_iff_eq] at h
  exact h.1.1

theorem name_of_offer? {c : Catalog} {name : String} {receiver : DataType}
    {x : Extension × MethodSymbol} (h : c.offer? name receiver = some x) : x.2.name = name :=
  name_of_fits (List.find?_some (p := fun y : Extension × MethodSymbol => fits name receiver y.2) h)

/-- Among the offers of one provider there is one that fits if the provider has such a method. -/
theorem find?_offers_of (e : Extension) (ms : List MethodSymbol) (name : String)
    (receiver : DataType) :
    ((ms.map fun m => (e, m)).find? fun x => fits name receiver x.2).map Prod.fst
      = if ms.any (fits name receiver) then some e else none := by
  induction ms with
  | nil => rfl
  | cons m ms ih =>
    cases hm : fits name receiver m with
    | true => simp [hm]
    | false =>
      rw [List.map_cons, List.find?_cons_of_neg (by simp [hm]), ih]
      simp [hm]

/-- **The provider that is taken is the one of the first offer that fits.** -/
theorem provider?_eq_offer? (c : Catalog) (name : String) (receiver : DataType) :
    c.provider? name receiver = (c.offer? name receiver).map Prod.fst := by
  rw [provider?, offer?, offers]
  induction c.extensions with
  | nil => rfl
  | cons e es ih =>
    have he := find?_offers_of e e.methods name receiver
    rw [List.flatMap_cons, List.find?_append, List.find?_cons, Option.map_or, he, ih]
    rw [show e.offers name receiver = e.methods.any (fits name receiver) from rfl]
    cases e.methods.any (fits name receiver) <;> rfl

/-! ### The new callee of a call -/

end Catalog

/-- What holds of names and passes on to their members holds of chains. -/
theorem Expr.ofNames_induction {P : Expr → Prop} (hname : ∀ i, P (.name i))
    (hfield : ∀ e n s, P e → P (.field e n s)) (span : Span) (names : List String) :
    P (.ofNames span names) := by
  have hfold : ∀ (ns : List String) (e : Expr), P e →
      P (ns.foldl (fun e n => .field e ⟨n, span⟩ span) e) := by
    intro ns
    induction ns with
    | nil => exact fun e he => he
    | cons n ns ih => exact fun e he => ih _ (hfield e _ _ he)
  cases names with
  | nil => exact hname _
  | cons n ns => exact hfold ns _ (hname _)

namespace Catalog

/-- **The new callee of a call**, if it is to be replaced: its method must have a name that is not
that of a constructor, its receiver must have a type, and there must be an offer that fits. The
callee is the dotted name of the provider followed by that of the method. -/
def calleeFor? (c : Catalog) (a : Attribution) (site : Site) (call : Call) : Option Expr := do
  let name ← call.name?
  if name = "this" ∨ name = "super" then none
  else
    let receiver ← a.typeOf site call.receiver
    let (e, m) ← c.offer? name receiver
    return .ofNames call.callee.span (e.name.segments ++ [m.name])

/-- **When a call has a new callee**, and which. -/
theorem calleeFor?_eq_some_iff {c : Catalog} {a : Attribution} {site : Site} {call : Call}
    {g : Expr} :
    c.calleeFor? a site call = some g ↔
      ∃ name t x, call.name? = some name ∧ name ≠ "this" ∧ name ≠ "super" ∧
        a.typeOf site call.receiver = some t ∧ c.offer? name t = some x ∧
        g = .ofNames call.callee.span (x.1.name.segments ++ [x.2.name]) := by
  constructor
  · intro h
    simp only [calleeFor?, Option.bind_eq_bind, Option.bind_eq_some_iff] at h
    obtain ⟨name, hname, h⟩ := h
    split at h
    · exact absurd h (by simp)
    · next hword =>
      obtain ⟨t, ht, h⟩ := Option.bind_eq_some_iff.mp h
      obtain ⟨x, hx, h⟩ := Option.bind_eq_some_iff.mp h
      obtain ⟨hthis, hsuper⟩ := not_or.mp hword
      exact ⟨name, t, x, hname, hthis, hsuper, ht, hx, (Option.some.inj h).symm⟩
  · rintro ⟨name, t, x, hname, hthis, hsuper, ht, hx, rfl⟩
    simp [calleeFor?, hname, hthis, hsuper, ht, hx]

/-- Why a call without a new callee is left as it is. -/
def keepReason (a : Attribution) (site : Site) (call : Call) : KeepReason :=
  match call.name? with
  | none => .noMatchingMethod
  | some name =>
    if name = "this" ∨ name = "super" then .constructorCall
    else if (a.typeOf site call.receiver).isNone then .unresolvedReceiver
    else .noMatchingMethod

/-- What becomes of a call, from the call and its site alone. -/
def ruling (c : Catalog) (a : Attribution) (s : CallSite) : Decision :=
  match c.calleeFor? a s.site s.call with
  | some callee => .replace s.call.id callee (s.call.receiver :: s.call.args)
  | none => .keep (keepReason a s.site s.call)

variable {a₀ a : Attribution} {file : Nat} {owner : TypeHash}

/-- **A decision does not depend on the questions asked before it.** -/
theorem decide_eq_ruling (c : Catalog) (h : a₀.Serves file owner a) (m : Option Member)
    (call : Call) :
    (c.decide ⟨call, file, owner, m⟩ a).1 = c.ruling a₀ ⟨call, file, owner, m⟩ ∧
      a₀.Serves file owner (c.decide ⟨call, file, owner, m⟩ a).2 := by
  cases hname : call.name? with
  | none =>
    have hdecide : c.decide ⟨call, file, owner, m⟩ a = (.keep .noMatchingMethod, a) := by
      simp only [Catalog.decide, hname]
    rw [hdecide]
    exact ⟨by simp [ruling, calleeFor?, keepReason, hname], h⟩
  | some name =>
    by_cases hctor : name = "this" ∨ name = "super"
    · have hdecide : c.decide ⟨call, file, owner, m⟩ a = (.keep .constructorCall, a) := by
        simp only [Catalog.decide, hname]
        rcases hctor with rfl | rfl <;> rfl
      rw [hdecide]
      refine ⟨?_, h⟩
      rcases hctor with rfl | rfl <;> simp [ruling, calleeFor?, keepReason, hname]
    · obtain ⟨hthis, hsuper⟩ := not_or.mp hctor
      -- asking about the receiver and the arguments enters only what would be entered anyway
      obtain ⟨htype, hserves⟩ := h.resolve m call.receiver
      have hargs := hserves.foldl_resolve m call.args
      simp only [Catalog.decide, hname, hthis, hsuper, decide_false, Bool.or_self,
        Bool.false_eq_true, if_false, htype]
      cases ht : a₀.typeOf ⟨file, owner, m⟩ call.receiver with
      | none =>
        exact ⟨by simp [ruling, calleeFor?, keepReason, hname, hthis, hsuper, ht], hargs⟩
      | some t =>
        simp only [provider?_eq_offer?]
        cases ho : c.offer? name t with
        | none =>
          exact ⟨by simp [ruling, calleeFor?, keepReason, hname, hthis, hsuper, ht, ho], hargs⟩
        | some x =>
          refine ⟨?_, hargs⟩
          simp [ruling, calleeFor?, hname, hthis, hsuper, ht, ho, Call.moveTo, name_of_offer? ho]

/-- **Nor does it matter in which order calls are decided.** -/
theorem decideAll_eq_map (c : Catalog) (ss : List CallSite)
    (hss : ∀ s ∈ ss, s.site.file = file ∧ s.site.owner = owner) (h : a₀.Serves file owner a) :
    (c.decideAll ss a).1 = ss.map (c.ruling a₀) := by
  induction ss generalizing a with
  | nil => rfl
  | cons s ss ih =>
    obtain ⟨call, file', owner', m⟩ := s
    obtain ⟨rfl, rfl⟩ := hss _ List.mem_cons_self
    obtain ⟨hfirst, hserves⟩ := c.decide_eq_ruling h m call
    have hrest := ih (fun s hs => hss s (List.mem_cons_of_mem _ hs)) hserves
    rw [decideAll, List.map_cons, ← hfirst, ← hrest]

/-- A ruling replaces its call if there is a new callee for it. -/
theorem replaces_ruling (c : Catalog) (a : Attribution) (s : CallSite) :
    (c.ruling a s).replaces = (c.calleeFor? a s.site s.call).isSome := by
  rw [ruling]
  cases c.calleeFor? a s.site s.call <;> rfl

end Catalog

end JavaGraft

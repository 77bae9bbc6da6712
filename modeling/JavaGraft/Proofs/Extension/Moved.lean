import JavaGraft.Extension.Transform
import JavaGraft.Proofs.Extension.Relabel
import JavaGraft.Proofs.Typing.Relabel

/-!
# Annotations on relabelled types

Carrying an annotation out on a type whose labels were replaced, in a file of another number and
among types that give the same answers, does the same: the type comes out with its labels replaced,
and what is said of the annotation is the same (`JavaGraft.TypeDecl.extended_relabeled`). What keeps
the two in step is that the tables of the members typed so far are the same up to labels
(`JavaGraft.Attribution.Matches`).
-/

namespace JavaGraft

variable {ρ : Relabeling}

/-! ### Asking for types -/

/-- What is looked up under new keys is what was looked up under the old ones, if no two keys become
one. -/
theorem lookup_map {α β γ δ : Type} [BEq α] [LawfulBEq α] [BEq β] [LawfulBEq β] {f : α → β}
    (hf : Function.Injective f) (g : γ → δ) (xs : List (α × γ)) (k : α) :
    (xs.map fun x => (f x.1, g x.2)).lookup (f k) = (xs.lookup k).map g := by
  induction xs with
  | nil => rfl
  | cons x xs ih =>
    -- The new keys are equal exactly if the old ones are.
    have hkeys : (f k == f x.1) = (k == x.1) := by
      rw [Bool.eq_iff_iff, beq_iff_eq, beq_iff_eq, hf.eq_iff]
    rw [List.map_cons, List.lookup_cons, List.lookup_cons, hkeys, ih]
    cases k == x.1 <;> rfl

/-- A site with its labels replaced, in the file of another number. -/
def Site.moved (ρ : Relabeling) (file : Nat) (s : Site) : Site :=
  ⟨file, s.owner, s.member.map (Member.relabeled ρ)⟩

namespace Attribution

/-- The same members are typed, up to labels, and in files that see the same types. -/
structure Matches (ρ : Relabeling) (file file' : Nat) (a a' : Attribution) : Prop where
  registry : a.registry.Agrees a'.registry
  scope : a'.scopes[file']? = a.scopes[file]?
  tables : ∃ typed : List (Member × TypeTable),
    a.tables = typed.map (fun x => ((file, x.1), x.2)) ∧
      a'.tables = typed.map fun x => ((file', x.1.relabeled ρ), TypeTable.relabeled ρ x.2)

section Matches

variable {file file' : Nat} {a a' : Attribution} (h : Matches ρ file file' a a')
include h

theorem Matches.passes : a'.passes = a.passes := by
  obtain ⟨typed, htables, htables'⟩ := h.tables
  rw [Attribution.passes, Attribution.passes, htables, htables', List.length_map, List.length_map]

theorem Matches.context? {site : Site} (hsite : site.file = file) :
    a'.context? (site.moved ρ file') = (a.context? site).map (·.against a'.registry) := by
  rw [Attribution.context?, Attribution.context?, hsite, Option.map_map, Site.moved, h.scope]
  rfl

variable (hρ : ρ.Injective)
include hρ

theorem Matches.lookup (m : Member) :
    a'.tables.lookup (file', m.relabeled ρ)
      = (a.tables.lookup (file, m)).map (TypeTable.relabeled ρ) := by
  obtain ⟨typed, htables, htables'⟩ := h.tables
  have hfile (k : Nat) : Function.Injective fun m : Member => (k, m) :=
    fun _ _ hm => (Prod.mk.inj hm).2
  have hkey := lookup_map (hfile file) id typed m
  have hkey' := lookup_map ((hfile file').comp (Member.relabeled_injective hρ))
    (TypeTable.relabeled ρ) typed m
  rw [Option.map_id] at hkey
  rw [htables, htables']
  exact hkey'.trans (congrArg _ hkey.symm)

/-- **Typing a member keeps in step.** -/
theorem Matches.ensure {site : Site} (hsite : site.file = file) (m : Member) :
    Matches ρ file file' (a.ensure site m) (a'.ensure (site.moved ρ file') (m.relabeled ρ)) := by
  have hlookup : (a'.tables.lookup ((site.moved ρ file').file, m.relabeled ρ)).isSome
      = (a.tables.lookup (site.file, m)).isSome := by
    rw [hsite, Site.moved, h.lookup hρ, Option.isSome_map]
  rw [Attribution.ensure, Attribution.ensure, hlookup, h.context? hsite]
  split
  · exact h
  · cases hcontext : a.context? site with
    | none => exact h
    | some c =>
      obtain ⟨scope, -, rfl⟩ := Option.map_eq_some_iff.mp hcontext
      obtain ⟨typed, htables, htables'⟩ := h.tables
      refine ⟨h.registry, h.scope,
        typed ++ [(m, m.typeTable (.inType a.registry scope site.owner))], ?_, ?_⟩
      · simp only [List.map_append, List.map_cons, List.map_nil, htables, hsite]
      · have htable := Member.typeTable_relabeled (ρ := ρ)
          (c := Context.inType a.registry scope site.owner) h.registry m
        simp only [Option.map_some, List.map_append, List.map_cons, List.map_nil, htables', htable]
        rfl

/-- **The answer is the same**, and asking keeps in step. -/
theorem Matches.resolve {site : Site} (hsite : site.file = file) (e : Expr) :
    (a'.resolve (site.moved ρ file') (e.relabeled ρ)).1 = (a.resolve site e).1 ∧
      Matches ρ file file' (a.resolve site e).2
        (a'.resolve (site.moved ρ file') (e.relabeled ρ)).2 := by
  obtain ⟨file, owner, m⟩ := site
  obtain rfl := hsite
  cases m with
  | none => cases e <;> exact ⟨rfl, h⟩
  | some m =>
    have hensure := h.ensure hρ (show (Site.mk file owner (some m)).file = file from rfl) m
    -- Once the member is typed on both sides, the tables are the same up to labels.
    have hlookup : ((a'.ensure ⟨file', owner, some (m.relabeled ρ)⟩ (m.relabeled ρ)).tables.lookup
          (file', m.relabeled ρ)).bind (·.lookup (e.relabeled ρ))
        = ((a.ensure ⟨file, owner, some m⟩ m).tables.lookup (file, m)).bind (·.lookup e) := by
      rw [show Site.moved ρ file' ⟨file, owner, some m⟩ = ⟨file', owner, some (m.relabeled ρ)⟩
        from rfl] at hensure
      rw [hensure.lookup hρ, Option.bind_map]
      refine congrArg (Option.bind _) (funext fun table => ?_)
      have hentry := lookup_map (Expr.relabeled_injective hρ) id table e
      rw [Option.map_id] at hentry
      exact hentry
    cases e with
    | this s => exact ⟨rfl, h⟩
    | _ => exact ⟨hlookup, hensure⟩

theorem Matches.foldl_resolve {site : Site} (hsite : site.file = file) (es : List Expr) :
    Matches ρ file file' (es.foldl (fun a e => (a.resolve site e).2) a)
      ((es.map (Expr.relabeled ρ)).foldl (fun a e => (a.resolve (site.moved ρ file') e).2) a') := by
  induction es generalizing a a' with
  | nil => exact h
  | cons e es ih => exact ih (h.resolve hρ hsite e).2

omit hρ in
theorem Matches.resolveType {site : Site} (hsite : site.file = file) (t : TypeExpr) :
    a'.resolveType (site.moved ρ file') (t.relabeled ρ) = a.resolveType site t := by
  rw [Attribution.resolveType, Attribution.resolveType, TypeExpr.dims_relabeled, h.context? hsite,
    show a'.registry.get? = a.registry.get? from funext h.registry.get?]
  cases hcontext : a.context? site with
  | none => rfl
  | some c =>
    obtain ⟨scope, -, rfl⟩ := Option.map_eq_some_iff.mp hcontext
    have hbase := Context.base_against (c := Context.inType a.registry scope site.owner)
      h.registry ρ t
    simp only [Option.map_some, Option.bind_some, hbase]

end Matches

end Attribution

/-! ### The catalog -/

mutual

theorem Element.leaves_relabeled : ∀ e : Element,
    (e.relabeled ρ).leaves = e.leaves.map (Element.relabeled ρ)
  | .expr _ | .annot _ => by
    simp only [Element.relabeled, Element.leaves, List.map_cons, List.map_nil]
  | .array es _ => by
    simp only [Element.relabeled, Element.leaves, Element.allLeaves_relabeled es]

theorem Element.allLeaves_relabeled : ∀ es : List Element,
    Element.allLeaves (Element.allRelabeled ρ es)
      = (Element.allLeaves es).map (Element.relabeled ρ)
  | [] => rfl
  | e :: es => by
    simp only [Element.allRelabeled, Element.allLeaves, List.map_append,
      Element.leaves_relabeled e, Element.allLeaves_relabeled es]

end

theorem Annot.element?_relabeled (a : Annot) (name : String) :
    (a.relabeled ρ).element? name = (a.element? name).map (Element.relabeled ρ) := by
  obtain ⟨n, as, s⟩ := a
  simp only [element?, relabeled, AnnotArg.allRelabeled_eq_map, List.find?_map]
  have hname : ((fun arg : AnnotArg => (arg.name.elim "value" Ident.name) == name)
      ∘ AnnotArg.relabeled ρ) = fun arg => (arg.name.elim "value" Ident.name) == name := by
    funext arg
    obtain ⟨n, v, s⟩ := arg
    cases n <;> rfl
  rw [hname, Option.map_map, Option.map_map]
  refine congrArg (Option.map · _) (funext fun arg => ?_)
  obtain ⟨n, v, s⟩ := arg
  rfl

theorem Annot.providers_relabeled (a : Annot) :
    (a.relabeled ρ).providers = a.providers.map (Element.relabeled ρ) := by
  rw [providers, providers, element?_relabeled]
  cases a.element? "value" with
  | none => rfl
  | some e => exact e.leaves_relabeled

/-- What became of a provider, with spans relabelled. -/
def ProviderOutcome.relabeled (ρ : Relabeling) : ProviderOutcome → ProviderOutcome
  | accepted e => accepted e
  | rejectedKind name kind => rejectedKind name kind
  | unresolvedType s => unresolvedType (ρ.span s)
  | notClassLiteral s => notClassLiteral (ρ.span s)

namespace Catalog

/-- What became of providers, with spans relabelled. -/
def relabeled (ρ : Relabeling) (c : Catalog) : Catalog :=
  ⟨c.outcomes.map (ProviderOutcome.relabeled ρ)⟩

theorem extensions_relabeled (c : Catalog) : (c.relabeled ρ).extensions = c.extensions := by
  rw [extensions, extensions, relabeled, List.filterMap_map]
  refine congrArg (List.filterMap · c.outcomes) (funext fun o => ?_)
  cases o <;> rfl

theorem isEmpty_relabeled (c : Catalog) : (c.relabeled ρ).isEmpty = c.isEmpty := by
  rw [isEmpty, isEmpty, methodCount, methodCount, extensions_relabeled]

theorem provider?_relabeled (c : Catalog) (name : String) (receiver : DataType) :
    (c.relabeled ρ).provider? name receiver = c.provider? name receiver := by
  rw [provider?, provider?, extensions_relabeled]

section Matches

variable {file file' : Nat} {a a' : Attribution} (h : a.Matches ρ file file' a') {site : Site}
  (hsite : site.file = file)
include h hsite

theorem classify_relabeled (provider : Element) :
    classify a' (site.moved ρ file') (provider.relabeled ρ)
      = (classify a site provider).relabeled ρ := by
  -- No span is left once the provider is known.
  have hsymbol : ∀ t : TypeSymbol, (ofSymbol t).relabeled ρ = ofSymbol t := by
    intro t
    rw [ofSymbol]
    split <;> rfl
  cases provider with
  | expr e =>
    simp only [Element.relabeled, classify, Expr.unparenthesized_relabeled, Expr.span_relabeled]
    cases e.unparenthesized with
    | classLit t s =>
      simp only [Expr.relabeled, h.resolveType hsite]
      cases a.resolveType site t with
      | none => rfl
      | some t => exact (hsymbol t).symm
    | _ => rfl
  | array es s => rfl
  | annot x => exact congrArg ProviderOutcome.notClassLiteral (Element.span_relabeled ρ (.annot x))

theorem ofAnnot_relabeled (kind : TypeKind) (annot : Annot) :
    ofAnnot a' (site.moved ρ file') kind (annot.relabeled ρ)
      = (ofAnnot a site kind annot).map (Catalog.relabeled ρ) := by
  have houtcomes : (annot.providers.map (Element.relabeled ρ)).map
        (classify a' (site.moved ρ file'))
      = (annot.providers.map (classify a site)).map (ProviderOutcome.relabeled ρ) := by
    rw [List.map_map, List.map_map]
    exact congrArg (List.map · _) (funext fun p => classify_relabeled h hsite p)
  rw [ofAnnot, ofAnnot, Annot.providers_relabeled, houtcomes, List.isEmpty_map]
  split
  · rfl
  · split <;> rfl

end Matches

end Catalog

/-! ### Decisions -/

/-- A decision with its labels replaced. -/
def Decision.relabeled (ρ : Relabeling) : Decision → Decision
  | keep reason => keep reason
  | replace call callee args =>
    replace (ρ.call call) (callee.relabeled ρ) (args.map (Expr.relabeled ρ))

theorem Expr.ofNames_relabeled (s : Span) (names : List String) :
    (Expr.ofNames s names).relabeled ρ = Expr.ofNames (ρ.span s) names := by
  cases names with
  | nil => rfl
  | cons n ns =>
    have hchain : ∀ (ns : List String) (e : Expr),
        (ns.foldl (fun e n => .field e ⟨n, s⟩ s) e).relabeled ρ
          = ns.foldl (fun e n => .field e ⟨n, ρ.span s⟩ (ρ.span s)) (e.relabeled ρ) := by
      intro ns e
      induction ns generalizing e with
      | nil => rfl
      | cons n ns ih => exact ih _
    exact hchain ns _

theorem Call.moveTo_relabeled (c : Call) (e : Extension) (name : String) :
    (c.relabeled ρ).moveTo e name = (c.moveTo e name).relabeled ρ := by
  rw [moveTo, moveTo, Decision.relabeled, Expr.ofNames_relabeled, List.map_cons,
    receiver_relabeled]
  simp only [relabeled, Expr.span_relabeled]

namespace Catalog

variable {file file' : Nat} {a a' : Attribution} (h : a.Matches ρ file file' a') (hρ : ρ.Injective)
include h hρ

/-- **The same is decided**, up to labels. -/
theorem decide_relabeled (c : Catalog) {s : CallSite} (hs : s.site.file = file) :
    ((c.relabeled ρ).decide (s.moved ρ file') a').1 = (c.decide s a).1.relabeled ρ ∧
      (c.decide s a).2.Matches ρ file file' ((c.relabeled ρ).decide (s.moved ρ file') a').2 := by
  have hname : (s.moved ρ file').call.name? = s.call.name? := s.call.name?_relabeled
  cases hcall : s.call.name? with
  | none =>
    simp only [Catalog.decide, hname, hcall]
    exact ⟨rfl, h⟩
  | some name =>
    simp only [Catalog.decide, hname, hcall, Bool.or_eq_true, decide_eq_true_eq]
    by_cases hconstructor : name = "this" ∨ name = "super"
    · rw [if_pos hconstructor, if_pos hconstructor]
      exact ⟨rfl, h⟩
    · rw [if_neg hconstructor, if_neg hconstructor]
      obtain ⟨htype, hreceiver⟩ := h.resolve hρ hs s.call.receiver
      -- The types of the arguments are asked for, though nothing depends on the answers.
      have hargs := hreceiver.foldl_resolve hρ hs s.call.args
      rw [← Call.receiver_relabeled] at htype hargs
      have hfound : (a'.resolve (s.moved ρ file').site (s.moved ρ file').call.receiver).1
          = (a.resolve s.site s.call.receiver).1 := htype
      rw [hfound]
      cases (a.resolve s.site s.call.receiver).1 with
      | none => exact ⟨rfl, hargs⟩
      | some t =>
        simp only [provider?_relabeled]
        cases c.provider? name t with
        | none => exact ⟨rfl, hargs⟩
        | some e => exact ⟨s.call.moveTo_relabeled e name, hargs⟩

theorem decideAll_relabeled (c : Catalog) (ss : List CallSite)
    (hss : ∀ s ∈ ss, s.site.file = file) :
    ((c.relabeled ρ).decideAll (ss.map (CallSite.moved ρ file')) a').1
        = (c.decideAll ss a).1.map (Decision.relabeled ρ) ∧
      (c.decideAll ss a).2.Matches ρ file file'
        ((c.relabeled ρ).decideAll (ss.map (CallSite.moved ρ file')) a').2 := by
  induction ss generalizing a a' with
  | nil => exact ⟨rfl, h⟩
  | cons s ss ih =>
    obtain ⟨hfirst, hmatches⟩ := decide_relabeled h hρ c (hss s List.mem_cons_self)
    obtain ⟨hrest, hmatches'⟩ := ih hmatches fun s hs => hss s (List.mem_cons_of_mem _ hs)
    rw [List.map_cons, decideAll, decideAll]
    exact ⟨List.cons_eq_cons.mpr ⟨hfirst, hrest⟩, hmatches'⟩

end Catalog

/-! ### Types -/

theorem Tally.ofDecisions_relabeled (ds : List Decision) :
    Tally.ofDecisions (ds.map (Decision.relabeled ρ)) = Tally.ofDecisions ds := by
  have hreplaces : Decision.replaces ∘ Decision.relabeled ρ = Decision.replaces := by
    funext d
    cases d <;> rfl
  have hkeeps : ∀ reason, Decision.keeps reason ∘ Decision.relabeled ρ = Decision.keeps reason := by
    intro reason
    funext d
    cases d <;> rfl
  simp only [Tally.ofDecisions, List.length_map, List.countP_map, hreplaces, hkeeps]

/-- The new callees of relabelled decisions are the relabelled callees. -/
theorem newCallee?_relabeled (hρ : ρ.Injective) (ds : List Decision) (id : Nat) :
    newCallee? (ds.map (Decision.relabeled ρ)) (ρ.call id)
      = (newCallee? ds id).map (Expr.relabeled ρ) := by
  rw [newCallee?, newCallee?, ← List.map_reverse, List.findSome?_map, List.map_findSome?]
  refine congrArg (List.findSome? · ds.reverse) (funext fun d => ?_)
  cases d with
  | keep reason => rfl
  | replace call callee args =>
    simp only [Function.comp_apply, Decision.relabeled, hρ.call.eq_iff]
    split <;> rfl

namespace TypeDecl

theorem applied_relabeled (hρ : ρ.Injective) (d : TypeDecl) (ds : List Decision)
    (strip : Option Annot) :
    (d.relabeled ρ).applied (ds.map (Decision.relabeled ρ)) (strip.map (Annot.relabeled ρ))
      = (d.applied ds strip).relabeled ρ := by
  obtain ⟨⟨flags, as, s⟩, kind, n, tps, sup, is, cs, ms, span⟩ := d
  -- Relabelling keeps annotations apart, so the one that is dropped is the same.
  have hannots : (strip.map (Annot.relabeled ρ)).elim (as.map (Annot.relabeled ρ))
        (as.map (Annot.relabeled ρ)).erase
      = (strip.elim as as.erase).map (Annot.relabeled ρ) := by
    cases strip with
    | none => rfl
    | some a => exact (List.map_erase (Annot.relabeled_injective hρ) as).symm
  have hmembers : (ms.map (Member.relabeled ρ)).map
        (·.spliced (newCallee? (ds.map (Decision.relabeled ρ))))
      = (ms.map (·.spliced (newCallee? ds))).map (Member.relabeled ρ) := by
    rw [List.map_map, List.map_map]
    exact congrArg (List.map · ms)
      (funext fun m => m.spliced_relabeled (newCallee?_relabeled hρ ds))
  simp only [applied, relabeled, Modifiers.relabeled, Annot.allRelabeled_eq_map,
    Member.allRelabeled_eq_map, hannots, hmembers]

/-- All candidates of a type are in its file. -/
theorem file_of_mem_callSites {d : TypeDecl} {file : Nat} {owner : TypeHash} :
    ∀ s ∈ d.callSites file owner, s.site.file = file := by
  intro s hs
  rcases List.mem_append.mp hs with hs | hs
  · obtain ⟨c, -, rfl⟩ := List.mem_map.mp hs
    rfl
  · obtain ⟨m, -, hs⟩ := List.mem_flatMap.mp hs
    obtain ⟨c, -, rfl⟩ := List.mem_map.mp hs
    rfl

/-- **Carrying an annotation out on a relabelled type.** The type comes out relabelled, and what
became of the annotation is the same. -/
theorem extended_relabeled (hρ : ρ.Injective) {file file' : Nat} {a a' : Attribution}
    (h : a.Matches ρ file file' a') (d : TypeDecl) (annot : Annot) (owner : TypeHash) :
    let done := d.extended annot file owner a
    let done' := (d.relabeled ρ).extended (annot.relabeled ρ) file' owner a'
    done'.decl = done.decl.relabeled ρ ∧ done'.outcome = done.outcome ∧
      done'.attribution.passes = done.attribution.passes := by
  have hcatalog : Catalog.ofAnnot a' ⟨file', owner, none⟩ (d.relabeled ρ).kind (annot.relabeled ρ)
      = (Catalog.ofAnnot a ⟨file, owner, none⟩ d.kind annot).map (Catalog.relabeled ρ) := by
    have hsite : Site.file ⟨file, owner, none⟩ = file := rfl
    rw [kind_relabeled]
    exact Catalog.ofAnnot_relabeled h hsite d.kind annot
  simp only [extended, hcatalog]
  cases Catalog.ofAnnot a ⟨file, owner, none⟩ d.kind annot with
  | error e => exact ⟨rfl, rfl, h.passes⟩
  | ok c =>
    simp only [Except.map, Catalog.isEmpty_relabeled, d.callSites_relabeled file file' owner]
    split
    · exact ⟨d.applied_relabeled hρ [] (some annot), rfl, h.passes⟩
    · obtain ⟨hdecisions, hmatches⟩ := Catalog.decideAll_relabeled h hρ c (d.callSites file owner)
        file_of_mem_callSites
      simp only [hdecisions]
      exact ⟨d.applied_relabeled hρ _ (some annot),
        congrArg ExtensionOutcome.carriedOut (Tally.ofDecisions_relabeled _), hmatches.passes⟩

end TypeDecl

end JavaGraft

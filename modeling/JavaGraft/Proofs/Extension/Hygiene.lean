import JavaGraft.Proofs.Extension.Meaning
import JavaGraft.Proofs.Scope.Visible
import Mathlib.Data.List.Induction

/-!
# Whether an inserted callee can be captured

A call that is replaced is given the dotted name of a provider as its callee. The name is made of
the provider's segments and of nothing else; the place where it is written is not looked at. So its
first segment may be the name of a local variable in scope there, or of a field of a type around the
place, and then it is the variable that is meant.

`JavaGraft.TypeDecl.decideAll_hygiene` says when that happens and when it cannot. If neither the
type declares a local variable of the name of a provider's first segment nor the types around have a
field of that name, then no callee is captured, however scopes are nested. And a callee that is not
captured has the meaning of the provider's dotted name.
-/

namespace JavaGraft

/-! ### Chains of names -/

namespace Expr

/-- The first name of a chain. -/
def firstName? (e : Expr) : Option String := e.chain?.bind fun is => is.head?.map Ident.name

theorem ofNames_concat (span : Span) (first : String) (names : List String) (last : String) :
    ofNames span (first :: names ++ [last]) =
      .field (ofNames span (first :: names)) ⟨last, span⟩ span := by
  simp [ofNames, List.foldl_append]

/-- A chain has the names that it was made of. -/
theorem chain?_ofNames (span : Span) (first : String) (names : List String) :
    (ofNames span (first :: names)).chain? = some ((first :: names).map (⟨·, span⟩)) := by
  induction names using List.reverseRecOn with
  | nil => rfl
  | append_singleton names last ih =>
    rw [← List.cons_append, ofNames_concat, chain?, ih]
    simp

theorem firstName?_ofNames (span : Span) (first : String) (names : List String) :
    (ofNames span (first :: names)).firstName? = some first := by
  simp [firstName?, chain?_ofNames]

end Expr

/-! ### Variables -/

namespace Context

/-- Whether a name is that of a variable at a place where the given local variables are in scope:
one of them, or a field of a type around the place. -/
def SeesVariable (c : Context) (names : List String) (name : String) : Prop :=
  name ∈ names ∨ ∃ h ∈ c.enclosing, (c.registry.fieldNamed? h name).isSome

/-- Whether a dotted name has, where the given local variables are in scope, the meaning that it has
as the name of a type: its first segment has no value, and the chain of its segments denotes what
the name means. -/
def MeansType (c : Context) (names segments : List String) : Prop :=
  ∀ typeVars scope span, (∀ n, scope.isDeclared n ↔ n ∈ names) →
    (∀ first ∈ segments.head?, (c.addTypeVars typeVars).nameType scope first = none) ∧
    (c.addTypeVars typeVars).denotedType scope (.ofNames span segments) =
      (c.addTypeVars typeVars).namedType? segments

variable {c : Context} {scope : LocalScope} {names : List String}

/-- Only a variable has a value. -/
theorem nameType_of_not_seen (hscope : ∀ n, scope.isDeclared n ↔ n ∈ names) {name : String}
    (h : ¬ c.SeesVariable names name) : c.nameType scope name = none := by
  obtain ⟨hlocal, hfield⟩ := not_or.mp h
  rw [nameType, if_neg (fun hdeclared => hlocal ((hscope name).mp hdeclared)),
    Option.map_eq_none_iff, List.findSome?_eq_none_iff]
  intro t ht
  rw [← Option.not_isSome_iff_eq_none]
  exact fun hsome => hfield ⟨t, ht, hsome⟩

/-- A chain that does not start with a local variable denotes what its dotted name means. -/
theorem denotedType_ofNames (hscope : ∀ n, scope.isDeclared n ↔ n ∈ names) (span : Span)
    {first : String} (rest : List String) (h : first ∉ names) :
    c.denotedType scope (.ofNames span (first :: rest)) = c.namedType? (first :: rest) := by
  rcases List.eq_nil_or_concat rest with rfl | ⟨init, last, rfl⟩
  · have hfree : ¬ scope.isDeclared first := fun hdeclared => h ((hscope first).mp hdeclared)
    simp [denotedType, Expr.ofNames, hfree]
  · have hchain := Expr.chain?_ofNames span first (init ++ [last])
    rw [← List.cons_append, Expr.ofNames_concat] at hchain
    rw [List.concat_eq_append, ← List.cons_append, Expr.ofNames_concat]
    change (Expr.chain? _).bind _ = _
    rw [hchain, Option.bind_some, List.map_map]
    simp [Function.comp_def]

/-- **A dotted name that does not start with a variable is not captured.** -/
theorem meansType_of_not_seen {first : String} (rest : List String)
    (h : ¬ c.SeesVariable names first) : c.MeansType names (first :: rest) := by
  intro typeVars scope span hscope
  refine ⟨fun n hn => ?_, denotedType_ofNames hscope span rest fun hlocal => h (.inl hlocal)⟩
  obtain rfl : first = n := Option.some.inj hn
  -- Type variables do not matter to variables.
  exact nameType_of_not_seen (c := c.addTypeVars typeVars) hscope h

end Context

/-! ### Providers -/

/-- A provider has a first segment. -/
theorem QualifiedName.segments_eq_cons (n : QualifiedName) :
    ∃ first rest, n.segments = first :: rest := by
  refine List.exists_cons_of_ne_nil ?_
  simp [segments]

/-- In no file no provider is accepted. -/
theorem Catalog.classify_of_no_context {a : Attribution} {site : Site}
    (hc : a.context? site = none) (p : Element) (e : Extension) :
    classify a site p ≠ .accepted e := by
  have hresolve (t : TypeExpr) : a.resolveType site t = none := by
    simp [Attribution.resolveType, hc]
  cases p with
  | expr e =>
    simp only [classify]
    split <;> simp [hresolve]
  | array _ _ => simp [classify]
  | annot _ => simp [classify]

/-- What is offered comes from an accepted provider, and stands in a file that exists. -/
theorem Catalog.context_of_offers {a : Attribution} {site : Site} {annot : Annot}
    {x : Extension × MethodSymbol} (hx : x ∈ (listed a site annot).offers) :
    x.1 ∈ (listed a site annot).extensions ∧ ∃ c, a.context? site = some c := by
  obtain ⟨e, he, hx⟩ := List.mem_flatMap.mp hx
  obtain ⟨m, -, rfl⟩ := List.mem_map.mp hx
  refine ⟨he, Option.ne_none_iff_exists'.mp fun hc => ?_⟩
  obtain ⟨o, ho, haccepted⟩ := List.mem_filterMap.mp he
  obtain ⟨p, -, rfl⟩ := List.mem_map.mp ho
  have hrejected := classify_of_no_context hc p
  split at haccepted
  · next e' heq => exact hrejected e' heq
  · cases haccepted

/-- The catalog of an annotation is that of what it lists. -/
theorem Catalog.eq_listed_of_ok {a : Attribution} {site : Site} {kind : TypeKind} {annot : Annot}
    {c : Catalog} (h : ofAnnot a site kind annot = .ok c) : c = listed a site annot := by
  simp only [ofAnnot] at h
  split at h
  · cases h
  · split at h
    · cases h
    · exact (Except.ok.inj h).symm

/-- A call that is to be replaced gets its new callee. -/
theorem Catalog.calleeFor?_of_ruling {c : Catalog} {a : Attribution} {s : CallSite} {id : Nat}
    {g : Expr} {args : List Expr} (h : c.ruling a s = .replace id g args) :
    c.calleeFor? a s.site s.call = some g := by
  rw [ruling] at h
  split at h
  · next hg =>
    cases h
    exact hg
  · cases h

/-- **The form of a new callee**: the dotted name of an accepted provider, and a method behind
it. -/
theorem Catalog.calleeFor?_form {a : Attribution} {site : Site} {annot : Annot} {m : Option Member}
    {call : Call} {g : Expr}
    (h : (listed a site annot).calleeFor? a { site with member := m } call = some g) :
    ∃ e ∈ (listed a site annot).extensions, ∃ method c,
      g = .field (.ofNames call.callee.span e.name.segments) method call.callee.span ∧
      g.firstName? = e.name.segments.head? ∧ a.context? { site with member := m } = some c := by
  obtain ⟨name, t, x, -, -, -, -, hx, rfl⟩ := calleeFor?_eq_some_iff.mp h
  obtain ⟨he, c, hc⟩ := context_of_offers (List.mem_of_find?_eq_some hx)
  obtain ⟨first, rest, hsegments⟩ := x.1.name.segments_eq_cons
  refine ⟨x.1, he, ⟨x.2.name, call.callee.span⟩, c, ?_, ?_, hc⟩
  · rw [hsegments, Expr.ofNames_concat]
  · rw [hsegments]
    exact Expr.firstName?_ofNames _ first (rest ++ [x.2.name])

namespace TypeDecl

/-- Whether the variables of a type avoid providers: the type declares no local variable, and no
type around has a field, of the name of a provider's first segment. -/
def AvoidsProviders (d : TypeDecl) (c : Context) (providers : List Extension) : Prop :=
  ∀ e ∈ providers, ∀ first ∈ e.name.segments.head?,
    first ∉ d.declared ∧ ∀ h ∈ c.enclosing, c.registry.fieldNamed? h first = none

/-- **When an inserted callee is captured.** The new callee of a candidate is the dotted name of a
provider with a method behind it, wherever the candidate stands. What is in scope there is declared
in the type. Unless the first segment is the name of a variable, the provider's name means at this
place what it means as the name of a type. And if the variables of the type avoid the providers, it
is never the name of a variable. -/
theorem decideAll_hygiene (d : TypeDecl) (annot : Annot) (file : Nat) (owner : TypeHash)
    (r : Registry) (files : List SourceFile) (catalog : Catalog)
    (hcatalog : Catalog.ofAnnot (.start r files) ⟨file, owner, none⟩ d.kind annot = .ok catalog) :
    List.Forall₂ (fun s decision => ∀ id g args, decision = Decision.replace id g args →
        (∃ names, (.slot, s.call, names) ∈ d.scopedAt s.site.member) ∧
        ∃ e ∈ catalog.extensions, ∃ method c,
          g = .field (.ofNames s.call.callee.span e.name.segments) method s.call.callee.span ∧
          g.firstName? = e.name.segments.head? ∧
          (Attribution.start r files).context? s.site = some c ∧
          ∀ names, (.slot, s.call, names) ∈ d.scopedAt s.site.member → ∀ first ∈ g.firstName?,
            names ⊆ d.declared ∧
            (¬ c.SeesVariable names first → c.MeansType names e.name.segments) ∧
            (d.AvoidsProviders c catalog.extensions → ¬ c.SeesVariable names first))
      (d.callSites file owner)
      (catalog.decideAll (d.callSites file owner) (.start r files)).1 := by
  obtain rfl := Catalog.eq_listed_of_ok hcatalog
  rw [Catalog.decideAll_eq_map _ _ (fun s hs => d.site_of_mem hs)
    (Attribution.serves_start r files file owner), List.forall₂_map_right_iff, List.forall₂_same]
  intro s hs id g args hruling
  obtain ⟨call, file', owner', m⟩ := s
  obtain ⟨rfl, rfl⟩ := d.site_of_mem hs
  obtain ⟨e, he, method, c, hform, hfirst, hc⟩ :=
    Catalog.calleeFor?_form (Catalog.calleeFor?_of_ruling hruling)
  refine ⟨exists_scopedAt hs, e, he, method, c, hform, hfirst, hc, fun names hnames first h => ?_⟩
  have hdeclared : names ⊆ d.declared := scopedAt_subset hs hnames
  rw [hfirst] at h
  refine ⟨hdeclared, fun hfree => ?_, fun havoids => ?_⟩
  · obtain ⟨first', rest, hsegments⟩ := e.name.segments_eq_cons
    rw [hsegments] at h ⊢
    obtain rfl : first' = first := Option.some.inj h
    exact Context.meansType_of_not_seen rest hfree
  · obtain ⟨hlocals, hfields⟩ := havoids e he first h
    rintro (hlocal | ⟨t, ht, hfield⟩)
    · exact hlocals (hdeclared hlocal)
    · rw [hfields t ht] at hfield
      cases hfield

end TypeDecl

namespace Sample

/-- An enum with a method that has a parameter of the given name, and in which `tag()` is called. -/
def withParam (param : String) : TypeDecl :=
  enum [] [.method .absent [] ⟨.primitive .void, [], 0, .absent⟩ (ident "m")
    [⟨.absent, ⟨.primitive .int, [], 0, .absent⟩, false, ident param, .absent⟩] [] none
    (some (block 0)) .absent]

/-- What the annotation of the samples offers. -/
def catalog : Catalog := .listed start ⟨0, owner, none⟩ annot

end Sample

namespace TypeDecl

/-- In the method with a parameter of another name the call of `ext.Ext` is not captured. -/
theorem decideAll_hygiene_sample :
    ∃ s ∈ (Sample.withParam "other").callSites 0 Sample.owner, ∃ c,
      Sample.start.context? s.site = some c ∧ ¬ c.SeesVariable ["other"] "ext" := by
  have hcatalog : Catalog.ofAnnot Sample.start ⟨0, Sample.owner, none⟩
      (Sample.withParam "other").kind Sample.annot = .ok Sample.catalog := rfl
  have hygiene := (Sample.withParam "other").decideAll_hygiene Sample.annot 0 Sample.owner
    Sample.registry [Sample.file Sample.withMember] Sample.catalog hcatalog
  rw [show Sample.start = .start Sample.registry [Sample.file Sample.withMember] from rfl]
  have hdecisions : (Sample.catalog.decideAll
      ((Sample.withParam "other").callSites 0 Sample.owner)
      (.start Sample.registry [Sample.file Sample.withMember])).1 =
        [.replace 0 (.ofNames .absent ["ext", "Ext", "tag"]) [.this .absent]] := by
    decide +kernel
  rw [hdecisions, List.forall₂_cons_right_iff] at hygiene
  obtain ⟨s, ss, hs, -, hsites⟩ := hygiene
  obtain ⟨-, e, -, method, c, -, -, hc, hall⟩ := hs _ _ _ rfl
  have hscoped : ∀ s ∈ (Sample.withParam "other").callSites 0 Sample.owner,
      (.slot, s.call, ["other"]) ∈ (Sample.withParam "other").scopedAt s.site.member := by
    decide +kernel
  have havoids : ∀ s ∈ (Sample.withParam "other").callSites 0 Sample.owner,
      ∀ c ∈ (Attribution.start Sample.registry [Sample.file Sample.withMember]).context? s.site,
        (Sample.withParam "other").AvoidsProviders c Sample.catalog.extensions := by
    unfold AvoidsProviders
    decide +kernel
  have hmem : s ∈ (Sample.withParam "other").callSites 0 Sample.owner := by
    rw [hsites]
    exact List.mem_cons_self
  exact ⟨s, hmem, c, hc, (hall _ (hscoped s hmem) "ext" rfl).2.2 (havoids s hmem c hc)⟩

/-- **A captured callee.** In the method with a parameter `ext`, the call becomes one of
`ext.Ext.tag`, where `ext` is the parameter. -/
theorem decideAll_hygiene_captured :
    (Sample.catalog.decideAll ((Sample.withParam "ext").callSites 0 Sample.owner) Sample.start).1 =
        [.replace 0 (.ofNames .absent ["ext", "Ext", "tag"]) [.this .absent]] ∧
      ∀ s ∈ (Sample.withParam "ext").callSites 0 Sample.owner,
        (.slot, s.call, ["ext"]) ∈ (Sample.withParam "ext").scopedAt s.site.member := by
  constructor
  · decide +kernel
  · decide +kernel

end TypeDecl

end JavaGraft

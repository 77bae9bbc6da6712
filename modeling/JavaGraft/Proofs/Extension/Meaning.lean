import JavaGraft.Proofs.Extension.Candidates
import JavaGraft.Proofs.Extension.Redirection
import JavaGraft.Proofs.Extension.Ruling

/-!
# What extension methods mean

An annotation that offers something does two things to its type
(`JavaGraft.TypeDecl.extended_redirects`): it disappears, and the calls in the slots of every
member are redirected to the first offer that fits, as they are found in the type before anything
is changed. Nothing else changes.

The decisions are handed over by the numbers of calls, so the numbers have to tell calls apart.
With that, the decision found under a number is the one made for the call of this number
(`JavaGraft.TypeDecl.newCallee?_of_candidate`), and there is none for a call that is no candidate
(`JavaGraft.TypeDecl.newCallee?_of_no_candidate`).
-/

namespace JavaGraft

/-! ### A type to try things on -/

namespace Sample

/-- The name `ext.Ext`. -/
def extName : QualifiedName := ⟨"ext", "Ext"⟩

/-- A class `ext.Ext` with a static method `tag(Object)`. -/
def ext : TypeSymbol :=
  { TypeSymbol.declared extName .classType .publicBit [] none with
    members := [.method ⟨"tag", extName.hash, .staticBit ||| .publicBit, none,
      ⟨[.simple .object], .void, false⟩⟩] }

/-- A registry with that class. -/
def registry : Registry := ⟨[ext]⟩

/-- A name without a place. -/
def ident (name : String) : Ident := ⟨name, .absent⟩

/-- The annotation `@ExtensionMethod(ext.Ext.class)`. -/
def annot : Annot :=
  let type : TypeExpr := ⟨.named ⟨[ident "ext", ident "Ext"], .absent⟩, [], 0, .absent⟩
  ⟨⟨[ident "ExtensionMethod"], .absent⟩, [⟨none, .expr (.classLit type .absent), .absent⟩], .absent⟩

/-- A block with the one call `tag()`, numbered. -/
def block (id : Nat) : Block :=
  ⟨[.expr (.call id (.name (ident "tag")) [] .absent) .absent], .absent⟩

/-- An enum with the annotation. -/
def enum (constants : List EnumConstant) (members : List Member) : TypeDecl where
  modifiers := ⟨.none, [annot], .absent⟩
  kind := .enumType
  name := ident "T"
  typeParams := []
  superclass := none
  interfaces := []
  constants := constants
  members := members
  span := .absent

/-- A file that holds nothing but a type. -/
def file (d : TypeDecl) : SourceFile := ⟨"T", ⟨none, [], [d], .absent⟩⟩

/-- The identity of the enum. -/
def owner : TypeHash := QualifiedName.hash ⟨"", "T"⟩

/-- An enum with an initializer that calls `tag()`. -/
def withMember : TypeDecl := enum [] [.initializer false (block 0) .absent]

/-- An enum with a constant, in the argument of which a lambda calls `tag()`. -/
def withConstant : TypeDecl :=
  enum [.plain [] (ident "A") [.blockLambda [] (block 0) .absent] .absent] []

/-- Nothing has been asked yet about a file with one of the enums. -/
def start : Attribution := .start registry [file withMember]

end Sample

/-! ### Finding the decision on a call -/

/-- If keys are distinct, the one element of a key decides what is found under it. -/
theorem findSome?_of_nodup {α β κ : Type} [DecidableEq κ] (key : α → κ) (f : α → Option β)
    (xs : List α) (hnodup : (xs.map key).Nodup) {x : α} (hx : x ∈ xs) :
    xs.findSome? (fun y => if key y = key x then f y else none) = f x := by
  induction xs with
  | nil => exact absurd hx List.not_mem_nil
  | cons y ys ih =>
    rw [List.map_cons, List.nodup_cons] at hnodup
    obtain ⟨hy, hys⟩ := hnodup
    rw [List.findSome?_cons]
    -- If `x` comes first, nothing behind it has its key; otherwise what comes first has another.
    rcases List.mem_cons.mp hx with rfl | hx
    · have hnone : ys.findSome? (fun z => if key z = key x then f z else none) = none := by
        rw [List.findSome?_eq_none_iff]
        intro z hz
        rw [if_neg]
        exact fun h => hy (h ▸ List.mem_map_of_mem hz)
      rw [if_pos rfl, hnone]
      cases f x <;> rfl
    · have hne : key y ≠ key x := fun h => hy (h ▸ List.mem_map_of_mem hx)
      rw [if_neg hne]
      exact ih hys hx

namespace Catalog

/-- Decisions made call by call are searched for a number through the calls themselves. -/
theorem newCallee?_map (c : Catalog) (a : Attribution) (ss : List CallSite) (id : Nat) :
    JavaGraft.newCallee? (ss.map (c.ruling a)) id
      = ss.reverse.findSome? fun s =>
          if s.call.id = id then c.calleeFor? a s.site s.call else none := by
  rw [JavaGraft.newCallee?, ← List.map_reverse, List.findSome?_map]
  refine congrArg (fun f => List.findSome? f ss.reverse) (funext fun s => ?_)
  rw [Function.comp_apply, ruling]
  cases c.calleeFor? a s.site s.call <;> simp

end Catalog

namespace TypeDecl

variable {d : TypeDecl} {file : Nat} {owner : TypeHash}

/-- **The decision found for a candidate is the one made for it.** -/
theorem newCallee?_of_candidate (c : Catalog) (a : Attribution) (hd : d.callIds.Nodup)
    {s : CallSite} (hs : s ∈ d.callSites file owner) :
    newCallee? ((d.callSites file owner).map (c.ruling a)) s.call.id
      = c.calleeFor? a s.site s.call := by
  rw [c.newCallee?_map]
  refine findSome?_of_nodup (fun s : CallSite => s.call.id) (fun s => c.calleeFor? a s.site s.call)
    _ ?_ (List.mem_reverse.mpr hs)
  rw [List.map_reverse, List.nodup_reverse]
  exact d.nodup_callSites hd

/-- **No decision is found for a call that is no candidate.** -/
theorem newCallee?_of_no_candidate (c : Catalog) (a : Attribution) (hd : d.callIds.Nodup)
    {x : Place × Call} (hx : x ∈ d.calls .inside) (hslot : x.1 ≠ .slot) :
    newCallee? ((d.callSites file owner).map (c.ruling a)) x.2.id = none := by
  rw [c.newCallee?_map, List.findSome?_eq_none_iff]
  intro s hs
  rw [if_neg (d.not_candidate hd hx hslot (List.mem_reverse.mp hs))]

/-- The decisions ask for the calls in the slots of a member to be redirected, and for nothing else
there. -/
theorem agrees_member (c : Catalog) (a : Attribution) (hd : d.callIds.Nodup) {m : Member}
    (hm : m ∈ d.members) :
    Agrees (newCallee? ((d.callSites file owner).map (c.ruling a)))
      (c.calleeFor? a ⟨file, owner, some m⟩) (m.calls .inside) := by
  intro x hx _
  -- A call in a slot is a candidate with a decision of its own; no decision has the number of
  -- any other call.
  by_cases hslot : x.1 = .slot
  · obtain ⟨p, call⟩ := x
    obtain rfl : p = .slot := hslot
    rw [if_pos rfl]
    exact newCallee?_of_candidate c a hd (d.mem_callSites hm hx)
  · have hxd : x ∈ d.calls .inside := by
      rw [d.calls_eq]
      exact List.mem_append_right _ (List.mem_flatMap.mpr ⟨m, hm, hx⟩)
    rw [if_neg hslot, newCallee?_of_no_candidate c a hd hxd hslot]

/-! ### The meaning of an annotation -/

/-- The decisions on the candidates of a type, taken together. -/
theorem decideAll_start (c : Catalog) (d : TypeDecl) (r : Registry) (files : List SourceFile) :
    (c.decideAll (d.callSites file owner) (.start r files)).1
      = (d.callSites file owner).map (c.ruling (.start r files)) :=
  c.decideAll_eq_map _ (fun _ hs => site_of_mem hs) (Attribution.serves_start r files file owner)

/-- An annotation that offers something is carried out by the rulings on the candidates. -/
theorem extended_eq_applied (d : TypeDecl) (annot : Annot) (file : Nat) (owner : TypeHash)
    (r : Registry) (files : List SourceFile) (hkind : d.kind.isInterfaceLike = false)
    (hoffers : (Catalog.listed (.start r files) ⟨file, owner, none⟩ annot).offers ≠ []) :
    ∃ a, d.extended annot file owner (.start r files) =
      let rulings := (d.callSites file owner).map
        ((Catalog.listed (.start r files) ⟨file, owner, none⟩ annot).ruling (.start r files))
      ⟨d.applied rulings (some annot), .carriedOut (.ofDecisions rulings), a⟩ := by
  have hok := Catalog.ofAnnot_of_offers hkind hoffers
  generalize Catalog.listed (.start r files) ⟨file, owner, none⟩ annot = c at hok hoffers ⊢
  have hempty : c.isEmpty = false := by
    rw [← Bool.not_eq_true, c.isEmpty_iff]
    exact hoffers
  refine ⟨(c.decideAll (d.callSites file owner) (.start r files)).2, ?_⟩
  simp only [extended, hok, hempty, Bool.false_eq_true, if_false, decideAll_start]

/-- On a class or an enum the calls of which are numbered apart, an annotation that offers something
redirects the calls in slots of the members and drops the annotation. -/
theorem extended_eq_redirected (d : TypeDecl) (annot : Annot) (file : Nat) (owner : TypeHash)
    (r : Registry) (files : List SourceFile) (hkind : d.kind.isInterfaceLike = false)
    (hd : d.callIds.Nodup)
    (hoffers : (Catalog.listed (.start r files) ⟨file, owner, none⟩ annot).offers ≠ []) :
    ∃ a, d.extended annot file owner (.start r files) =
      ⟨d.redirected (d.modifiers.annots.erase annot) fun m =>
          (Catalog.listed (.start r files) ⟨file, owner, none⟩ annot).calleeFor? (.start r files)
            ⟨file, owner, some m⟩,
        .carriedOut (.ofDecisions ((d.callSites file owner).map
          ((Catalog.listed (.start r files) ⟨file, owner, none⟩ annot).ruling (.start r files)))),
        a⟩ := by
  obtain ⟨a, hextended⟩ := d.extended_eq_applied annot file owner r files hkind hoffers
  -- From here on it does not matter what the catalog is.
  generalize Catalog.listed (.start r files) ⟨file, owner, none⟩ annot = c at hextended ⊢
  -- Splicing goes by numbers and redirecting by places; in every member they come to the same.
  have hmembers : d.members.map (·.spliced (newCallee?
        ((d.callSites file owner).map (c.ruling (.start r files)))))
      = d.members.map fun m =>
          m.redirected (c.calleeFor? (.start r files) ⟨file, owner, some m⟩) .inside :=
    List.map_congr_left fun m hm =>
      m.spliced_eq_redirected (by simp [Place.IsOwn]) (agrees_member c _ hd hm)
  refine ⟨a, ?_⟩
  rw [hextended]
  simp only [applied, redirected, Option.elim_some, hmembers]

/-- **What an annotation does to a type.** On a class or an enum the calls of which are numbered
apart, an annotation that offers something is carried out: its first occurrence disappears, and in
every member the calls in slots are redirected to the first offer that fits. What fits is found in
the members as they were before. -/
theorem extended_redirects (d : TypeDecl) (annot : Annot) (file : Nat) (owner : TypeHash)
    (r : Registry) (files : List SourceFile) (hkind : d.kind.isInterfaceLike = false)
    (hannot : annot ∈ d.modifiers.annots) (hd : d.callIds.Nodup)
    (hoffers : (Catalog.listed (.start r files) ⟨file, owner, none⟩ annot).offers ≠ []) :
    ∃ before after tally a, d.modifiers.annots = before ++ annot :: after ∧ annot ∉ before ∧
      d.extended annot file owner (.start r files) =
        ⟨d.redirected (before ++ after) fun m =>
            (Catalog.listed (.start r files) ⟨file, owner, none⟩ annot).calleeFor? (.start r files)
              ⟨file, owner, some m⟩,
          .carriedOut tally, a⟩ := by
  obtain ⟨before, after, hbefore, hannots, herase⟩ := List.exists_erase_eq hannot
  obtain ⟨a, hextended⟩ := d.extended_eq_redirected annot file owner r files hkind hd hoffers
  rw [herase] at hextended
  exact ⟨before, after, _, a, hannots, hbefore, hextended⟩

/-- The calls of the members of `Sample.withMember` are redirected. -/
theorem extended_redirects_sample :
    ∃ before after tally a, Sample.withMember.modifiers.annots = before ++ Sample.annot :: after ∧
      Sample.annot ∉ before ∧
      Sample.withMember.extended Sample.annot 0 Sample.owner Sample.start =
        ⟨Sample.withMember.redirected (before ++ after) fun m =>
            (Catalog.listed Sample.start ⟨0, Sample.owner, none⟩ Sample.annot).calleeFor?
              Sample.start ⟨0, Sample.owner, some m⟩,
          .carriedOut tally, a⟩ :=
  Sample.withMember.extended_redirects Sample.annot 0 Sample.owner Sample.registry
    [Sample.file Sample.withMember] rfl (List.mem_singleton_self _) (by decide +kernel)
    (by decide +kernel)

end TypeDecl

end JavaGraft

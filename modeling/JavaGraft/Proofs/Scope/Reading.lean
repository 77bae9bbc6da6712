import JavaGraft.Proofs.Symbol.Supertypes
import JavaGraft.Scope.Context

/-!
# What the meaning of a type depends on

What a type means at a place is found by asking the registry there for types, by name, by identity
and by package, and for member types. Of the types that are found only the *outline* matters, which
is what is known of them once they are declared: not their members and supertypes. Supertypes
matter to member types alone.

So two registries that know types of the same outlines (`JavaGraft.Registry.Alike`) give a type the
same meaning, provided that they find the same member types under the names in it
(`JavaGraft.Context.base_congr`).
-/

namespace JavaGraft

/-! ### Outlines of types -/

/-- A type symbol without its modifiers, supertypes and members. -/
def TypeSymbol.outline (t : TypeSymbol) : TypeSymbol :=
  { t with flags := .none, superclass := none, interfaces := [], members := [] }

/-- **Registries that know types of the same outlines**, under the same names and identities. -/
structure Registry.Alike (r r' : Registry) : Prop where
  count : r.count = r'.count
  find? : ∀ n, (r.find? n).map TypeSymbol.outline = (r'.find? n).map TypeSymbol.outline
  get? : ∀ h, (r.get? h).map TypeSymbol.outline = (r'.get? h).map TypeSymbol.outline

namespace Registry

section Outline

variable {α : Type} {o o' : Option TypeSymbol}
  (h : o.map TypeSymbol.outline = o'.map TypeSymbol.outline)
include h

/-- What is read off an outline alone is the same for two symbols of one outline. -/
theorem map_of_outline (g : TypeSymbol → α) (hg : ∀ t, g t.outline = g t) : o.map g = o'.map g := by
  have hmap := congrArg (Option.map g) h
  rw [Option.map_map, Option.map_map, show g ∘ TypeSymbol.outline = g from funext hg] at hmap
  exact hmap

theorem bind_of_outline (g : TypeSymbol → Option α) (hg : ∀ t, g t.outline = g t) :
    o.bind g = o'.bind g := by
  have hbind := congrArg (Option.bind · g) h
  simp only [Option.bind_map, show g ∘ TypeSymbol.outline = g from funext hg] at hbind
  exact hbind

theorem any_of_outline (g : TypeSymbol → Bool) (hg : ∀ t, g t.outline = g t) :
    o.any g = o'.any g := by
  have hany := congrArg (Option.any g) h
  simp only [Option.any_map, show (fun t => g (TypeSymbol.outline t)) = g from funext hg] at hany
  exact hany

theorem elim_of_outline (z : α) (g : TypeSymbol → α) (hg : ∀ t, g t.outline = g t) :
    o.elim z g = o'.elim z g := by
  have hmap := map_of_outline h g hg
  cases o <;> cases o' <;> simp_all

end Outline

section Alike

variable {r r' : Registry} (h : Alike r r')
include h

/-- Registries that answer alike have the same types in a package. -/
theorem Alike.inPackage? (package simple : String) :
    (r.inPackage? package simple).map TypeSymbol.outline
      = (r'.inPackage? package simple).map TypeSymbol.outline := by
  have hfilter := congrArg (Option.filter fun t => t.outer.isNone) (h.find? ⟨package, simple⟩)
  rw [Option.filter_map, Option.filter_map] at hfilter
  exact hfilter

end Alike

/-- Registries are alike if their types, changed in a way that keeps outlines, are the same. -/
theorem alike_of_mapped {r r' : Registry} {f : TypeSymbol → TypeSymbol}
    (hf : ∀ t, (f t).outline = t.outline) (h : r.mapped f = r'.mapped f) : Alike r r' := by
  have hname : ∀ t, (f t).name = t.name := by
    intro t
    have h := congrArg TypeSymbol.name (hf t)
    exact h
  have hhash : ∀ t, (f t).hash = t.hash := by
    intro t
    have h := congrArg TypeSymbol.hash (hf t)
    exact h
  have houtline : ∀ o : Option TypeSymbol, (o.map f).map TypeSymbol.outline
      = o.map TypeSymbol.outline := by
    intro o
    rw [Option.map_map]
    exact congrArg (Option.map · o) (funext hf)
  refine ⟨?_, fun n => ?_, fun x => ?_⟩
  · have hlength := congrArg Registry.count h
    simpa [count, mapped] using hlength
  · rw [← houtline, ← find?_mapped r hname, h, find?_mapped r' hname, houtline]
  · rw [← houtline, ← get?_mapped r hhash, h, get?_mapped r' hhash, houtline]

end Registry

/-! ### Types around a place -/

namespace Context

/-- The same place in another registry. -/
def against (c : Context) (r : Registry) : Context := { c with registry := r }

section Alike

variable {r r' : Registry} (h : r.Alike r') (c : Context)
include h

theorem outwards_congr (n : Nat) (seen : List TypeHash) (o : Option TypeHash) :
    outwards r n seen o = outwards r' n seen o := by
  induction n generalizing seen o with
  | zero => rfl
  | succ n ih =>
    cases o with
    | none => rfl
    | some x =>
      have houter := Registry.bind_of_outline (h.get? x) TypeSymbol.outer fun _ => rfl
      rw [outwards, outwards, houter, ih]

theorem enclosing_congr : (c.against r).enclosing = (c.against r').enclosing := by
  rw [enclosing, enclosing]
  exact h.count ▸ outwards_congr h _ _ _

theorem isTypeVar_congr (name : String) :
    (c.against r).isTypeVar name = (c.against r').isTypeVar name := by
  rw [isTypeVar, isTypeVar, enclosing_congr h]
  refine congrArg (_ || ·) (congrArg (List.any _) (funext fun x => ?_))
  exact congrArg (List.contains · name)
    (Registry.elim_of_outline (h.get? x) [] TypeSymbol.typeParams fun _ => rfl)

theorem fileType?_congr (name : String) :
    (c.against r).fileType? name = (c.against r').fileType? name := by
  have hfind : ∀ n, (r.find? n).map TypeSymbol.hash = (r'.find? n).map TypeSymbol.hash :=
    fun n => Registry.map_of_outline (h.find? n) TypeSymbol.hash fun _ => rfl
  have hpackage : ∀ p n, (r.inPackage? p n).map TypeSymbol.hash
      = (r'.inPackage? p n).map TypeSymbol.hash :=
    fun p n => Registry.map_of_outline (h.inPackage? p n) TypeSymbol.hash fun _ => rfl
  rw [fileType?, fileType?]
  simp only [against]
  cases c.file.import? name with
  | some imported => exact hfind imported
  | none =>
    -- Not imported by name: the package, the names on demand and the implicit package in turn.
    have hdemand : (fun above => (r.find? ⟨above, name⟩).map TypeSymbol.hash)
        = fun above => (r'.find? ⟨above, name⟩).map TypeSymbol.hash := funext fun _ => hfind _
    simp only [Option.orElse_eq_orElse, Option.orElse_eq_or, Option.map_or, List.map_findSome?,
      hpackage, Function.comp_def, hdemand]

end Alike

/-! ### Member types -/

/-- Whether two registries find the same member types under some names. -/
def SameMembers (c : Context) (r r' : Registry) (names : List String) : Prop :=
  ∀ n ∈ names, ∀ owner, (c.against r).memberType? owner n = (c.against r').memberType? owner n

section SameMembers

variable {r r' : Registry} (h : r.Alike r') (c : Context)

include h in
/-- The same supertypes have the same member types. -/
theorem sameMembers_of_supertypes
    (hsup : ∀ x, (r.supertypes x).map TypeSymbol.name = (r'.supertypes x).map TypeSymbol.name)
    (names : List String) : c.SameMembers r r' names := by
  intro n _ owner
  -- A member type is looked up by the names of the supertypes, and these are the same.
  have hwalk := congrArg
    (List.findSome? fun t => (r.find? (QualifiedName.member t n)).map TypeSymbol.hash) (hsup owner)
  rw [List.findSome?_map, List.findSome?_map] at hwalk
  rw [memberType?, memberType?, List.map_findSome?, List.map_findSome?]
  refine hwalk.trans (congrArg (List.findSome? · (r'.supertypes owner)) (funext fun t => ?_))
  exact Registry.map_of_outline (h.find? _) TypeSymbol.hash fun _ => rfl

variable {c}

theorem memberPath?_congr {path : List String} (hm : c.SameMembers r r' path) (owner : TypeHash) :
    (c.against r).memberPath? owner path = (c.against r').memberPath? owner path := by
  induction path generalizing owner with
  | nil => rfl
  | cons n ns ih =>
    have hn := hm n List.mem_cons_self owner
    have hns : c.SameMembers r r' ns := fun m hmem => hm m (List.mem_cons_of_mem _ hmem)
    rw [memberPath?, memberPath?, List.foldlM_cons, List.foldlM_cons, hn]
    exact congrArg (Option.bind _) (funext fun x => ih hns x)

include h

theorem enclosingType?_congr {name : String} (hm : c.SameMembers r r' [name]) :
    (c.against r).enclosingType? name = (c.against r').enclosingType? name := by
  rw [enclosingType?, enclosingType?, enclosing_congr h]
  refine congrArg (List.findSome? · _) (funext fun x => ?_)
  have hname : (r.get? x).any (·.name.simple == name) = (r'.get? x).any (·.name.simple == name) :=
    Registry.any_of_outline (h.get? x) _ fun _ => rfl
  rw [hm name List.mem_cons_self x]
  change (if (r.get? x).any (·.name.simple == name) = true then some x else _) = _
  rw [hname]
  rfl

theorem simpleType?_congr {name : String} (hm : c.SameMembers r r' [name]) :
    (c.against r).simpleType? name = (c.against r').simpleType? name := by
  rw [simpleType?, simpleType?, isTypeVar_congr h, enclosingType?_congr h hm, fileType?_congr h]

theorem packageType?_congr {segments : List String} (hm : c.SameMembers r r' segments) (k : Nat) :
    (c.against r).packageType? segments k = (c.against r').packageType? segments k := by
  rw [packageType?, packageType?]
  cases hdrop : segments.drop k with
  | nil => rfl
  | cons simple path =>
    have hpath : c.SameMembers r r' path := fun n hn =>
      hm n (List.mem_of_mem_drop (hdrop ▸ List.mem_cons_of_mem _ hn))
    simp only [memberPath?_congr hpath]
    exact Registry.bind_of_outline (h.inPackage? _ _) _ fun _ => rfl

/-- A name means the same in both. -/
theorem namedType?_congr {names : List String} (hm : c.SameMembers r r' names) :
    (c.against r).namedType? names = (c.against r').namedType? names := by
  cases names with
  | nil => rfl
  | cons first rest =>
    have hfirst : c.SameMembers r r' [first] := fun n hn =>
      hm n (List.mem_singleton.mp hn ▸ List.mem_cons_self)
    have hrest : c.SameMembers r r' rest := fun n hn => hm n (List.mem_cons_of_mem _ hn)
    rw [namedType?, namedType?, simpleType?_congr h hfirst]
    simp only [memberPath?_congr hrest, packageType?_congr h hm]

end SameMembers

end Context

/-! ### Types -/

/-- The names that a type is written with, type arguments apart. -/
def TypeExpr.names (t : TypeExpr) : List String :=
  match t.base with
  | .named path => path.names
  | .primitive _ | .inferred => []

namespace Context

section SameMembers

variable {r r' : Registry} (h : r.Alike r') {c : Context} {t : TypeExpr}
  (hm : c.SameMembers r r' t.names)
include h hm

/-- **A type means the same** in registries that know types of the same outlines, if they find the
same member types under the names in it. -/
theorem base_congr : (c.against r).base t = (c.against r').base t := by
  rw [TypeExpr.names] at hm
  rw [base, base]
  cases hbase : t.base with
  | primitive p => rfl
  | named path =>
    rw [hbase] at hm
    simp only [namedType?_congr h hm]
  | inferred => rfl

theorem typeOrObject_congr : (c.against r).typeOrObject t = (c.against r').typeOrObject t := by
  rw [typeOrObject, typeOrObject, type, type, base_congr h hm]

theorem complaint_congr : (c.against r).complaint t = (c.against r').complaint t := by
  rw [complaint, complaint, base_congr h hm]

end SameMembers

end Context

end JavaGraft

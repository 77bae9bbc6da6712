import JavaGraft.Proofs.Registration.Nesting
import JavaGraft.Proofs.Symbol.Reachability
import JavaGraft.Scope.Context

/-!
# Full names

The full name of a type, its package and then the simple names of the types around it and its own,
means that type everywhere, as long as its first segment means nothing by itself and the type is in
a package (`JavaGraft.Context.namedType?_segments`).

A dotted name is cut into a package and a path in every way, the longest package first. With a
package that is too long, what follows it would be the name of a member type, and a member type is
in no package; no other type has the same name (`JavaGraft.Registry.Placed.inPackage?_member`). At
the right place the first segment is the outermost type, and from there each step finds the member
that is declared before any that is inherited, since a type comes first among its own supertypes
(`JavaGraft.Context.memberType?_declared`).
-/

namespace JavaGraft

namespace Registry

namespace Placed

variable {r : Registry} {package path around : List String} {t u : TypeSymbol} {s : String}

/-- The types around a type stand in the same package. -/
theorem exists_around (h : r.Placed package path t) {rest : List String} (hne : around ≠ [])
    (hpath : path = around ++ rest) : ∃ u, r.Placed package around u := by
  induction h generalizing rest with
  | @top t s ht houter hname hpackage hs =>
    obtain ⟨x, xs, rfl⟩ := List.exists_cons_of_ne_nil hne
    obtain ⟨rfl, hnil⟩ := List.cons_eq_cons.mp hpath
    obtain ⟨rfl, rfl⟩ := List.append_eq_nil_iff.mp hnil.symm
    exact ⟨t, .top ht houter hname hpackage hs⟩
  | @member p t path s hp ht houter hname hs ih =>
    obtain rfl | ⟨before, last, rfl⟩ := List.eq_nil_or_concat' rest
    · rw [List.append_nil] at hpath
      exact ⟨t, hpath ▸ .member hp ht houter hname hs⟩
    · rw [← List.append_assoc] at hpath
      exact ih (List.append_inj' hpath rfl).1

/-- A type at the top of a package is inside of no other. -/
theorem outer_eq_none (h : r.Placed package [s] t) : t.outer = none := by
  generalize hpath : [s] = path at h
  cases h with
  | top _ houter => exact houter
  | member hp =>
    exact absurd (List.append_inj' (show [] ++ [s] = _ ++ [_] from hpath) rfl).1.symm
      hp.path_ne_nil

/-- A type further down is inside of another. -/
theorem outer_isSome (h : r.Placed package (around ++ [s]) t) (hne : around ≠ []) :
    t.outer.isSome := by
  generalize hpath : around ++ [s] = path at h
  cases h with
  | @top t s' =>
    exact absurd (List.append_inj' (show around ++ [s] = [] ++ [s'] from hpath) rfl).1 hne
  | member _ _ houter => rw [houter]; rfl

/-- A type inside of another continues its name. -/
theorem name_eq_member {p : TypeSymbol} (h : r.Placed package (around ++ [s]) t)
    (hp : r.Placed package around p) : t.name = p.name.member s := by
  rw [h.name_eq, QualifiedName.member, hp.text]

section Orderly

variable (hr : r.Orderly)
include hr

/-- A type is found by its name. -/
theorem find?_name (h : r.Placed package path t) : r.find? t.name = some t :=
  find?_of_mem hr.names h.mem rfl

/-- There is one type at a place. -/
theorem unique (ht : r.Placed package path t) (hu : r.Placed package path u) : t = u := by
  obtain hnil | ⟨around, s, rfl⟩ := List.eq_nil_or_concat' path
  · exact absurd hnil ht.path_ne_nil
  have hname : t.name = u.name := by rw [ht.name_eq, hu.name_eq]
  have hfind := ht.find?_name hr
  rw [hname, hu.find?_name hr] at hfind
  exact (Option.some_inj.mp hfind).symm

/-- The type at the top of a package is found there. -/
theorem inPackage?_top (h : r.Placed package [s] t) :
    r.inPackage? (joinDots package) s = some t := by
  have hname := (show r.Placed package ([] ++ [s]) t from h).name_eq
  rw [List.append_nil] at hname
  rw [inPackage?, ← hname, h.find?_name hr, Option.filter_some, h.outer_eq_none]
  rfl

/-- **A member type is in no package**, and so is no other type of that name. -/
theorem inPackage?_member (h : r.Placed package (around ++ [s]) t) (hne : around ≠ []) :
    r.inPackage? (joinDots (package ++ around)) s = none := by
  rw [inPackage?, ← h.name_eq, h.find?_name hr, Option.filter_some,
    Option.isNone_eq_false_iff.mpr (h.outer_isSome hne)]
  rfl

end Orderly

end Placed

end Registry

/-! ### From a package to a type -/

namespace Context

open Registry

variable {c : Context} {package around path : List String} {p t : TypeSymbol} {s : String}
  (hr : c.registry.Orderly) (hdistinct : c.registry.Distinct)
include hr

section Distinct

include hdistinct

/-- **A declared member type comes before inherited ones.** -/
theorem memberType?_declared (hp : c.registry.Placed package around p)
    (ht : c.registry.Placed package (around ++ [s]) t) : c.memberType? p.hash s = some t.hash := by
  have hget : c.registry.get? p.hash = some p := find?_of_mem hdistinct hp.mem rfl
  obtain ⟨others, hothers⟩ := List.head?_eq_some_iff.mp (head?_supertypes hget)
  have hfind : c.registry.find? (p.name.member s) = some t := by
    rw [← ht.name_eq_member hp]
    exact ht.find?_name hr
  rw [memberType?, hothers, List.findSome?_cons, hfind]
  rfl

/-- A path through declared member types leads to the type at its end. -/
theorem memberPath?_declared (hp : c.registry.Placed package around p)
    (ht : c.registry.Placed package (around ++ path) t) :
    c.memberPath? p.hash path = some t.hash := by
  induction path generalizing around p with
  | nil =>
    rw [List.append_nil] at ht
    rw [hp.unique hr ht]
    rfl
  | cons s path ih =>
    have hpath : around ++ s :: path = around ++ [s] ++ path := by simp
    obtain ⟨u, hu⟩ := ht.exists_around (by simp) hpath
    rw [memberPath?, List.foldlM_cons, memberType?_declared hr hdistinct hp hu]
    exact ih hu (hpath ▸ ht)

/-- **Cut behind its package**, the name of a type means the type. -/
theorem packageType?_right (ht : c.registry.Placed package path t) :
    c.packageType? (package ++ path) package.length = some t.hash := by
  obtain ⟨s, rest, rfl⟩ := List.exists_cons_of_ne_nil ht.path_ne_nil
  obtain ⟨u, hu⟩ : ∃ u, c.registry.Placed package [s] u :=
    ht.exists_around (List.cons_ne_nil _ _) rfl
  rw [packageType?, List.drop_left, List.take_left]
  simp only [hu.inPackage?_top hr, Option.bind_some]
  exact memberPath?_declared hr hdistinct hu ht

end Distinct

/-- **Cut further behind**, it means nothing. -/
theorem packageType?_long (ht : c.registry.Placed package path t) {k : Nat}
    (hlong : package.length < k) (hshort : k < (package ++ path).length) :
    c.packageType? (package ++ path) k = none := by
  obtain ⟨j, rfl⟩ := Nat.exists_eq_add_of_lt hlong
  rw [List.length_append] at hshort
  obtain ⟨s, rest, hrest⟩ := List.exists_cons_of_ne_nil
    (List.ne_nil_of_length_pos (l := path.drop (j + 1)) (by rw [List.length_drop]; omega))
  have hpath : path = path.take (j + 1) ++ [s] ++ rest := by
    rw [List.append_assoc, List.singleton_append, ← hrest, List.take_append_drop]
  have hne : path.take (j + 1) ≠ [] :=
    List.ne_nil_of_length_pos (by rw [List.length_take]; omega)
  obtain ⟨u, hu⟩ := ht.exists_around (by simp) hpath
  rw [packageType?, Nat.add_assoc, List.drop_length_add_append, List.take_length_add_append,
    hrest]
  simp only [hu.inPackage?_member hr hne, Option.bind_none]

end Context

/-- The last number for which something is found. -/
theorem findSome?_reverse_range {α : Type} {f : Nat → Option α} {n i : Nat} {a : α} (hi : i < n)
    (hfound : f i = some a) (hlater : ∀ j, i < j → j < n → f j = none) :
    (List.range n).reverse.findSome? f = some a := by
  induction n with
  | zero => omega
  | succ n ih =>
    rw [List.range_succ, List.reverse_append, List.reverse_singleton, List.singleton_append,
      List.findSome?_cons]
    by_cases hn : i = n
    · rw [← hn, hfound]
    · rw [hlater n (by omega) (by omega)]
      exact ih (by omega) fun j hj hjn => hlater j hj (by omega)

namespace Context

open Registry

/-- **Full names mean what they name.** In a registry that has grown by registering files with
success, every type stands in a package. If that is not the package without a name, the segments of
the type's name mean the type at every place, unless the first of them means something there by
itself. -/
theorem namedType?_segments {r : Registry} (hbuilt : r.Built) (hdistinct : r.Distinct)
    {t : TypeSymbol} (ht : t ∈ r.latestFirst) :
    (∃ package path, r.Placed package path t) ∧
      ∀ package path, r.Placed package path t → package ≠ [] →
        ∀ c : Context, c.registry = r →
          (∀ first ∈ t.name.segments.head?, c.simpleType? first = none) →
          c.namedType? t.name.segments = some t.hash := by
  have hr := hbuilt.orderly hdistinct
  refine ⟨hr.placed t ht, ?_⟩
  rintro package path hplaced hne c rfl hfirst
  obtain ⟨first, others, rfl⟩ := List.exists_cons_of_ne_nil hne
  rw [hplaced.segments] at hfirst ⊢
  have hpos := List.length_pos_iff.mpr hplaced.path_ne_nil
  have hlength : (others ++ path).length = others.length + path.length := List.length_append
  rw [List.cons_append, namedType?, hfirst first rfl, Option.bind_none]
  -- Longer packages are tried before the right one, shorter ones after it.
  refine findSome?_reverse_range (i := others.length) (by omega) ?_ fun j hj hjn => ?_
  · exact packageType?_right hr hdistinct hplaced
  · refine packageType?_long hr hplaced ?_ ?_
    · rw [List.length_cons]
      omega
    · rw [List.cons_append, List.length_cons]
      omega

namespace Sample

/-- A class in a package, with a class in it. -/
def nestedFile : SourceFile :=
  ⟨"A.java", (parseUnit "package p.q; class A \x7b class B \x7b\x7d \x7d".toList 0).unit⟩

/-- The outer class. -/
def outerType : TypeSymbol :=
  { TypeSymbol.declared ⟨"p.q", "A"⟩ .classType .none [] none with superclass := some .object }

/-- The inner class. -/
def innerType : TypeSymbol :=
  { TypeSymbol.declared ⟨"p.q.A", "B"⟩ .classType .none [] (some outerType.hash) with
    superclass := some .object }

theorem registry_nested :
    (Registration.run .empty [nestedFile]).registry = ⟨[innerType, outerType]⟩ := by
  decide +kernel

theorem built_nested : Built ⟨[innerType, outerType]⟩ := by
  rw [← registry_nested]
  refine .run .empty (List.forall_mem_singleton.mpr ⟨_, _, rfl⟩) ?_
  decide +kernel

theorem distinct_nested : Distinct ⟨[innerType, outerType]⟩ := by
  unfold Distinct
  decide +kernel

theorem placed_inner : Placed ⟨[innerType, outerType]⟩ ["p", "q"] ["A", "B"] innerType :=
  have houter : Placed ⟨[innerType, outerType]⟩ ["p", "q"] ["A"] outerType :=
    .top (by decide +kernel) rfl (by decide +kernel) (by decide +kernel) (by decide +kernel)
  .member houter List.mem_cons_self rfl (by decide +kernel) (by decide +kernel)

end Sample

theorem namedType?_segments_inner :
    Sample.innerType.name.segments = ["p", "q", "A", "B"] ∧
      (inType ⟨[Sample.innerType, Sample.outerType]⟩ ⟨"", [], []⟩ Sample.outerType.hash).namedType?
        Sample.innerType.name.segments = some Sample.innerType.hash := by
  obtain ⟨-, hnamed⟩ := namedType?_segments Sample.built_nested Sample.distinct_nested
    (t := Sample.innerType) List.mem_cons_self
  have hsegments : Sample.innerType.name.segments = ["p", "q", "A", "B"] := by decide +kernel
  refine ⟨hsegments, hnamed _ _ Sample.placed_inner (List.cons_ne_nil _ _) _ rfl ?_⟩
  rw [hsegments]
  rintro _ ⟨⟩
  decide +kernel

end Context

end JavaGraft

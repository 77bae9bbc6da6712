import JavaGraft.Proofs.Course.Names
import JavaGraft.Proofs.Registration.Phases
import JavaGraft.Proofs.Symbol.Packages
import Mathlib.Logic.Relation

/-!
# Where the types of a registry stand

A registry that has grown by registering files with success has every type in its place: at the top
of a package, or inside of another type of the registry whose name it continues
(`JavaGraft.Registry.Placed`). So the segments of its name are those of the package and then the
simple names of the types around it and its own (`JavaGraft.Registry.Placed.segments`), and no two
types have the same name (`JavaGraft.Registry.Built.orderly`).

That the segments can be told apart again rests on the names being identifiers, which have no dots
in them. Since a type has a longer path than the types around it, none is inside of itself
(`JavaGraft.Registry.Inside.hash_ne`).
-/

namespace JavaGraft

/-- **The file has been read from a source**, with or without errors in it. -/
def SourceFile.IsRead (f : SourceFile) : Prop := ∃ source n, f.unit = (parseUnit source n).unit

namespace Registry

/-- **Registries that grow by registering files with success.** -/
inductive Built : Registry → Prop
  | empty : Built .empty
  | run {r : Registry} {files : List SourceFile} (hr : Built r) (hfiles : ∀ f ∈ files, f.IsRead)
      (hsuccess : (Registration.run r files).isSuccess) : Built (Registration.run r files).registry

/-! ### Places -/

/-- **A type stands in a package** under the simple names of the types around it and its own. -/
inductive Placed (r : Registry) (package : List String) : List String → TypeSymbol → Prop
  | top {t : TypeSymbol} {s : String} (ht : t ∈ r.latestFirst) (houter : t.outer = none)
      (hname : t.name = ⟨joinDots package, s⟩) (hpackage : ∀ x ∈ package, isIdentifier x)
      (hs : isIdentifier s) : Placed r package [s] t
  | member {p t : TypeSymbol} {path : List String} {s : String} (hp : Placed r package path p)
      (ht : t ∈ r.latestFirst) (houter : t.outer = some p.hash) (hname : t.name = p.name.member s)
      (hs : isIdentifier s) : Placed r package (path ++ [s]) t

namespace Placed

variable {r r' : Registry} {package path : List String} {t : TypeSymbol}

theorem mem (h : r.Placed package path t) : t ∈ r.latestFirst := by
  cases h <;> assumption

theorem path_ne_nil (h : r.Placed package path t) : path ≠ [] := by
  cases h <;> simp

theorem identifiers (h : r.Placed package path t) : ∀ x ∈ package ++ path, isIdentifier x := by
  induction h with
  | top _ _ _ hpackage hs =>
    intro x hx
    rcases List.mem_append.mp hx with hx | hx
    · exact hpackage x hx
    · exact List.mem_singleton.mp hx ▸ hs
  | member _ _ _ _ hs ih =>
    intro x hx
    rw [← List.append_assoc] at hx
    rcases List.mem_append.mp hx with hx | hx
    · exact ih x hx
    · exact List.mem_singleton.mp hx ▸ hs

/-- With more types around, a type stands where it did. -/
theorem mono (h : r.Placed package path t) (hsub : r.latestFirst ⊆ r'.latestFirst) :
    r'.Placed package path t := by
  induction h with
  | top ht houter hname hpackage hs => exact .top (hsub ht) houter hname hpackage hs
  | member _ ht houter hname hs ih => exact .member ih (hsub ht) houter hname hs

/-- Changes that keep names, identities and nesting keep the places. -/
theorem mapped {f : TypeSymbol → TypeSymbol} (hname : ∀ t, (f t).name = t.name)
    (hhash : ∀ t, (f t).hash = t.hash) (houter : ∀ t, (f t).outer = t.outer)
    (h : r.Placed package path t) : (r.mapped f).Placed package path (f t) := by
  induction h with
  | @top t s ht ho hn hpackage hs =>
    exact .top (List.mem_map_of_mem ht) ((houter t).trans ho) ((hname t).trans hn) hpackage hs
  | @member p t path s _ ht ho hn hs ih =>
    have hmember : (f t).name = (f p).name.member s := by rw [hname, hn, hname]
    exact .member ih (List.mem_map_of_mem ht) (by rw [houter, ho, hhash]) hmember hs

end Placed

/-! ### Names -/

section Identifiers

variable {names : List String} (h : ∀ x ∈ names, isIdentifier x)
include h

theorem empty_not_mem : "" ∉ names := fun hmem => (isIdentifier_spec (h _ hmem)).1 rfl

/-- Identifiers put together with dots can be told apart again. -/
theorem packageNames_joinDots : packageNames (joinDots names) = names := by
  by_cases hnil : names = []
  · rw [hnil]
    decide +kernel
  have hsplit : splitDots (joinDots names) = names := by
    rw [splitDots, joinDots, String.toList_intercalate, show ".".toList = ['.'] from rfl,
      List.splitOn_intercalate '.' ?_ (by simpa using hnil), List.map_map]
    · refine (List.map_congr_left fun x _ => ?_).trans (List.map_id names)
      exact String.ofList_toList
    · exact List.forall_mem_map.mpr fun x hx => (isIdentifier_spec (h x hx)).2
  rw [packageNames, hsplit]
  exact List.filter_eq_self.mpr fun x hx => decide_eq_true fun hx' => empty_not_mem h (hx' ▸ hx)

/-- The text of a name that is qualified with identifiers. -/
theorem text_joinDots (s : String) :
    (⟨joinDots names, s⟩ : QualifiedName).text = joinDots (names ++ [s]) := by
  rw [joinDots_concat (empty_not_mem h), QualifiedName.text]
  by_cases hempty : joinDots names = ""
  · rw [if_pos hempty, if_pos hempty, hempty, String.empty_append]
  · rw [if_neg hempty, if_neg hempty]

end Identifiers

namespace Placed

variable {r : Registry} {package path : List String} {t : TypeSymbol}

/-- **A type is called by its package and its path.** -/
theorem text (h : r.Placed package path t) : t.name.text = joinDots (package ++ path) := by
  induction h with
  | top _ _ hname hpackage _ => rw [hname, text_joinDots hpackage]
  | member hp _ _ hname _ ih =>
    rw [hname, QualifiedName.member, ih, text_joinDots hp.identifiers, List.append_assoc]

theorem name_eq {around : List String} {s : String} (h : r.Placed package (around ++ [s]) t) :
    t.name = ⟨joinDots (package ++ around), s⟩ := by
  generalize hpath : around ++ [s] = path at h
  cases h with
  | @top t s' _ _ hname =>
    obtain ⟨rfl, hs⟩ := List.append_inj' (show around ++ [s] = [] ++ [s'] from hpath) rfl
    obtain rfl := List.singleton_inj.mp hs
    rw [hname, List.append_nil]
  | member hp _ _ hname =>
    obtain ⟨rfl, hs⟩ := List.append_inj' hpath rfl
    obtain rfl := List.singleton_inj.mp hs
    rw [hname, QualifiedName.member, hp.text]

/-- **The segments of its name** are those of its package and its path. -/
theorem segments (h : r.Placed package path t) : t.name.segments = package ++ path := by
  obtain hnil | ⟨around, s, rfl⟩ := List.eq_nil_or_concat' path
  · exact absurd hnil h.path_ne_nil
  have haround : ∀ x ∈ package ++ around, isIdentifier x := fun x hx =>
    h.identifiers x (by rw [← List.append_assoc]; exact List.mem_append_left _ hx)
  rw [QualifiedName.segments, h.name_eq, ← packageNames, packageNames_joinDots haround,
    List.append_assoc]

/-- A type whose parent is another type stands right below it. -/
theorem exists_parent {p : TypeSymbol} (hdistinct : r.Distinct) (h : r.Placed package path t)
    (hp : p ∈ r.latestFirst) (houter : t.outer = some p.hash) :
    ∃ around s, path = around ++ [s] ∧ r.Placed package around p := by
  cases h with
  | top _ hnone => cases hnone.symm.trans houter
  | @member p' _ around s hp' _ houter' =>
    have hhash : p'.hash = p.hash := Option.some_inj.mp (houter'.symm.trans houter)
    rw [← List.inj_on_of_nodup_map hdistinct hp'.mem hp hhash]
    exact ⟨around, s, rfl, hp'⟩

end Placed

/-! ### Inside of a type -/

/-- **One type is inside of another**: it is a member type of it, or of a type that is inside. -/
def Inside (r : Registry) : TypeSymbol → TypeSymbol → Prop :=
  Relation.TransGen fun t p => t ∈ r.latestFirst ∧ p ∈ r.latestFirst ∧ t.outer = some p.hash

namespace Inside

variable {r : Registry} {package path : List String} {t u : TypeSymbol}

/-- What is around a type stands in the same package, on the way to it. -/
theorem placed (hdistinct : r.Distinct) (h : r.Inside t u) (ht : r.Placed package path t) :
    ∃ around inner, inner ≠ [] ∧ path = around ++ inner ∧ r.Placed package around u := by
  induction h with
  | single h =>
    obtain ⟨around, s, hpath, hu⟩ := ht.exists_parent hdistinct h.2.1 h.2.2
    exact ⟨around, [s], List.cons_ne_nil _ _, hpath, hu⟩
  | tail _ h ih =>
    obtain ⟨_, inner, _, rfl, hb⟩ := ih
    obtain ⟨around, s, rfl, hu⟩ := hb.exists_parent hdistinct h.2.1 h.2.2
    exact ⟨around, [s] ++ inner, by simp, List.append_assoc .., hu⟩

/-- **A type is none of those it is inside of.** -/
theorem hash_ne (hr : ∀ t ∈ r.latestFirst, ∃ package path, r.Placed package path t)
    (hdistinct : r.Distinct) (h : r.Inside t u) : t.hash ≠ u.hash := by
  intro hhash
  obtain ⟨_, ⟨htmem, -⟩, -⟩ := Relation.TransGen.head'_iff.mp h
  obtain ⟨package, path, ht⟩ := hr t htmem
  obtain ⟨around, inner, hne, rfl, hu⟩ := h.placed hdistinct ht
  obtain rfl := List.inj_on_of_nodup_map hdistinct ht.mem hu.mem hhash
  -- It would stand at two places, one below the other, but the segments of its name fix the place.
  have hpath := List.append_cancel_left (ht.segments.symm.trans hu.segments)
  exact hne (List.self_eq_append_right.mp hpath.symm)

end Inside

end Registry

/-! ### What files enter -/

section Entries

variable {r : Registry} {package : List String} {file : Nat} {scope : FileScope}

/-- Whatever is declared under a name and inside of a type is in its place. -/
def Registry.Places (r : Registry) (package : List String) (name : QualifiedName)
    (outer : Option TypeHash) : Prop :=
  ∀ t ∈ r.latestFirst, t.name = name → t.outer = outer → ∃ path, r.Placed package path t

mutual

/-- **What a type enters is in its place**, if the type itself is. -/
theorem TypeDecl.placed_entries {name : QualifiedName} {outer : Option (TypeHash × TypeKind)} :
    ∀ d : TypeDecl, (∀ x ∈ d.typeNames, isIdentifier x) →
      r.Places package name (outer.map Prod.fst) →
      (∀ e ∈ d.entries file scope name outer, e.1 ∈ r.latestFirst) →
      ∀ e ∈ d.entries file scope name outer, ∃ path, r.Placed package path e.1
  | ⟨mods, kind, ident, tps, sup, is, cs, members, span⟩ => by
    intro hnames hplaces hmem
    rw [TypeDecl.entries] at hmem ⊢
    obtain ⟨hself, hmembers⟩ := List.forall_mem_cons.mp hmem
    obtain ⟨path, hplaced⟩ := hplaces _ hself rfl rfl
    refine List.forall_mem_cons.mpr ⟨⟨path, hplaced⟩, ?_⟩
    exact Member.placed_entries members (List.forall_mem_cons.mp hnames).2 hplaced hmembers

/-- What the types among the members of a type enter is in its place. -/
theorem Member.placed_entries {p : TypeSymbol} {path : List String} {kind : TypeKind} :
    ∀ ms : List Member, (∀ x ∈ Member.allTypeNames ms, isIdentifier x) →
      r.Placed package path p →
      (∀ e ∈ Member.entries file scope p.name (p.hash, kind) ms, e.1 ∈ r.latestFirst) →
      ∀ e ∈ Member.entries file scope p.name (p.hash, kind) ms, ∃ path, r.Placed package path e.1
  | [] => fun _ _ _ _ he => absurd he List.not_mem_nil
  | .type d :: ms => by
    intro hnames hp hmem
    rw [Member.entries] at hmem ⊢
    rw [List.forall_mem_append] at hmem ⊢
    rw [Member.allTypeNames, List.forall_mem_append] at hnames
    have hd : isIdentifier d.name.name := by
      cases d
      exact hnames.1 _ List.mem_cons_self
    exact ⟨d.placed_entries hnames.1 (fun t ht hname houter => ⟨_, .member hp ht houter hname hd⟩)
      hmem.1, Member.placed_entries ms hnames.2 hp hmem.2⟩
  | .field .. :: ms | .method .. :: ms | .constructor .. :: ms | .initializer .. :: ms =>
    Member.placed_entries ms

end

/-- What a file enters that has been read is in its place. -/
theorem SourceFile.placed_entries {f : SourceFile} {index : Nat} (hf : f.IsRead)
    (hmem : ∀ e ∈ f.entries index, e.1 ∈ r.latestFirst) :
    ∀ e ∈ f.entries index, ∃ package path, r.Placed package path e.1 := by
  obtain ⟨source, n, hunit⟩ := hf
  obtain ⟨hpackage, htypes⟩ := parseUnit_named source n
  rw [← hunit] at hpackage htypes
  obtain ⟨package, hjoin, hpackage⟩ : ∃ package, f.scope.package = joinDots package ∧
      ∀ x ∈ package, isIdentifier x := by
    rw [SourceFile.scope, FileScope.ofUnit, SourceUnit.packageName]
    cases hp : f.unit.package with
    | none => exact ⟨[], rfl, List.forall_mem_nil _⟩
    | some p => exact ⟨p.names, rfl, hpackage p hp⟩
  intro e he
  rw [SourceFile.entries] at hmem he
  obtain ⟨d, hd, he⟩ := List.mem_flatMap.mp he
  refine ⟨package, d.placed_entries (htypes d hd) (fun t ht hname houter => ?_)
    (fun e he => hmem e (List.mem_flatMap.mpr ⟨d, hd, he⟩)) e he⟩
  have hname' : isIdentifier d.name.name := by
    have hnames := htypes d hd
    cases d
    exact hnames _ List.mem_cons_self
  exact ⟨_, .top ht houter (hname.trans (by rw [hjoin])) hpackage hname'⟩

end Entries

/-! ### What registration does -/

namespace Registry

/-- **Every type is in its place**, and no two have the same name. -/
structure Orderly (r : Registry) : Prop where
  names : (r.latestFirst.map TypeSymbol.name).Nodup
  placed : ∀ t ∈ r.latestFirst, ∃ package path, r.Placed package path t

variable {r : Registry} {files : List SourceFile}

theorem orderly_empty : Orderly .empty := ⟨List.nodup_nil, nofun⟩

/-- What is found in the first phase is in its place. -/
theorem Orderly.found (hr : r.Orderly) (hfiles : ∀ f ∈ files, f.IsRead)
    (hfresh : Declared.Fresh ⟨r, [], []⟩ (Registration.entries files.zipIdx)) :
    (Registration.found r files.zipIdx).Orderly where
  names := by
    rw [Registration.found, List.map_append, List.nodup_append, List.map_reverse, List.map_map]
    refine ⟨List.nodup_reverse.mpr hfresh.1, hr.names, fun x hx y hy hxy => ?_⟩
    obtain ⟨e, he, rfl⟩ := List.mem_map.mp (List.mem_reverse.mp hx)
    obtain ⟨t, ht, rfl⟩ := List.mem_map.mp hy
    exact hfresh.2 e he t ht hxy.symm
  placed t ht := by
    rcases List.mem_append.mp ht with ht | ht
    · obtain ⟨e, he, rfl⟩ := List.mem_map.mp (List.mem_reverse.mp ht)
      obtain ⟨⟨f, index⟩, hf, he⟩ := List.mem_flatMap.mp he
      refine SourceFile.placed_entries (hfiles f ?_) (fun e he => ?_) e he
      · exact (List.mem_zipIdx hf).2.2 ▸ List.getElem_mem _
      · refine List.mem_append_left _ (List.mem_reverse.mpr (List.mem_map_of_mem ?_))
        exact List.mem_flatMap.mpr ⟨(f, index), hf, he⟩
    · obtain ⟨package, path, hplaced⟩ := hr.placed t ht
      exact ⟨package, path, hplaced.mono (List.subset_append_right _ _)⟩

/-- Changes that keep names, identities and nesting keep everything in its place. -/
theorem Orderly.mapped (hr : r.Orderly) {f : TypeSymbol → TypeSymbol}
    (hname : ∀ t, (f t).name = t.name) (hhash : ∀ t, (f t).hash = t.hash)
    (houter : ∀ t, (f t).outer = t.outer) : (r.mapped f).Orderly where
  names := by
    rw [Registry.mapped, List.map_map]
    simpa only [Function.comp_def, hname] using hr.names
  placed t ht := by
    obtain ⟨u, hu, rfl⟩ := List.mem_map.mp ht
    obtain ⟨package, path, hplaced⟩ := hr.placed u hu
    exact ⟨package, path, hplaced.mapped hname hhash houter⟩

/-- **In a registry that has grown by registering files with success, every type is in its place**,
provided that no two types have the same identity. -/
theorem Built.orderly (h : r.Built) (hdistinct : r.Distinct) : r.Orderly := by
  induction h with
  | empty => exact orderly_empty
  | @run r files _ hfiles hsuccess ih =>
    have hfresh := Registration.fresh_of_isSuccess hsuccess
    have hfound := Registration.distinct_found hfresh hdistinct
    have hr : r.Distinct := by
      rw [Distinct, Registration.found, List.map_append] at hfound
      exact (List.nodup_append.mp hfound).2.1
    rw [Registration.run_registry hfresh hdistinct]
    have hkeeps (t : TypeSymbol) (done : List Completion) :
        (Completion.fill done t).name = t.name ∧ (Completion.fill done t).outer = t.outer := by
      rw [Completion.fill]
      cases done.find? (·.hash == t.hash) <;> exact ⟨rfl, rfl⟩
    exact ((ih hr).found hfiles hfresh).mapped (fun t => (hkeeps t _).1)
      (Completion.hash_fill _) fun t => (hkeeps t _).2

end Registry

end JavaGraft

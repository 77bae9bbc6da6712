import JavaGraft.Grammar.Knot
import JavaGraft.Proofs.Registration.Phases
import Mathlib.Data.List.Perm.Subperm
import Mathlib.Logic.Relation

/-!
# Cycles of superclasses

Registration fails if some type is above itself by its superclasses alone. It fails for no other
reason but a name that is taken (`JavaGraft.Registration.isSuccess_iff`).

The search follows the chain of superclasses from every type and counts the steps. It goes by
identities, and gives up after more steps than there are types, so that it says the same as a search
for a cycle (`JavaGraft.Registry.loops_iff`): a chain so long has met some type twice.

Interfaces are not followed, so two interfaces may extend each other
(`JavaGraft.Registration.isSuccess_of_interface_cycle`). The search for supertypes allows for that,
since it meets every type once.
-/

namespace JavaGraft

open Relation

namespace Registry

/-! ### Steps upwards -/

/-- The second type is the superclass of the first one. -/
def Extends (r : Registry) (t u : TypeSymbol) : Prop := t.superclass.bind r.get? = some u

/-- The second type is directly above the first one: it is its superclass or one of its
interfaces. -/
def Inherits (r : Registry) (t u : TypeSymbol) : Prop := ∃ h ∈ t.parents, r.get? h = some u

/-- The identity that comes after another in a chain of superclasses. -/
def Up (r : Registry) (h h' : TypeHash) : Prop := (r.get? h).bind TypeSymbol.superclass = some h'

variable {r : Registry}

/-- A superclass is found by its identity. -/
theorem Extends.get?_hash {t u : TypeSymbol} (h : r.Extends t u) : r.get? u.hash = some u := by
  obtain ⟨x, -, hu⟩ := Option.bind_eq_some_iff.mp h
  rwa [hash_of_get? hu]

theorem Extends.up {t u : TypeSymbol} (h : r.Extends t u) (ht : r.get? t.hash = some t) :
    r.Up t.hash u.hash := by
  obtain ⟨x, hx, hu⟩ := Option.bind_eq_some_iff.mp h
  rw [hash_of_get? hu]
  exact Option.bind_eq_some_iff.mpr ⟨t, ht, hx⟩

theorem Up.extends {h h' : TypeHash} {t u : TypeSymbol} (hup : r.Up h h')
    (ht : r.get? h = some t) (hu : r.get? h' = some u) : r.Extends t u := by
  obtain ⟨x, hx, hsuper⟩ := Option.bind_eq_some_iff.mp hup
  obtain rfl : t = x := Option.some_inj.mp (ht.symm.trans hx)
  exact Option.bind_eq_some_iff.mpr ⟨h', hsuper, hu⟩

/-- A chain of types is a chain of their identities. -/
theorem transGen_up {t u : TypeSymbol} (h : TransGen r.Extends t u)
    (ht : r.get? t.hash = some t) : TransGen r.Up t.hash u.hash := by
  induction h with
  | single h => exact .single (h.up ht)
  | tail hchain h ih =>
    obtain ⟨v, -, hv⟩ := TransGen.tail'_iff.mp hchain
    exact ih.tail (h.up hv.get?_hash)

/-- A chain of identities is a chain of the types that are found by them. -/
theorem transGen_extends {h h' : TypeHash} {t u : TypeSymbol} (hchain : TransGen r.Up h h')
    (ht : r.get? h = some t) (hu : r.get? h' = some u) : TransGen r.Extends t u := by
  induction hchain generalizing u with
  | single hup => exact .single (hup.extends ht hu)
  | tail _ hup ih =>
    obtain ⟨v, hv, -⟩ := Option.bind_eq_some_iff.mp hup
    exact (ih hv).tail (hup.extends hv hu)

/-! ### The search -/

/-- The chain of superclasses from an identity on runs into a cycle. -/
def Endless (r : Registry) (h : TypeHash) : Prop :=
  ∃ k, ReflTransGen r.Up h k ∧ TransGen r.Up k k

/-- A chain without an end goes on. -/
theorem Endless.exists_up {h : TypeHash} (hend : r.Endless h) : ∃ h', r.Up h h' ∧ r.Endless h' := by
  obtain ⟨k, hreach, hcycle⟩ := hend
  rcases hreach.cases_head with rfl | ⟨h', hup, hreach⟩
  · obtain ⟨h', hup, hback⟩ := TransGen.head'_iff.mp hcycle
    exact ⟨h', hup, h, hback, hcycle⟩
  · exact ⟨h', hup, k, hreach, hcycle⟩

/-- A chain without an end is followed as long as one likes. -/
theorem loops_of_endless {h : TypeHash} (hend : r.Endless h) (n : Nat) (seen : List TypeHash) :
    r.loops n seen h := by
  induction n generalizing seen h with
  | zero => rfl
  | succ n ih =>
    obtain ⟨h', hup, hend'⟩ := hend.exists_up
    rw [loops, Bool.or_eq_true, show (r.get? h).bind TypeSymbol.superclass = some h' from hup]
    exact .inr (ih hend' _)

/-- The chain so far: different registered types, from each of which it led on to the last
identity. -/
structure Followed (r : Registry) (seen : List TypeHash) (h : TypeHash) : Prop where
  nodup : seen.Nodup
  known : ∀ x ∈ seen, (r.get? x).isSome
  leads : ∀ x ∈ seen, TransGen r.Up x h

/-- No chain of different types is longer than the number of types. -/
theorem Followed.length_le {seen : List TypeHash} {h : TypeHash} (hseen : r.Followed seen h) :
    seen.length ≤ r.count := by
  have hsub : seen ⊆ r.latestFirst.map TypeSymbol.hash := by
    intro x hx
    obtain ⟨t, ht⟩ := Option.isSome_iff_exists.mp (hseen.known x hx)
    exact List.mem_map.mpr ⟨t, List.mem_of_find?_eq_some ht, hash_of_get? ht⟩
  have hlength := (List.subperm_of_subset hseen.nodup hsub).length_le
  rwa [List.length_map] at hlength

/-- The chain is followed one step further. -/
theorem Followed.up {seen : List TypeHash} {h h' : TypeHash} (hseen : r.Followed seen h)
    (hnew : h ∉ seen) (hup : r.Up h h') : r.Followed (h :: seen) h' where
  nodup := List.nodup_cons.mpr ⟨hnew, hseen.nodup⟩
  known := by
    obtain ⟨t, ht, -⟩ := Option.bind_eq_some_iff.mp hup
    exact List.forall_mem_cons.mpr ⟨Option.isSome_iff_exists.mpr ⟨t, ht⟩, hseen.known⟩
  leads := List.forall_mem_cons.mpr ⟨.single hup, fun x hx => (hseen.leads x hx).tail hup⟩

/-- A chain that is followed for more steps than there are types runs into a cycle. -/
theorem endless_of_loops {n : Nat} {seen : List TypeHash} {h : TypeHash}
    (hseen : r.Followed seen h) (hn : r.count < n + seen.length) (hloops : r.loops n seen h) :
    r.Endless h := by
  induction n generalizing seen h with
  | zero =>
    have hlength := hseen.length_le
    omega
  | succ n ih =>
    by_cases hmem : h ∈ seen
    · exact ⟨h, .refl, hseen.leads h hmem⟩
    · rw [loops, Bool.or_eq_true, List.contains_iff_mem] at hloops
      have hrest := hloops.resolve_left hmem
      cases hup : (r.get? h).bind TypeSymbol.superclass with
      | none =>
        rw [hup] at hrest
        exact absurd hrest Bool.false_ne_true
      | some h' =>
        rw [hup] at hrest
        have hlength : r.count < n + (h :: seen).length := by
          rw [List.length_cons]
          omega
        obtain ⟨k, hreach, hcycle⟩ := ih (hseen.up hmem hup) hlength hrest
        exact ⟨k, hreach.head hup, hcycle⟩

/-- **The search finds the chains that run into a cycle**, and no others. -/
theorem loops_iff (r : Registry) (h : TypeHash) : r.loops (r.count + 2) [] h ↔ r.Endless h := by
  refine ⟨endless_of_loops ⟨List.nodup_nil, ?_, ?_⟩ ?_, fun hend => loops_of_endless hend _ _⟩
  · exact fun x hx => absurd hx List.not_mem_nil
  · exact fun x hx => absurd hx List.not_mem_nil
  · exact Nat.lt_add_of_pos_right (Nat.succ_pos _)

/-- **No cycle is reported** exactly if no type is above itself by superclasses alone. -/
theorem cycle?_eq_none (r : Registry) :
    r.cycle? = none ↔ ∀ t ∈ r.types, ¬ TransGen r.Extends t t := by
  rw [cycle?, Option.map_eq_none_iff, List.find?_eq_none]
  constructor
  · intro hnone t ht hcycle
    obtain ⟨s, -, hs⟩ := TransGen.tail'_iff.mp hcycle
    exact hnone t ht ((r.loops_iff t.hash).mpr ⟨t.hash, .refl, transGen_up hcycle hs.get?_hash⟩)
  -- The type from which a chain runs into a cycle need not be in the cycle itself.
  · intro hacyclic t _ hloops
    obtain ⟨k, -, hcycle⟩ := (r.loops_iff t.hash).mp hloops
    obtain ⟨h', hup, -⟩ := TransGen.head'_iff.mp hcycle
    obtain ⟨u, hu, -⟩ := Option.bind_eq_some_iff.mp hup
    have hmem : u ∈ r.types := List.mem_reverse.mpr (List.mem_of_find?_eq_some hu)
    exact hacyclic u hmem (transGen_extends hcycle hu hu)

end Registry

namespace Registration

/-- **When registration succeeds**: all declared names are new and differ from each other, and no
registered type is above itself by superclasses alone. -/
theorem isSuccess_iff (r : Registry) (files : List SourceFile) :
    (run r files).isSuccess ↔
      Declared.Fresh ⟨r, [], []⟩ (entries files.zipIdx) ∧
        ∀ t ∈ (run r files).registry.types, ¬ TransGen (run r files).registry.Extends t t := by
  rw [← Registry.cycle?_eq_none]
  constructor
  · intro h
    have hfresh := fresh_of_isSuccess h
    rw [isSuccess, (run_of_fresh hfresh).2.1, List.isEmpty_iff, Option.toList_eq_nil_iff] at h
    exact ⟨hfresh, h⟩
  · rintro ⟨hfresh, hnone⟩
    rw [isSuccess, (run_of_fresh hfresh).2.1, hnone]
    rfl

namespace Sample

/-- Two interfaces that extend each other. -/
def cyclic : List SourceFile :=
  [⟨"A.java", (parseUnit
    "interface A extends B \x7b\x7d interface B extends A \x7b\x7d".toList 0).unit⟩]

/-- An interface that extends another one. -/
def interfaceNamed (name up : String) : TypeSymbol :=
  { TypeSymbol.declared ⟨"", name⟩ .interfaceType .none [] none with
    interfaces := [QualifiedName.hash ⟨"", up⟩] }

theorem registry_cyclic :
    (run .empty cyclic).registry = ⟨[interfaceNamed "B" "A", interfaceNamed "A" "B"]⟩ := by
  decide +kernel

end Sample

/-- **Cycles of interfaces go unnoticed.** Two interfaces that extend each other are registered with
success, although each is above itself. -/
theorem isSuccess_of_interface_cycle :
    (run .empty Sample.cyclic).isSuccess ∧
      ∃ t ∈ (run .empty Sample.cyclic).registry.types,
        TransGen (run .empty Sample.cyclic).registry.Inherits t t := by
  refine ⟨by decide +kernel, Sample.interfaceNamed "A" "B", ?_⟩
  rw [Sample.registry_cyclic]
  have hup : Registry.Inherits ⟨[Sample.interfaceNamed "B" "A", Sample.interfaceNamed "A" "B"]⟩
      (Sample.interfaceNamed "A" "B") (Sample.interfaceNamed "B" "A") :=
    ⟨_, List.mem_singleton_self _, by decide +kernel⟩
  have hback : Registry.Inherits ⟨[Sample.interfaceNamed "B" "A", Sample.interfaceNamed "A" "B"]⟩
      (Sample.interfaceNamed "B" "A") (Sample.interfaceNamed "A" "B") :=
    ⟨_, List.mem_singleton_self _, by decide +kernel⟩
  exact ⟨by decide +kernel, .tail (.single hup) hback⟩

end Registration

end JavaGraft

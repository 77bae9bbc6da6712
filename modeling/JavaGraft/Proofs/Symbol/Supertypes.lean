import JavaGraft.Symbol.Hierarchy
import Mathlib.Data.List.Nodup

/-!
# What supertypes depend on

Supertypes are found level by level among the types not met yet, by identity. So they are registered
themselves (`JavaGraft.Registry.mem_of_mem_supertypes`), and they do not depend on anything but
identities and parents (`JavaGraft.Registry.supertypes_map`), nor, as long as no two types have the
same identity, on the order in which the types were declared
(`JavaGraft.Registry.supertypes_perm`).
-/

namespace JavaGraft

namespace Registry

/-- A registry with all its types changed. -/
def mapped (r : Registry) (f : TypeSymbol → TypeSymbol) : Registry := ⟨r.latestFirst.map f⟩

/-- **No two types have the same identity.** -/
def Distinct (r : Registry) : Prop := (r.latestFirst.map TypeSymbol.hash).Nodup

/-- If keys are distinct, an element is found by its key. -/
theorem find?_of_mem {α β : Type} [DecidableEq β] {key : α → β} {xs : List α}
    (hxs : (xs.map key).Nodup) {x : α} (hx : x ∈ xs) {k : β} (hk : key x = k) :
    xs.find? (fun y => key y == k) = some x := by
  cases hfind : xs.find? (fun y => key y == k) with
  | none => exact absurd hk (by simpa using List.find?_eq_none.mp hfind x hx)
  | some y =>
    have hy : key y = k := by simpa using List.find?_some hfind
    rw [List.inj_on_of_nodup_map hxs (List.mem_of_find?_eq_some hfind) hx (hy.trans hk.symm)]

/-! ### Supertypes are registered -/

theorem level_subset (hs : List TypeHash) (unmet : List TypeSymbol) :
    (level hs unmet).1 ⊆ unmet ∧ (level hs unmet).2 ⊆ unmet := by
  induction hs generalizing unmet with
  | nil => exact ⟨List.nil_subset _, List.Subset.refl _⟩
  | cons h hs ih =>
    rw [level]
    cases hfind : unmet.find? (·.hash == h) with
    | none => exact ih unmet
    | some t =>
      obtain ⟨hmet, hunmet⟩ := ih (unmet.filter (·.hash != h))
      have hfilter : unmet.filter (·.hash != h) ⊆ unmet := List.filter_sublist.subset
      exact ⟨List.cons_subset.mpr ⟨List.mem_of_find?_eq_some hfind,
        List.Subset.trans hmet hfilter⟩, List.Subset.trans hunmet hfilter⟩

theorem levels_subset (n : Nat) (hs : List TypeHash) (unmet : List TypeSymbol) :
    levels n hs unmet ⊆ unmet := by
  induction n generalizing hs unmet with
  | zero => exact List.nil_subset _
  | succ n ih =>
    obtain ⟨hmet, hunmet⟩ := level_subset hs unmet
    rw [levels]
    split
    · exact List.nil_subset _
    · next heq =>
      rw [heq] at hmet hunmet
      exact List.append_subset.mpr ⟨hmet, List.Subset.trans (ih _ _) hunmet⟩

theorem get?_mem {r : Registry} {h : TypeHash} {t : TypeSymbol} (ht : r.get? h = some t) :
    t ∈ r.latestFirst := List.mem_of_find?_eq_some ht

/-- What is found by an identity has it. -/
theorem hash_of_get? {r : Registry} {h : TypeHash} {t : TypeSymbol} (ht : r.get? h = some t) :
    t.hash = h := by
  have hfound := List.find?_some ht
  exact beq_iff_eq.mp hfound

/-- Supertypes are registered. -/
theorem mem_of_mem_supertypes {r : Registry} {h : TypeHash} {t : TypeSymbol}
    (ht : t ∈ r.supertypes h) : t ∈ r.latestFirst := by
  have hlevels := levels_subset r.count [h] r.latestFirst
  rw [supertypes] at ht
  split at ht
  · exact hlevels ht
  · rcases List.mem_append.mp ht with ht | ht
    · exact hlevels ht
    · exact get?_mem (Option.mem_toList.mp ht)

/-! ### Changes that keep identities -/

section Map

variable {f : TypeSymbol → TypeSymbol} (r : Registry)

theorem find?_mapped (hname : ∀ t, (f t).name = t.name) (n : QualifiedName) :
    (r.mapped f).find? n = (r.find? n).map f := by
  rw [find?, find?, mapped, List.find?_map]
  simp only [Function.comp_def, hname]

theorem get?_mapped (hhash : ∀ t, (f t).hash = t.hash) (h : TypeHash) :
    (r.mapped f).get? h = (r.get? h).map f := by
  rw [get?, get?, mapped, List.find?_map]
  simp only [Function.comp_def, hhash]

theorem level_map (hhash : ∀ t, (f t).hash = t.hash) (hs : List TypeHash)
    (unmet : List TypeSymbol) :
    level hs (unmet.map f) = ((level hs unmet).1.map f, (level hs unmet).2.map f) := by
  induction hs generalizing unmet with
  | nil => rfl
  | cons h hs ih =>
    have hfind : (unmet.map f).find? (·.hash == h) = (unmet.find? (·.hash == h)).map f := by
      rw [List.find?_map]
      simp only [Function.comp_def, hhash]
    have hfilter : (unmet.map f).filter (·.hash != h) = (unmet.filter (·.hash != h)).map f := by
      rw [List.filter_map]
      simp only [Function.comp_def, hhash]
    rw [level, level, hfind]
    cases unmet.find? (·.hash == h) with
    | none => exact ih unmet
    | some t =>
      rw [Option.map_some]
      simp only [hfilter, ih]
      rfl

theorem levels_map (hhash : ∀ t, (f t).hash = t.hash) (hparents : ∀ t, (f t).parents = t.parents)
    (n : Nat) (hs : List TypeHash) (unmet : List TypeSymbol) :
    levels n hs (unmet.map f) = (levels n hs unmet).map f := by
  induction n generalizing hs unmet with
  | zero => rfl
  | succ n ih =>
    rw [levels, levels, level_map hhash]
    rcases level hs unmet with ⟨met, rest⟩
    cases met with
    | nil => rfl
    | cons t ts =>
      have hup : ((t :: ts).map f).flatMap TypeSymbol.parents
          = (t :: ts).flatMap TypeSymbol.parents := by
        rw [List.flatMap_map]
        simp only [hparents]
      simp only [List.map_cons] at hup ⊢
      rw [hup, ih]
      simp

/-- **Supertypes depend on identities and parents only.** -/
theorem supertypes_map (hhash : ∀ t, (f t).hash = t.hash)
    (hparents : ∀ t, (f t).parents = t.parents) (h : TypeHash) :
    (r.mapped f).supertypes h = (r.supertypes h).map f := by
  have hcount : (r.mapped f).count = r.count := List.length_map _
  have hany : ((levels r.count [h] r.latestFirst).map f).any (·.hash == .object)
      = (levels r.count [h] r.latestFirst).any (·.hash == .object) := by
    rw [List.any_map]
    simp only [Function.comp_def, hhash]
  rw [supertypes, supertypes, hcount, get?_mapped r hhash]
  simp only [mapped, levels_map hhash hparents, hany]
  split
  · rfl
  · rw [List.map_append, Option.toList_map]

/-- The names of supertypes are the same if the types, changed in a way that keeps names, identities
and parents, are. -/
theorem names_supertypes_of_mapped {r r' : Registry} (hname : ∀ t, (f t).name = t.name)
    (hhash : ∀ t, (f t).hash = t.hash) (hparents : ∀ t, (f t).parents = t.parents)
    (h : r.mapped f = r'.mapped f) (x : TypeHash) :
    (r.supertypes x).map TypeSymbol.name = (r'.supertypes x).map TypeSymbol.name := by
  have hnames : ∀ ts : List TypeSymbol,
      (ts.map f).map TypeSymbol.name = ts.map TypeSymbol.name := by
    intro ts
    rw [List.map_map]
    exact congrArg (List.map · ts) (funext hname)
  rw [← hnames, ← supertypes_map r hhash hparents, h, supertypes_map r' hhash hparents, hnames]

end Map

/-! ### The order of declaration -/

section Perm

theorem find?_perm {α β : Type} [DecidableEq β] {key : α → β} {xs ys : List α} (h : xs.Perm ys)
    (hxs : (xs.map key).Nodup) (k : β) :
    xs.find? (fun x => key x == k) = ys.find? (fun x => key x == k) := by
  induction h with
  | nil => rfl
  | cons x _ ih =>
    rw [List.map_cons, List.nodup_cons] at hxs
    rw [List.find?_cons, List.find?_cons, ih hxs.2]
  -- Of two neighbours with different keys, at most one is the one looked for.
  | swap x y zs =>
    rw [List.map_cons, List.map_cons, List.nodup_cons] at hxs
    have hne : key y ≠ key x := fun h => hxs.1 (h ▸ List.mem_cons_self)
    simp only [List.find?_cons]
    by_cases hx : key x = k
    · have hy : (key y == k) = false := by simpa [← hx] using hne
      simp [hx, hy]
    · have hx' : (key x == k) = false := by simpa using hx
      simp [hx']
  | trans h₁ _ ih₁ ih₂ => exact (ih₁ hxs).trans (ih₂ ((h₁.map key).nodup_iff.mp hxs))

theorem level_perm (hs : List TypeHash) {xs ys : List TypeSymbol} (h : xs.Perm ys)
    (hxs : (xs.map TypeSymbol.hash).Nodup) :
    (level hs xs).1 = (level hs ys).1 ∧ (level hs xs).2.Perm (level hs ys).2 ∧
      ((level hs xs).2.map TypeSymbol.hash).Nodup := by
  induction hs generalizing xs ys with
  | nil => exact ⟨rfl, h, hxs⟩
  | cons x hs ih =>
    rw [level, level, find?_perm h hxs x]
    -- The same type is met in both, and what remains unmet is a permutation again.
    cases ys.find? (·.hash == x) with
    | none => exact ih h hxs
    | some t =>
      have hfilter := h.filter (·.hash != x)
      have hsub : ((xs.filter (·.hash != x)).map TypeSymbol.hash).Nodup :=
        hxs.sublist (List.filter_sublist.map _)
      obtain ⟨hmet, hrest, hnodup⟩ := ih hfilter hsub
      exact ⟨congrArg (t :: ·) hmet, hrest, hnodup⟩

theorem levels_perm (n : Nat) (hs : List TypeHash) {xs ys : List TypeSymbol} (h : xs.Perm ys)
    (hxs : (xs.map TypeSymbol.hash).Nodup) : levels n hs xs = levels n hs ys := by
  induction n generalizing hs xs ys with
  | zero => rfl
  | succ n ih =>
    obtain ⟨hmet, hrest, hnodup⟩ := level_perm hs h hxs
    rw [levels, levels]
    rcases hx : level hs xs with ⟨met, rest⟩
    rcases hy : level hs ys with ⟨met', rest'⟩
    rw [hx, hy] at hmet hrest
    rw [hx] at hnodup
    -- The level is the same in both, in the same order, so the next one starts alike.
    obtain rfl : met = met' := hmet
    cases met with
    | nil => rfl
    | cons t ts =>
      simp only
      rw [ih _ hrest hnodup]

variable {r r' : Registry} (h : r.latestFirst.Perm r'.latestFirst) (hr : r.Distinct)
include h hr

theorem get?_perm (x : TypeHash) : r.get? x = r'.get? x := find?_perm h hr x

/-- **Supertypes do not depend on the order of declaration.** -/
theorem supertypes_perm (x : TypeHash) : r.supertypes x = r'.supertypes x := by
  rw [supertypes, supertypes, get?_perm h hr, show r.count = r'.count from h.length_eq,
    levels_perm _ _ h hr]

end Perm

end Registry

end JavaGraft

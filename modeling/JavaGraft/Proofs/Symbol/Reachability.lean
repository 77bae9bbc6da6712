import JavaGraft.Proofs.Symbol.Supertypes
import Mathlib.Data.Finset.Dedup
import Mathlib.Data.Finset.Insert
import Mathlib.Data.Finset.Lattice.Lemmas

/-!
# Supertypes as a search of a graph

The superclasses and interfaces of the registered types are a finite graph, which may have cycles
and links that lead nowhere. `JavaGraft.Registry.Climbs` says that one identity is so many links
above another.

The supertypes of a type are those that can be reached in this graph
(`JavaGraft.Registry.supertypes_eq_reachable`), each once, the nearer ones first, and the root class
at the end if no link leads to it. So being a subtype is what it should be, reachability with the
root class above everything (`JavaGraft.Registry.isSubtype_iff`), and it is transitive as long as
nothing is above the root class.

## Levels and queues

The levels of `JavaGraft.Registry.levels` are cut off after as many as there are types. They are
those of a search with a queue and a set of identities seen (`JavaGraft.Registry.search`), which
ends because each step takes a type out of those unseen, or an identity out of the queue
(`JavaGraft.Registry.searched_eq`).

## The invariant

After a level, what is left to find is what can be reached from the parents of that level among the
types that are not on it. `JavaGraft.Registry.Covers` says of a list of types that it is the answer
for some starting points, and the step of the induction is that a level before the answer for the
parents is the answer for the level (`JavaGraft.Registry.Covers.level_append`). It rests on where a
path leaves the level for the last time (`JavaGraft.Registry.Climbs.leaves`).
-/

namespace JavaGraft

namespace Registry

/-! ### The graph -/

/-- The first identity is that of a registered type, and the second one is directly above it,
whether it is registered or not. -/
def Link (r : Registry) (h k : TypeHash) : Prop := ∃ t, r.get? h = some t ∧ k ∈ t.parents

/-- The second identity is so many links above the first one. -/
inductive Climbs (r : Registry) : Nat → TypeHash → TypeHash → Prop
  | here (h : TypeHash) : Climbs r 0 h h
  | up {n : Nat} {h k l : TypeHash} (link : r.Link h k) (rest : Climbs r n k l) :
    Climbs r (n + 1) h l

variable {r : Registry}

theorem Climbs.trans {m n : Nat} {h k l : TypeHash} (hhk : r.Climbs m h k) (hkl : r.Climbs n k l) :
    ∃ i, r.Climbs i h l := by
  induction hhk with
  | here => exact ⟨n, hkl⟩
  | up link _ ih =>
    obtain ⟨i, hi⟩ := ih hkl
    exact ⟨i + 1, .up link hi⟩

/-- From a type without parents there is no way up. -/
theorem Climbs.eq_of_parents {n : Nat} {h k : TypeHash} (hclimb : r.Climbs n h k)
    (htop : ∀ t, r.get? h = some t → t.parents = []) : h = k := by
  cases hclimb with
  | here => rfl
  | up link _ =>
    obtain ⟨t, ht, hk⟩ := link
    rw [htop t ht] at hk
    exact absurd hk List.not_mem_nil

/-! ### What is not seen yet -/

/-- The types whose identities are not among those given. -/
def without (r : Registry) (seen : Finset TypeHash) : Registry :=
  ⟨r.latestFirst.filter (·.hash ∉ seen)⟩

theorem get?_without (seen : Finset TypeHash) (h : TypeHash) :
    (r.without seen).get? h = if h ∈ seen then none else r.get? h := by
  rw [get?, without, List.find?_filter]
  split
  · next hseen =>
    refine List.find?_eq_none.mpr fun t _ ht => ?_
    simp only [Bool.decide_and, Bool.and_eq_true, decide_eq_true_eq, beq_iff_eq] at ht
    exact ht.1 (ht.2 ▸ hseen)
  · next hseen =>
    refine congrArg (List.find? · r.latestFirst) (funext fun t => ?_)
    by_cases ht : t.hash = h
    · simp [ht, hseen]
    · simp [ht]

theorem without_without (seen seen' : Finset TypeHash) :
    (r.without seen).without seen' = r.without (seen ∪ seen') := by
  rw [without, without, without, List.filter_filter]
  refine congrArg Registry.mk (List.filter_congr fun t _ => ?_)
  simp [not_or, Bool.and_comm]

theorem without_insert (seen : Finset TypeHash) (h : TypeHash) :
    r.without (insert h seen) = (r.without seen).without {h} := by
  rw [without_without, Finset.insert_eq, Finset.union_comm]

@[simp] theorem without_empty : r.without ∅ = r := by simp [without]

/-- Nothing changes if nothing has the identity. -/
theorem without_singleton {h : TypeHash} (hnone : r.get? h = none) : r.without {h} = r := by
  have hne : ∀ t ∈ r.latestFirst, t.hash ≠ h := fun t ht => by
    simpa using List.find?_eq_none.mp hnone t ht
  rw [without, List.filter_eq_self.mpr fun t ht => by simpa using hne t ht]

theorem count_without_lt {seen : Finset TypeHash} {t : TypeSymbol} (ht : t ∈ r.latestFirst)
    (hseen : t.hash ∈ seen) : (r.without seen).count < r.count :=
  List.length_filter_lt_length_iff_exists.mpr ⟨t, ht, by simpa using hseen⟩

theorem Link.of_without {seen : Finset TypeHash} {h k : TypeHash}
    (hlink : (r.without seen).Link h k) : h ∉ seen ∧ r.Link h k := by
  obtain ⟨t, ht, hk⟩ := hlink
  rw [get?_without] at ht
  split at ht
  · cases ht
  · next hseen => exact ⟨hseen, t, ht, hk⟩

theorem Climbs.of_without {seen : Finset TypeHash} {n : Nat} {h k : TypeHash}
    (hclimb : (r.without seen).Climbs n h k) : r.Climbs n h k := by
  induction hclimb with
  | here => exact .here _
  | up link _ ih => exact .up link.of_without.2 ih

/-! ### A level -/

theorem level_of_none {h : TypeHash} (hs : List TypeHash) (hnone : r.get? h = none) :
    level (h :: hs) r.latestFirst = level hs r.latestFirst := by
  rw [get?] at hnone
  rw [level, hnone]

theorem level_of_some {h : TypeHash} {t : TypeSymbol} (hs : List TypeHash)
    (hsome : r.get? h = some t) :
    level (h :: hs) r.latestFirst = (t :: (level hs (r.without {h}).latestFirst).1,
      (level hs (r.without {h}).latestFirst).2) := by
  have hrest : r.latestFirst.filter (·.hash != h) = (r.without {h}).latestFirst :=
    List.filter_congr fun t _ => by simp [bne, beq_eq_decide]
  rw [get?] at hsome
  rw [level, hsome, hrest]

/-- What is unmet after a level has none of the identities given. -/
theorem level_snd (hs : List TypeHash) (r : Registry) :
    (level hs r.latestFirst).2 = (r.without hs.toFinset).latestFirst := by
  induction hs generalizing r with
  | nil => simp [level]
  | cons h hs ih =>
    rw [List.toFinset_cons, Finset.insert_eq, ← without_without]
    cases hget : r.get? h with
    | none => rw [level_of_none hs hget, ih, without_singleton hget]
    | some t => rw [level_of_some hs hget, ih]

/-- A level has the types found by the identities given. -/
theorem mem_level {hs : List TypeHash} {r : Registry} {t : TypeSymbol} :
    t ∈ (level hs r.latestFirst).1 ↔ t.hash ∈ hs ∧ r.get? t.hash = some t := by
  induction hs generalizing r with
  | nil => simp [level]
  | cons h hs ih =>
    cases hget : r.get? h with
    | none =>
      have hne : r.get? t.hash = some t → t.hash ≠ h := fun ht heq => by
        rw [heq, hget] at ht
        cases ht
      rw [level_of_none hs hget, ih, List.mem_cons]
      constructor
      · rintro ⟨hmem, ht⟩
        exact ⟨.inr hmem, ht⟩
      · rintro ⟨hmem, ht⟩
        exact ⟨hmem.resolve_left (hne ht), ht⟩
    | some u =>
      have hu : u.hash = h := hash_of_get? hget
      rw [level_of_some hs hget, List.mem_cons, ih, get?_without, List.mem_cons]
      by_cases ht : t.hash = h
      -- An identity met before is not met again: what it stands for is the type found first.
      · simp only [ht, hget, Finset.mem_singleton, if_true, Option.some_inj, true_or, true_and,
          reduceCtorEq, and_false, or_false]
        exact eq_comm
      · have htu : t ≠ u := fun h' => ht (h' ▸ hu)
        simp [ht, htu]

/-- A level with something on it leaves fewer types behind. -/
theorem count_level_lt {hs : List TypeHash} {t : TypeSymbol} {ts : List TypeSymbol}
    (hmet : (level hs r.latestFirst).1 = t :: ts) : (r.without hs.toFinset).count < r.count := by
  have ht : t ∈ (level hs r.latestFirst).1 := hmet ▸ List.mem_cons_self
  obtain ⟨hmem, hget⟩ := mem_level.mp ht
  exact count_without_lt (get?_mem hget) (List.mem_toFinset.mpr hmem)

theorem level_nodup (hs : List TypeHash) (r : Registry) :
    ((level hs r.latestFirst).1.map TypeSymbol.hash).Nodup := by
  induction hs generalizing r with
  | nil => exact List.nodup_nil
  | cons h hs ih =>
    cases hget : r.get? h with
    | none => rw [level_of_none hs hget]; exact ih r
    | some t =>
      rw [level_of_some hs hget, List.map_cons, List.nodup_cons, hash_of_get? hget]
      refine ⟨fun hmem => ?_, ih _⟩
      obtain ⟨u, hu, huh⟩ := List.mem_map.mp hmem
      have hunmet := (mem_level.mp hu).2
      rw [huh, get?_without, if_pos (Finset.mem_singleton_self h)] at hunmet
      cases hunmet

/-! ### Levels, one after another -/

@[simp] theorem levels_nil (n : Nat) (unmet : List TypeSymbol) : levels n [] unmet = [] := by
  cases n <;> rfl

/-- The first level, then those above it. -/
theorem levels_succ (n : Nat) (hs : List TypeHash) (r : Registry) :
    levels (n + 1) hs r.latestFirst = (level hs r.latestFirst).1
      ++ levels n ((level hs r.latestFirst).1.flatMap TypeSymbol.parents)
          (r.without hs.toFinset).latestFirst := by
  rw [levels, ← level_snd]
  rcases level hs r.latestFirst with ⟨met, unmet⟩
  cases met with
  | nil => simp
  | cons t ts => rfl

/-- **The types are the answer for some starting points:** they are those that can be reached, each
once, none before one that is nearer. -/
structure Covers (r : Registry) (hs : List TypeHash) (ts : List TypeSymbol) : Prop where
  nodup : (ts.map TypeSymbol.hash).Nodup
  mem_iff : ∀ t, t ∈ ts ↔ r.get? t.hash = some t ∧ ∃ h ∈ hs, ∃ n, r.Climbs n h t.hash
  ordered : ts.Pairwise fun s t =>
    ∀ h ∈ hs, ∀ n, r.Climbs n h t.hash → ∃ h' ∈ hs, ∃ m ≤ n, r.Climbs m h' s.hash

theorem covers_nil (r : Registry) : r.Covers [] [] where
  nodup := List.nodup_nil
  mem_iff t := by simp
  ordered := List.Pairwise.nil

/-- **Where a path leaves a level for the last time.** A path from an identity of a level to one
that is not of the level has an end that starts at a parent of the level and avoids the level. -/
theorem Climbs.leaves {hs : List TypeHash} {n : Nat} {h k : TypeHash} (hclimb : r.Climbs n h k)
    (hh : h ∈ hs) (hk : k ∉ hs) :
    ∃ p ∈ (level hs r.latestFirst).1.flatMap TypeSymbol.parents, ∃ m < n,
      (r.without hs.toFinset).Climbs m p k := by
  -- Wherever a path starts, it either avoids the level or has such an end.
  have hgeneral : (r.without hs.toFinset).Climbs n h k ∨
      ∃ p ∈ (level hs r.latestFirst).1.flatMap TypeSymbol.parents, ∃ m < n,
        (r.without hs.toFinset).Climbs m p k := by
    clear hh
    induction hclimb with
    | here => exact .inl (.here _)
    | @up n x y k link _ ih =>
      obtain ⟨t, ht, hy⟩ := link
      rcases ih hk with havoid | ⟨p, hp, m, hm, hend⟩
      · by_cases hx : x ∈ hs
        · have hmet : t ∈ (level hs r.latestFirst).1 :=
            mem_level.mpr ⟨hash_of_get? ht ▸ hx, hash_of_get? ht ▸ ht⟩
          exact .inr ⟨y, List.mem_flatMap.mpr ⟨t, hmet, hy⟩, n, Nat.lt_succ_self n, havoid⟩
        · have hget : (r.without hs.toFinset).get? x = some t := by
            rw [get?_without, if_neg (by simpa using hx), ht]
          exact .inl (.up ⟨t, hget, hy⟩ havoid)
      · exact .inr ⟨p, hp, m, Nat.lt_succ_of_lt hm, hend⟩
  refine hgeneral.resolve_left fun havoid => ?_
  cases havoid with
  | here => exact hk hh
  | up link _ => exact link.of_without.1 (List.mem_toFinset.mpr hh)

/-- **The step of the search:** a level, before the answer for its parents among the other types, is
the answer for the level. -/
theorem Covers.level_append {hs : List TypeHash} {ts : List TypeSymbol}
    (hts : (r.without hs.toFinset).Covers
      ((level hs r.latestFirst).1.flatMap TypeSymbol.parents) ts) :
    r.Covers hs ((level hs r.latestFirst).1 ++ ts) := by
  have hmet : ∀ t ∈ (level hs r.latestFirst).1, t.hash ∈ hs := fun t ht => (mem_level.mp ht).1
  have hrest : ∀ t ∈ ts, t.hash ∉ hs ∧ r.get? t.hash = some t := fun t ht => by
    have hget := ((hts.mem_iff t).mp ht).1
    rw [get?_without] at hget
    split at hget
    · cases hget
    · next hnot => exact ⟨by simpa using hnot, hget⟩
  -- From the level itself, everything found behind it is one link further.
  have hback : ∀ p ∈ (level hs r.latestFirst).1.flatMap TypeSymbol.parents, ∀ m k,
      (r.without hs.toFinset).Climbs m p k → ∃ h ∈ hs, r.Climbs (m + 1) h k := by
    intro p hp m k hclimb
    obtain ⟨s, hs', hps⟩ := List.mem_flatMap.mp hp
    exact ⟨s.hash, hmet s hs', .up ⟨s, (mem_level.mp hs').2, hps⟩ hclimb.of_without⟩
  refine ⟨?_, fun t => ?_, ?_⟩
  · rw [List.map_append, List.nodup_append]
    refine ⟨level_nodup hs r, hts.nodup, fun x hx y hy hxy => ?_⟩
    obtain ⟨s, hs', rfl⟩ := List.mem_map.mp hx
    obtain ⟨t, ht, rfl⟩ := List.mem_map.mp hy
    exact (hrest t ht).1 (hxy ▸ hmet s hs')
  · rw [List.mem_append]
    constructor
    · rintro (ht | ht)
      · exact ⟨(mem_level.mp ht).2, t.hash, hmet t ht, 0, .here _⟩
      · obtain ⟨-, p, hp, m, hclimb⟩ := (hts.mem_iff t).mp ht
        obtain ⟨h, hh, hfull⟩ := hback p hp m _ hclimb
        exact ⟨(hrest t ht).2, h, hh, m + 1, hfull⟩
    · rintro ⟨hget, h, hh, n, hclimb⟩
      by_cases ht : t.hash ∈ hs
      · exact .inl (mem_level.mpr ⟨ht, hget⟩)
      · obtain ⟨p, hp, m, -, hend⟩ := hclimb.leaves hh ht
        refine .inr ((hts.mem_iff t).mpr ⟨?_, p, hp, m, hend⟩)
        rw [get?_without, if_neg (by simpa using ht), hget]
  · refine List.pairwise_append.mpr ⟨?_, hts.ordered.imp_of_mem ?_, ?_⟩
    · exact List.pairwise_of_forall_mem_list fun s hs' _ _ _ _ n _ =>
        ⟨s.hash, hmet s hs', 0, Nat.zero_le n, .here _⟩
    · intro s t _ ht hst h hh n hclimb
      obtain ⟨p, hp, m, hmn, hend⟩ := hclimb.leaves hh (hrest t ht).1
      obtain ⟨p', hp', m', hm', hend'⟩ := hst p hp m hend
      obtain ⟨h', hh', hfull⟩ := hback p' hp' m' _ hend'
      exact ⟨h', hh', m' + 1, by omega, hfull⟩
    · exact fun s hs' _ _ _ _ n _ => ⟨s.hash, hmet s hs', 0, Nat.zero_le n, .here _⟩

/-- As many levels as there are types are enough. -/
theorem covers_levels (n : Nat) (hs : List TypeHash) (r : Registry) (hn : r.count ≤ n) :
    r.Covers hs (levels n hs r.latestFirst) := by
  induction n generalizing hs r with
  | zero =>
    have hempty : r.latestFirst = [] := List.length_eq_zero_iff.mp (Nat.le_zero.mp hn)
    refine ⟨List.nodup_nil, fun t => ?_, List.Pairwise.nil⟩
    simp [levels, get?, hempty]
  | succ n ih =>
    rw [levels_succ]
    refine Covers.level_append ?_
    cases hmet : (level hs r.latestFirst).1 with
    | nil =>
      rw [List.flatMap_nil, levels_nil]
      exact covers_nil _
    | cons t ts =>
      have hless := count_level_lt hmet
      exact ih _ _ (by omega)

/-! ### The search with a queue -/

/-- **The search with a queue and a set of identities seen.** The types met, in their order, and the
identities seen in the end. -/
def search (r : Registry) (seen : Finset TypeHash) :
    List TypeHash → List TypeSymbol × Finset TypeHash
  | [] => ([], seen)
  | h :: queue =>
    if h ∈ seen then r.search seen queue
    else match _hget : r.get? h with
      | none => r.search (insert h seen) queue
      | some t =>
        let (ts, seen) := r.search (insert h seen) (queue ++ t.parents)
        (t :: ts, seen)
termination_by queue => ((r.without seen).count, queue.length)
decreasing_by
  · exact Prod.Lex.right _ (Nat.lt_succ_self _)
  · next hseen =>
    have hunmet : (r.without seen).get? h = none := by rw [get?_without, if_neg hseen, _hget]
    rw [without_insert, without_singleton hunmet]
    exact Prod.Lex.right _ (Nat.lt_succ_self _)
  · next hseen =>
    have hunmet : (r.without seen).get? h = some t := by rw [get?_without, if_neg hseen, _hget]
    refine Prod.Lex.left _ _ ?_
    rw [without_insert]
    exact count_without_lt (get?_mem hunmet) (by simp [hash_of_get? _hget])

/-- What the search meets from an identity, and the root class unless it has been seen. -/
def searched (r : Registry) (h : TypeHash) : List TypeSymbol :=
  let (ts, seen) := r.search ∅ [h]
  if .object ∈ seen then ts else ts ++ (r.get? .object).toList

/-- The search meets a whole level before it goes on with the parents of that level. -/
theorem search_append (r : Registry) (hs next : List TypeHash) (seen : Finset TypeHash) :
    r.search seen (hs ++ next) =
      let met := (level hs (r.without seen).latestFirst).1
      let further := r.search (seen ∪ hs.toFinset) (next ++ met.flatMap TypeSymbol.parents)
      (met ++ further.1, further.2) := by
  induction hs generalizing seen next with
  | nil => simp [level]
  | cons h hs ih =>
    have hseen' : seen ∪ (h :: hs).toFinset = insert h seen ∪ hs.toFinset := by
      ext; simp
    rw [List.cons_append, search]
    by_cases hseen : h ∈ seen
    · have hnone : (r.without seen).get? h = none := by rw [get?_without, if_pos hseen]
      rw [if_pos hseen, ih, level_of_none hs hnone, hseen', Finset.insert_eq_of_mem hseen]
    · have hunmet : (r.without seen).get? h = r.get? h := by rw [get?_without, if_neg hseen]
      rw [if_neg hseen]
      split
      · next hnone =>
        rw [ih, without_insert, without_singleton (hunmet.trans hnone),
          level_of_none hs (hunmet.trans hnone), hseen']
      · next t hsome =>
        rw [List.append_assoc, ih, without_insert, level_of_some hs (hunmet.trans hsome), hseen']
        simp [List.append_assoc]

theorem search_level (r : Registry) (hs : List TypeHash) (seen : Finset TypeHash) :
    (r.search seen hs).1 = (level hs (r.without seen).latestFirst).1
      ++ (r.search (seen ∪ hs.toFinset)
        ((level hs (r.without seen).latestFirst).1.flatMap TypeSymbol.parents)).1 := by
  simpa using congrArg Prod.fst (search_append r hs [] seen)

/-- The search meets what the levels have. -/
theorem search_fst (n : Nat) (hs : List TypeHash) (seen : Finset TypeHash)
    (hn : (r.without seen).count ≤ n) :
    (r.search seen hs).1 = levels n hs (r.without seen).latestFirst := by
  induction n generalizing hs seen with
  | zero =>
    have hempty : (r.without seen).latestFirst = [] :=
      List.length_eq_zero_iff.mp (Nat.le_zero.mp hn)
    have hmet : (level hs (r.without seen).latestFirst).1 = [] :=
      List.eq_nil_iff_forall_not_mem.mpr fun t ht => by
        simpa [hempty] using get?_mem (mem_level.mp ht).2
    rw [search_level, hmet]
    simp [search, levels]
  | succ n ih =>
    rw [levels_succ, search_level, without_without]
    cases hmet : (level hs (r.without seen).latestFirst).1 with
    | nil => simp [search]
    | cons t ts =>
      have hless := count_level_lt hmet
      rw [without_without] at hless
      rw [ih _ _ (by omega)]

theorem subset_search (hs : List TypeHash) (seen : Finset TypeHash) :
    seen ⊆ (r.search seen hs).2 := by
  fun_induction search r seen hs with
  | case1 => exact Finset.Subset.refl _
  | case2 seen h queue hseen ih => exact ih
  | case3 seen h queue hseen hnone ih => exact (Finset.subset_insert h seen).trans ih
  | case4 seen h queue hseen t hsome ts seen' hsearch ih =>
    rw [hsearch] at ih
    exact (Finset.subset_insert h seen).trans ih

/-- A registered type is seen, if it was not before, exactly when it is met. -/
theorem search_snd {hs : List TypeHash} {seen : Finset TypeHash} {k : TypeHash} (hk : k ∉ seen)
    (hget : (r.get? k).isSome) :
    k ∈ (r.search seen hs).2 ↔ ∃ t ∈ (r.search seen hs).1, t.hash = k := by
  fun_induction search r seen hs with
  | case1 => simp [hk]
  | case2 seen h queue hseen ih => exact ih hk
  | case3 seen h queue hseen hnone ih =>
    have hne : k ≠ h := fun heq => by simp [heq, hnone] at hget
    exact ih (by simp [hne, hk])
  | case4 seen h queue hseen t hsome ts seen' hsearch ih =>
    by_cases hkh : k = h
    · have hmem := subset_search (r := r) (queue ++ t.parents) (insert h seen)
      rw [hsearch] at hmem
      simp [hkh, hmem (Finset.mem_insert_self h seen), hash_of_get? hsome]
    · have hth : t.hash ≠ k := fun heq => hkh (heq.symm.trans (hash_of_get? hsome))
      rw [hsearch] at ih
      simpa [hth] using ih (by simp [hkh, hk])

/-- **The search with a queue finds the supertypes.** -/
theorem searched_eq (r : Registry) (h : TypeHash) : r.searched h = r.supertypes h := by
  have hfst : (r.search ∅ [h]).1 = levels r.count [h] r.latestFirst := by
    rw [search_fst r.count [h] ∅ (by rw [without_empty]), without_empty]
  rw [searched, supertypes, ← hfst]
  cases hroot : r.get? .object with
  | none => simp
  | some root =>
    have hseen : .object ∈ (r.search ∅ [h]).2 ↔ ∃ t ∈ (r.search ∅ [h]).1, t.hash = .object :=
      search_snd (Finset.notMem_empty _) (by rw [hroot]; rfl)
    simp only [hseen, List.any_eq_true, beq_iff_eq]

/-! ### What is found -/

/-- The supertypes are what can be reached, and the root class behind it if no way leads there. -/
theorem supertypes_cases (r : Registry) (h : TypeHash) :
    ∃ ts, r.Covers [h] ts ∧
      (r.supertypes h = ts ∧ (∀ root, r.get? .object = some root → ∃ n, r.Climbs n h .object) ∨
        ∃ root, r.get? .object = some root ∧ (∀ n, ¬ r.Climbs n h .object) ∧
          r.supertypes h = ts ++ [root]) := by
  have hcovers := covers_levels r.count [h] r (Nat.le_refl _)
  refine ⟨_, hcovers, ?_⟩
  rw [supertypes]
  split
  · next hany =>
    refine .inl ⟨rfl, fun _ _ => ?_⟩
    obtain ⟨t, ht, hroot⟩ := List.any_eq_true.mp hany
    obtain ⟨-, hmem⟩ := (hcovers.mem_iff t).mp ht
    simpa [beq_iff_eq.mp hroot] using hmem
  · next hany =>
    cases hget : r.get? .object with
    | none => exact .inl ⟨by simp, fun _ hroot => by cases hroot⟩
    | some root =>
      refine .inr ⟨root, rfl, fun n hclimb => hany ?_, by simp⟩
      have hhash := hash_of_get? hget
      have hmem := (hcovers.mem_iff root).mpr
        ⟨hhash ▸ hget, h, List.mem_singleton_self h, n, hhash ▸ hclimb⟩
      exact List.any_eq_true.mpr ⟨root, hmem, beq_iff_eq.mpr hhash⟩

/-- **The supertypes are the registered types that can be reached, and the root class.** -/
theorem mem_supertypes {h : TypeHash} {t : TypeSymbol} :
    t ∈ r.supertypes h ↔
      r.get? t.hash = some t ∧ ((∃ n, r.Climbs n h t.hash) ∨ t.hash = .object) := by
  obtain ⟨ts, hcovers, ⟨heq, hfound⟩ | ⟨root, hroot, -, heq⟩⟩ := supertypes_cases r h
  · rw [heq, hcovers.mem_iff]
    simp only [List.mem_singleton, exists_eq_left]
    refine and_congr_right fun hget => ⟨.inl, fun hor => hor.elim id fun hobject => ?_⟩
    rw [hobject] at hget ⊢
    exact hfound t hget
  · rw [heq, List.mem_append, hcovers.mem_iff]
    simp only [List.mem_singleton, exists_eq_left]
    constructor
    · rintro (⟨hget, hclimb⟩ | rfl)
      · exact ⟨hget, .inl hclimb⟩
      · exact ⟨hash_of_get? hroot ▸ hroot, .inr (hash_of_get? hroot)⟩
    · rintro ⟨hget, hclimb | hobject⟩
      · exact .inl ⟨hget, hclimb⟩
      · rw [hobject, hroot] at hget
        exact .inr (Option.some_inj.mp hget).symm

/-- No two supertypes have the same identity. -/
theorem supertypes_nodup (r : Registry) (h : TypeHash) :
    ((r.supertypes h).map TypeSymbol.hash).Nodup := by
  obtain ⟨ts, hcovers, ⟨heq, -⟩ | ⟨root, hroot, hfar, heq⟩⟩ := supertypes_cases r h
  · exact heq ▸ hcovers.nodup
  · rw [heq, List.map_append, List.nodup_append]
    refine ⟨hcovers.nodup, List.nodup_singleton _, fun x hx y hy hxy => ?_⟩
    obtain ⟨t, ht, rfl⟩ := List.mem_map.mp hx
    obtain ⟨-, h', hh', n, hclimb⟩ := (hcovers.mem_iff t).mp ht
    rw [List.mem_singleton.mp hh', hxy, List.mem_singleton.mp hy, hash_of_get? hroot] at hclimb
    exact hfar n hclimb

/-- **Nearer supertypes come first:** to those before one that can be reached, there is a way that
is no longer. -/
theorem supertypes_ordered (r : Registry) (h : TypeHash) :
    (r.supertypes h).Pairwise fun s t =>
      ∀ n, r.Climbs n h t.hash → ∃ m ≤ n, r.Climbs m h s.hash := by
  obtain ⟨ts, hcovers, hts⟩ := supertypes_cases r h
  have hordered : ts.Pairwise fun s t =>
      ∀ n, r.Climbs n h t.hash → ∃ m ≤ n, r.Climbs m h s.hash := by
    refine hcovers.ordered.imp fun hst n hclimb => ?_
    obtain ⟨h', hh', m, hm, hclimb'⟩ := hst h (List.mem_singleton_self h) n hclimb
    exact ⟨m, hm, List.mem_singleton.mp hh' ▸ hclimb'⟩
  rcases hts with ⟨heq, -⟩ | ⟨root, hroot, hfar, heq⟩
  · exact heq ▸ hordered
  · rw [heq, List.pairwise_append]
    refine ⟨hordered, List.pairwise_singleton _ _, fun s _ t ht n hclimb => ?_⟩
    rw [List.mem_singleton.mp ht, hash_of_get? hroot] at hclimb
    exact absurd hclimb (hfar n)

/-- A registered type comes first among its supertypes. -/
theorem head?_supertypes {h : TypeHash} {t : TypeSymbol} (hget : r.get? h = some t) :
    (r.supertypes h).head? = some t := by
  obtain ⟨n, hn⟩ : ∃ n, r.count = n + 1 :=
    Nat.exists_eq_succ_of_ne_zero (List.length_pos_of_mem (get?_mem hget)).ne'
  have hlevels : (levels r.count [h] r.latestFirst).head? = some t := by
    rw [hn, levels_succ, level_of_some [] hget]
    rfl
  rw [supertypes]
  split
  · exact hlevels
  · rw [List.head?_append, hlevels, Option.some_or]

/-- The root class comes last if no way leads to it. -/
theorem getLast?_supertypes {h : TypeHash} {root : TypeSymbol} (hget : r.get? .object = some root)
    (hfar : ∀ n, ¬ r.Climbs n h .object) : (r.supertypes h).getLast? = some root := by
  obtain ⟨ts, -, ⟨-, hfound⟩ | ⟨root', hget', -, heq⟩⟩ := supertypes_cases r h
  · obtain ⟨n, hclimb⟩ := hfound root hget
    exact absurd hclimb (hfar n)
  · rw [heq, List.getLast?_concat, ← hget, hget']

/-! ### Being below -/

/-- The second identity is above the first: it is the same, or that of the root class, or that of a
registered type that can be reached. -/
def Below (r : Registry) (h k : TypeHash) : Prop :=
  h = k ∨ k = .object ∨ (r.get? k).isSome ∧ ∃ n, r.Climbs n h k

/-- **A subtype is what is below.** -/
theorem isSubtype_iff {h k : TypeHash} : r.isSubtype h k ↔ r.Below h k := by
  rw [isSubtype, Bool.or_eq_true, Bool.or_eq_true, beq_iff_eq, beq_iff_eq, or_assoc, Below]
  refine or_congr_right (or_congr_right' fun hobject => ?_)
  simp only [List.any_eq_true, mem_supertypes, beq_iff_eq, Option.isSome_iff_exists]
  constructor
  · rintro ⟨t, ⟨hget, hclimb⟩, rfl⟩
    exact ⟨⟨t, hget⟩, hclimb.resolve_right hobject⟩
  · rintro ⟨⟨t, hget⟩, hclimb⟩
    have hhash := hash_of_get? hget
    exact ⟨t, ⟨hhash ▸ hget, .inl (hhash ▸ hclimb)⟩, hhash⟩

/-- What is above what is above is above, if nothing is above the root class. -/
theorem Below.trans {h k l : TypeHash}
    (htop : ∀ root, r.get? .object = some root → root.parents = []) (hhk : r.Below h k)
    (hkl : r.Below k l) : r.Below h l := by
  rcases hkl with rfl | rfl | ⟨hl, n, hkl⟩
  · exact hhk
  · exact .inr (.inl rfl)
  · rcases hhk with rfl | rfl | ⟨-, m, hhk⟩
    · exact .inr (.inr ⟨hl, n, hkl⟩)
    · exact .inr (.inl (hkl.eq_of_parents htop).symm)
    · exact .inr (.inr ⟨hl, hhk.trans hkl⟩)

/-- **The supertypes of a type are what can be reached from it.** The search ends and has every
registered type once that can be reached by superclasses and interfaces, and the root class if it is
registered, the nearer ones first: the type itself, if it is registered, at the beginning, and the
root class at the end if no way leads to it. So, with nothing above the root class, being a subtype
is reflexive and transitive. -/
theorem supertypes_eq_reachable (r : Registry) (h : TypeHash) :
    r.searched h = r.supertypes h ∧
    ((r.supertypes h).map TypeSymbol.hash).Nodup ∧
    (∀ t, t ∈ r.supertypes h ↔
      r.get? t.hash = some t ∧ ((∃ n, r.Climbs n h t.hash) ∨ t.hash = .object)) ∧
    (r.supertypes h).Pairwise (fun s t =>
      ∀ n, r.Climbs n h t.hash → ∃ m ≤ n, r.Climbs m h s.hash) ∧
    (∀ t, r.get? h = some t → (r.supertypes h).head? = some t) ∧
    (∀ root, r.get? .object = some root → (∀ n, ¬ r.Climbs n h .object) →
      (r.supertypes h).getLast? = some root) ∧
    ((∀ root, r.get? .object = some root → root.parents = []) →
      (∀ a, r.isSubtype a a) ∧
      ∀ a b c, r.isSubtype a b → r.isSubtype b c → r.isSubtype a c) := by
  refine ⟨searched_eq r h, supertypes_nodup r h, fun _ => mem_supertypes, supertypes_ordered r h,
    fun _ => head?_supertypes, fun _ => getLast?_supertypes, fun htop => ⟨fun a => ?_, ?_⟩⟩
  · exact isSubtype_iff.mpr (.inl rfl)
  · intro a b c hab hbc
    exact isSubtype_iff.mpr (.trans htop (isSubtype_iff.mp hab) (isSubtype_iff.mp hbc))

namespace Sample

/-- An interface below others. -/
def interfaceBelow (name : String) (ups : List String) : TypeSymbol :=
  { TypeSymbol.declared ⟨"", name⟩ .interfaceType .none [] none with
    interfaces := ups.map TypeHash.ofName }

/-- A class with nothing above it. -/
def root : TypeSymbol := .declared ⟨"java.lang", "Object"⟩ .classType .none [] none

/-- The root class, and two interfaces that extend each other, one of which extends a third one that
is not there. -/
def ring : Registry := ⟨[interfaceBelow "B" ["A"], interfaceBelow "A" ["B", "Gone"], root]⟩

/-- No way leads from the interfaces to the root class. -/
theorem ring_far (n : Nat) : ¬ ring.Climbs n (.ofName "A") .object := by
  intro hclimb
  have hcovers := covers_levels ring.count [.ofName "A"] ring (Nat.le_refl _)
  have hmem := (hcovers.mem_iff root).mpr
    ⟨by decide +kernel, _, List.mem_singleton_self _, n, hclimb⟩
  exact absurd hmem (by decide +kernel)

end Sample

theorem supertypes_eq_reachable_ring :
    (Sample.ring.supertypes (.ofName "A")).head? = some (Sample.interfaceBelow "A" ["B", "Gone"]) ∧
    (Sample.ring.supertypes (.ofName "A")).getLast? = some Sample.root ∧
    Sample.interfaceBelow "B" ["A"] ∈ Sample.ring.supertypes (.ofName "A") ∧
    Sample.ring.isSubtype (.ofName "A") (.ofName "A") := by
  obtain ⟨-, -, hmem, -, hhead, hlast, hsub⟩ :=
    supertypes_eq_reachable Sample.ring (.ofName "A")
  have hlink : Sample.ring.Link (.ofName "A") (.ofName "B") :=
    ⟨Sample.interfaceBelow "A" ["B", "Gone"], by decide +kernel, by decide +kernel⟩
  have htop : ∀ root, Sample.ring.get? .object = some root → root.parents = [] := by
    intro root hroot
    have hget : Sample.ring.get? .object = some Sample.root := by decide +kernel
    obtain rfl := Option.some_inj.mp (hroot.symm.trans hget)
    rfl
  refine ⟨hhead _ (by decide +kernel), hlast _ (by decide +kernel) Sample.ring_far, ?_,
    (hsub htop).1 _⟩
  exact (hmem _).mpr ⟨by decide +kernel, .inl ⟨1, .up hlink (.here _)⟩⟩

end Registry

end JavaGraft

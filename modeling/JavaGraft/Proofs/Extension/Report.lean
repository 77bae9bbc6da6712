import JavaGraft.Proofs.Extension.Account
import JavaGraft.Proofs.Extension.Meaning

/-!
# The report and the tree

The report of an annotation counts the decisions to replace a call. What can be seen in the tree is
which calls have other arguments than before (`JavaGraft.TypeDecl.replacedCalls`). The two numbers
differ by the calls outside the members that are decided to be replaced
(`JavaGraft.TypeDecl.extended_report`): candidates are looked for in the annotations and constants
of a type as well, but new callees are put into members alone.

Outside the members only `this` has a type. So the report is right unless, in a lambda within an
annotation or a constant, a call without receiver or one on `this` has a name that is offered
(`JavaGraft.Attribution.typeOf_outside`).
-/

namespace JavaGraft

/-! ### New callees -/

/-- A chain of names contains no calls. -/
theorem Expr.calls_ofNames (span : Span) (names : List String) (p : Place) :
    (Expr.ofNames span names).calls p = [] := by
  revert p
  exact Expr.ofNames_induction (P := fun e => ∀ p, e.calls p = []) (fun _ _ => rfl)
    (fun _ _ _ he p => he p.below) span names

/-- The new callees of a catalog take no calls along. -/
theorem Catalog.isRedirection_calleeFor? (c : Catalog) (a : Attribution) (site : Site) :
    IsRedirection (c.calleeFor? a site) := by
  intro call g hg
  obtain ⟨name, t, x, hname, -, -, -, -, rfl⟩ := calleeFor?_eq_some_iff.mp hg
  exact ⟨by rw [hname]; rfl, fun p => Expr.calls_ofNames _ _ p⟩

/-- Outside the members, nothing but `this` has a type. -/
theorem Attribution.typeOf_outside {a : Attribution} {file : Nat} {owner : TypeHash} {e : Expr}
    {t : DataType} (h : a.typeOf ⟨file, owner, none⟩ e = some t) : ∃ s, e = .this s := by
  cases e with
  | this s => exact ⟨s, rfl⟩
  | _ => exact absurd h (by simp [Attribution.typeOf])

/-! ### Reading replacements off the tree -/

/-- **The calls that are replaced between two trees**: those that have another number of arguments
in the second. A call with a replaced one inside it keeps the number of its arguments. -/
def TypeDecl.replacedCalls (before after : TypeDecl) : List Call :=
  ((before.calls .inside).map Prod.snd).filter fun c =>
    (after.calls .inside).any fun x => x.2.id = c.id ∧ x.2.args.length ≠ c.args.length

/-- Counting what is replaced, if it is known what every call is to become. Of every call `k` of the
first tree, `k.2` is the number of arguments it is to have; the second tree has no others, and all
that change. -/
theorem length_filter_changed (ks : List (Call × Nat)) (after : List (Place × Call))
    (hnodup : (ks.map fun k => k.1.id).Nodup)
    (honly : ∀ x ∈ after, ∃ k ∈ ks, k.1.id = x.2.id ∧ k.2 = x.2.args.length)
    (hall : ∀ k ∈ ks, k.2 ≠ k.1.args.length →
      ∃ x ∈ after, x.2.id = k.1.id ∧ x.2.args.length = k.2) :
    ((ks.map Prod.fst).filter fun c =>
        after.any fun x => x.2.id = c.id ∧ x.2.args.length ≠ c.args.length).length
      = ks.countP fun k => k.2 ≠ k.1.args.length := by
  rw [← List.countP_eq_length_filter, List.countP_map]
  refine List.countP_congr fun k hk => ?_
  simp only [Function.comp_apply, List.any_eq_true, decide_eq_true_eq]
  constructor
  -- The call found in the second tree was expected, and by its number only for `k`.
  · rintro ⟨x, hx, hid, hlen⟩
    obtain ⟨k', hk', hid', harity⟩ := honly x hx
    obtain rfl : k' = k := List.inj_on_of_nodup_map hnodup hk' hk (hid'.trans hid)
    exact harity ▸ hlen
  · intro hne
    obtain ⟨x, hx, hid, hlen⟩ := hall k hk hne
    exact ⟨x, hx, hid, hlen ▸ hne⟩

/-- Among the calls at a place, those that change are those in slots with a new callee. -/
theorem Place.countP_arity (callee : Call → Option Expr) (xs : List (Place × Call)) :
    (xs.map fun x => (x.2, arity callee x)).countP (fun k => k.2 ≠ k.1.args.length)
      = (slots xs).countP fun c => (callee c).isSome := by
  induction xs with
  | nil => rfl
  | cons x xs ih =>
    obtain ⟨p, c⟩ := x
    rw [List.map_cons, List.countP_cons, ih]
    cases p with
    | slot => cases h : (callee c).isSome <;> simp [arity, h]
    | inside => simp [arity]
    | foreign => simp [arity, slots]

namespace TypeDecl

variable {d : TypeDecl} {file : Nat} {owner : TypeHash}

/-- What every call of a type is to become: those outside the members stay as they are. -/
def arities (d : TypeDecl) (callee : Member → Call → Option Expr) : List (Call × Nat) :=
  ((d.outsideCalls .inside).map fun x => (x.2, x.2.args.length))
    ++ d.members.flatMap fun m => (m.calls .inside).map fun x => (x.2, Place.arity (callee m) x)

theorem map_fst_arities (d : TypeDecl) (callee : Member → Call → Option Expr) :
    (d.arities callee).map Prod.fst = (d.calls .inside).map Prod.snd := by
  rw [arities, d.calls_eq, List.map_append, List.map_append, List.map_map, List.map_flatMap,
    List.map_flatMap]
  simp only [List.map_map]
  rfl

/-- The calls in slots of members that have a new callee. -/
def redirectedCalls (d : TypeDecl) (callee : Member → Call → Option Expr) : List Call :=
  d.members.flatMap fun m => (Place.slots (m.calls .inside)).filter fun c => (callee m c).isSome

/-- Outside the members nothing changes; in a member, what is in a slot and has a new callee. -/
theorem countP_arities (d : TypeDecl) (callee : Member → Call → Option Expr) :
    ((d.arities callee).countP fun k => k.2 ≠ k.1.args.length)
      = (d.redirectedCalls callee).length := by
  -- Outside the members every call is to keep its arguments, so none is counted.
  have houtside : ((d.outsideCalls .inside).map fun x => (x.2, x.2.args.length)).countP
      (fun k : Call × Nat => decide (k.2 ≠ k.1.args.length)) = 0 := by
    rw [List.countP_map, List.countP_eq_zero]
    simp
  rw [arities, List.countP_append, houtside, Nat.zero_add, List.countP_flatMap, redirectedCalls,
    List.length_flatMap]
  congr 1
  refine List.map_congr_left fun m _ => ?_
  rw [← List.countP_eq_length_filter]
  exact Place.countP_arity (callee m) _

/-- Leaving annotations out adds no calls outside the members. -/
theorem outsideCalls_subset {callee : Member → Call → Option Expr} {annots : List Annot}
    (hannots : annots ⊆ d.modifiers.annots) :
    (d.redirected annots callee).outsideCalls .inside ⊆ d.outsideCalls .inside := by
  obtain ⟨⟨flags, as, s⟩, kind, name, tps, sup, is, cs, ms, span⟩ := d
  intro x hx
  rcases List.mem_append.mp hx with hx | hx
  · refine List.mem_append_left _ ?_
    rw [redirected, Modifiers.calls, Annot.allCalls_eq_flatMap, List.mem_flatMap] at hx
    obtain ⟨a, ha, hx⟩ := hx
    rw [Modifiers.calls, Annot.allCalls_eq_flatMap, List.mem_flatMap]
    exact ⟨a, hannots ha, hx⟩
  · exact List.mem_append_right _ hx

/-- **No call of a redirected type is unexpected.** -/
theorem arity_of_mem_redirected {callee : Member → Call → Option Expr}
    (hcallee : ∀ m, IsRedirection (callee m)) {annots : List Annot}
    (hannots : annots ⊆ d.modifiers.annots) {x : Place × Call}
    (hx : x ∈ (d.redirected annots callee).calls .inside) :
    ∃ k ∈ d.arities callee, k.1.id = x.2.id ∧ k.2 = x.2.args.length := by
  rw [calls_eq, List.mem_append, List.mem_flatMap] at hx
  rcases hx with hx | ⟨m', hm', hx⟩
  · exact ⟨(x.2, x.2.args.length), List.mem_append_left _
      (List.mem_map.mpr ⟨x, outsideCalls_subset hannots hx, rfl⟩), rfl, rfl⟩
  -- Inside a member, the marks tell which call of the first tree this one was.
  · obtain ⟨m, hm, rfl⟩ := List.mem_map.mp hm'
    have hmark := List.mem_map_of_mem (f := Place.mark) hx
    rw [m.marks_redirected (hcallee m) .inside] at hmark
    obtain ⟨y, hy, hyx⟩ := List.mem_map.mp hmark
    obtain ⟨hid, hlen⟩ := Prod.mk.inj (Prod.mk.inj hyx).2
    exact ⟨(y.2, Place.arity (callee m) y), List.mem_append_right _
      (List.mem_flatMap.mpr ⟨m, hm, List.mem_map.mpr ⟨y, hy, rfl⟩⟩), hid, hlen⟩

/-- **No call that was to change is missing.** -/
theorem exists_of_changed {callee : Member → Call → Option Expr}
    (hcallee : ∀ m, IsRedirection (callee m)) (annots : List Annot) {k : Call × Nat}
    (hk : k ∈ d.arities callee) (hne : k.2 ≠ k.1.args.length) :
    ∃ x ∈ (d.redirected annots callee).calls .inside,
      x.2.id = k.1.id ∧ x.2.args.length = k.2 := by
  rcases List.mem_append.mp hk with hk | hk
  · obtain ⟨x, -, rfl⟩ := List.mem_map.mp hk
    exact absurd rfl hne
  · obtain ⟨m, hm, hk⟩ := List.mem_flatMap.mp hk
    obtain ⟨y, hy, rfl⟩ := List.mem_map.mp hk
    have hmark := List.mem_map_of_mem (f := Place.newMark (callee m)) hy
    rw [← m.marks_redirected (hcallee m) .inside] at hmark
    obtain ⟨x, hx, hxy⟩ := List.mem_map.mp hmark
    obtain ⟨hid, hlen⟩ := Prod.mk.inj (Prod.mk.inj hxy).2
    refine ⟨x, ?_, hid, hlen⟩
    rw [calls_eq]
    exact List.mem_append_right _
      (List.mem_flatMap.mpr ⟨_, List.mem_map.mpr ⟨m, hm, rfl⟩, hx⟩)

/-- **What is replaced is what was redirected**: the calls in slots of members that have a new
callee. -/
theorem length_replacedCalls {callee : Member → Call → Option Expr}
    (hcallee : ∀ m, IsRedirection (callee m)) (hd : d.callIds.Nodup) {annots : List Annot}
    (hannots : annots ⊆ d.modifiers.annots) :
    (d.replacedCalls (d.redirected annots callee)).length = (d.redirectedCalls callee).length := by
  have hnodup : ((d.arities callee).map fun k => k.1.id).Nodup := by
    rw [d.callIds_eq .inside] at hd
    rw [show (fun k : Call × Nat => k.1.id) = Call.id ∘ Prod.fst from rfl, ← List.map_map,
      d.map_fst_arities, List.map_map]
    exact hd
  rw [replacedCalls, ← d.map_fst_arities callee,
    length_filter_changed _ _ hnodup (fun x hx => arity_of_mem_redirected hcallee hannots hx)
      (fun k hk hne => exists_of_changed hcallee annots hk hne), countP_arities]

/-! ### The report -/

/-- **The number that is reported**: the calls in slots with a new callee, outside the members and
in them. -/
theorem replaced_ofDecisions (c : Catalog) (a : Attribution) (d : TypeDecl) (file : Nat)
    (owner : TypeHash) :
    (Tally.ofDecisions ((d.callSites file owner).map (c.ruling a))).replaced
      = ((Place.slots (d.outsideCalls .inside)).countP fun call =>
            (c.calleeFor? a ⟨file, owner, none⟩ call).isSome)
        + (d.redirectedCalls fun m => c.calleeFor? a ⟨file, owner, some m⟩).length := by
  have hreplaces : Decision.replaces ∘ c.ruling a
      = fun s => (c.calleeFor? a s.site s.call).isSome := funext (c.replaces_ruling a)
  change ((d.callSites file owner).map (c.ruling a)).countP Decision.replaces = _
  rw [List.countP_map, hreplaces, callSites_eq, List.countP_append,
    List.countP_map, List.countP_flatMap, redirectedCalls, List.length_flatMap]
  congr 1
  · exact d.outsideSites_perm.countP_eq _
  · congr 1
    refine List.map_congr_left fun m _ => ?_
    rw [Function.comp_apply, List.countP_map, ← List.countP_eq_length_filter]
    exact m.sites_perm.countP_eq _

/-- **When the report is right.** The number that is reported exceeds the number of calls replaced
in the tree by the calls in slots outside the members that have a new callee. The two agree if
there is no such call. -/
theorem extended_report (d : TypeDecl) (annot : Annot) (file : Nat) (owner : TypeHash)
    (r : Registry) (files : List SourceFile) (hkind : d.kind.isInterfaceLike = false)
    (hannot : annot ∈ d.modifiers.annots) (hd : d.callIds.Nodup)
    (hoffers : (Catalog.listed (.start r files) ⟨file, owner, none⟩ annot).offers ≠ []) :
    ∃ decl tally a, d.extended annot file owner (.start r files) = ⟨decl, .carriedOut tally, a⟩ ∧
      tally.replaced = (d.replacedCalls decl).length +
        ((Place.slots (d.outsideCalls .inside)).countP fun call =>
          ((Catalog.listed (.start r files) ⟨file, owner, none⟩ annot).calleeFor? (.start r files)
            ⟨file, owner, none⟩ call).isSome) ∧
      (tally.replaced = (d.replacedCalls decl).length ↔
        ∀ call, (.slot, call) ∈ d.outsideCalls .inside →
          (Catalog.listed (.start r files) ⟨file, owner, none⟩ annot).calleeFor? (.start r files)
            ⟨file, owner, none⟩ call = none) := by
  obtain ⟨before, after, -, hannots, herase⟩ := List.exists_erase_eq hannot
  obtain ⟨a, hextended⟩ := d.extended_eq_redirected annot file owner r files hkind hd hoffers
  rw [herase] at hextended
  generalize Catalog.listed (.start r files) ⟨file, owner, none⟩ annot = c at hextended ⊢
  have hsub : before ++ after ⊆ d.modifiers.annots := by
    rw [hannots]
    exact List.append_subset.mpr ⟨List.subset_append_left _ _,
      fun x hx => List.mem_append_right _ (List.mem_cons_of_mem _ hx)⟩
  have hcount := length_replacedCalls (d := d)
    (fun m => c.isRedirection_calleeFor? (.start r files) ⟨file, owner, some m⟩) hd hsub
  have hreported := replaced_ofDecisions c (.start r files) d file owner
  rw [← hcount, Nat.add_comm] at hreported
  refine ⟨_, _, a, hextended, hreported, ?_⟩
  rw [hreported, Nat.add_eq_left, List.countP_eq_zero]
  simp only [Place.mem_slots, Bool.not_eq_true, Option.isSome_eq_false_iff,
    Option.isNone_iff_eq_none]

/-- For the call in the member of `Sample.withMember`, the report is right. -/
theorem extended_report_sample :
    ∃ decl tally a, Sample.withMember.extended Sample.annot 0 Sample.owner Sample.start
        = ⟨decl, .carriedOut tally, a⟩ ∧
      tally.replaced = (Sample.withMember.replacedCalls decl).length +
        ((Place.slots (Sample.withMember.outsideCalls .inside)).countP fun call =>
          ((Catalog.listed Sample.start ⟨0, Sample.owner, none⟩ Sample.annot).calleeFor?
            Sample.start ⟨0, Sample.owner, none⟩ call).isSome) ∧
      (tally.replaced = (Sample.withMember.replacedCalls decl).length ↔
        ∀ call, (.slot, call) ∈ Sample.withMember.outsideCalls .inside →
          (Catalog.listed Sample.start ⟨0, Sample.owner, none⟩ Sample.annot).calleeFor?
            Sample.start ⟨0, Sample.owner, none⟩ call = none) :=
  Sample.withMember.extended_report Sample.annot 0 Sample.owner Sample.registry
    [Sample.file Sample.withMember] rfl (List.mem_singleton_self _) (by decide +kernel)
    (by decide +kernel)

/-- **A lost replacement.** The call in the constant of `Sample.withConstant` is reported as
replaced, but none is in the tree. -/
theorem extended_report_withConstant :
    (Sample.withConstant.extended Sample.annot 0 Sample.owner Sample.start).outcome
        = .carriedOut ⟨1, 1, 0, 0, 0⟩ ∧
      Sample.withConstant.replacedCalls
        (Sample.withConstant.extended Sample.annot 0 Sample.owner Sample.start).decl = [] := by
  constructor
  · decide +kernel
  · decide +kernel

end TypeDecl

end JavaGraft

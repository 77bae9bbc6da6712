import JavaGraft.Proofs.Course.DeclarationCharts
import JavaGraft.Proofs.Extension.Scanning
import JavaGraft.Proofs.Tree.Declared

/-!
# Candidates in the order of the source

In a tree that was read from a source, the calls in slots start one behind the other from left to
right, so all of them are different. A scan reports them in another order exactly where it reports a
slot ahead of code that stands in front of it. So the calls that it reports start one behind the
other exactly if the code of the type is straight (`JavaGraft.TypeDecl.scan_ordered_iff`). The body
of a `do`, for instance, stands in front of the condition (`JavaGraft.TypeDecl.scan_unordered`).
-/

namespace JavaGraft

/-- The calls in slots of a type that is declared in a source file start one behind the other. -/
theorem SourceUnit.starts_increasing {source : List Char} {n : Nat} {d : TypeDecl}
    (hd : d ∈ (parseUnit source n).unit.decls) :
    (Place.starts (d.calls .inside)).Pairwise (· < ·) :=
  (parseUnit_charted source n).sublist (SourceUnit.starts_sublist_spots hd)

/-- **The order of a scan.** From left to right, the calls in the slots of a type that is declared
in a source file start one behind the other. A scan of the type reports these calls, and each of
them ahead of those inside it; but it reports them in this order, where each starts behind the ones
before it, exactly if the code of the type is straight. -/
theorem TypeDecl.scan_ordered_iff {source : List Char} {n : Nat} {d : TypeDecl}
    (hd : d ∈ (parseUnit source n).unit.decls) (file : Nat) (owner : TypeHash) :
    (Place.starts (d.calls .inside)).Pairwise (· < ·) ∧
      ((d.scan file owner).found.map CallSite.call).Perm (Place.slots (d.calls .inside)) ∧
      (∀ s ∈ (d.scan file owner).found,
        (s.call :: s.call.sites).Sublist ((d.scan file owner).found.map CallSite.call)) ∧
      (((d.scan file owner).found.map fun s => s.call.span.offset).Pairwise (· < ·) ↔
        d.Straight) := by
  have hincreasing := SourceUnit.starts_increasing hd
  have horders := d.reorders file owner
  have hordered : (Place.slots (d.calls .inside)).Pairwise
      fun c c' => c.span.offset < c'.span.offset := List.pairwise_map.mp hincreasing
  have hnodup : (Place.slots (d.calls .inside)).Nodup :=
    hordered.imp fun h heq => h.ne (congrArg (fun c => c.span.offset) heq)
  have hmet : ((d.callSites file owner).map fun s => s.call.span.offset).Pairwise (· < ·) ↔
      ((d.callSites file owner).map CallSite.call).Pairwise
        fun c c' => c.span.offset < c'.span.offset := by
    rw [List.pairwise_map, List.pairwise_map]
  rw [found_scan]
  refine ⟨hincreasing, horders.perm, fun s hs => horders.nested _ (List.mem_map_of_mem hs), ?_⟩
  rw [hmet, ← horders.iff hnodup]
  -- each call behind the ones before it: two orders of the same calls with this are the same
  exact ⟨fun hsorted => horders.perm.eq_of_pairwise
    (fun c c' _ _ h h' => absurd h (Nat.lt_asymm h')) hsorted hordered, fun heq => heq ▸ hordered⟩

/-- A call and the one in its argument are reported from left to right; the local class between
them has code of its own. -/
theorem TypeDecl.scan_ordered_nested :
    ∃ d ∈ (parseUnit "class A { void m() { f(() -> { class B { int n = b(); } a(); }); } }".toList
        0).unit.decls,
      (d.scan 0 .object).found.map (fun s => s.call.span.offset) = [21, 56] ∧ d.Straight := by
  obtain ⟨d, hd, hfound⟩ : ∃ d ∈ (parseUnit
      "class A { void m() { f(() -> { class B { int n = b(); } a(); }); } }".toList 0).unit.decls,
      (d.scan 0 .object).found.map (fun s => s.call.span.offset) = [21, 56] := by decide +kernel
  refine ⟨d, hd, hfound, (TypeDecl.scan_ordered_iff hd 0 .object).2.2.2.mp ?_⟩
  rw [hfound]
  decide

/-- **The condition of a `do` is reported ahead of its body**, though it starts behind it. -/
theorem TypeDecl.scan_unordered :
    (parseUnit "class A { void m() { do { a(); } while (b()); } }".toList 0).errors = [] ∧
      ((parseUnit "class A { void m() { do { a(); } while (b()); } }".toList 0).unit.decls.map
        fun d => (d.scan 0 .object).found.map fun s => s.call.span.offset) = [[40, 26]] ∧
      ∃ d ∈ (parseUnit "class A { void m() { do { a(); } while (b()); } }".toList 0).unit.decls,
        ¬((d.scan 0 .object).found.map fun s => s.call.span.offset).Pairwise (· < ·) := by
  exact ⟨by decide +kernel, by decide +kernel, by decide +kernel⟩

end JavaGraft

import JavaGraft.Proofs.Extension.Straight

/-!
# The candidates of a type

The candidates of a member are the calls marked as slots in it, in some order
(`JavaGraft.Member.sites_perm`), and the candidates outside the members are those marked in the
annotations and constants (`JavaGraft.TypeDecl.outsideSites_perm`). The order is that of the marked
calls exactly if the code of the type is straight (`JavaGraft.TypeDecl.reorders`).
-/

namespace JavaGraft

/-- **The candidates of a member are the calls that fill slots in it.** -/
theorem Member.sites_perm (m : Member) : m.sites.Perm (Place.slots (m.calls .inside)) :=
  m.reorders.perm

/-- The candidates in the annotations and constants of a type. -/
def TypeDecl.outsideSites (d : TypeDecl) : List Call :=
  (d.modifiers.annots.flatMap fun a => AnnotArg.sites a.args)
    ++ d.constants.flatMap fun c => Expr.allSites c.args

/-- The calls in the annotations and constants of a type. -/
def TypeDecl.outsideCalls (d : TypeDecl) (p : Place) : List (Place × Call) :=
  d.modifiers.calls p ++ EnumConstant.allCalls p d.constants

theorem TypeDecl.calls_eq (d : TypeDecl) (p : Place) :
    d.calls p = d.outsideCalls p ++ d.members.flatMap (·.calls p) := by
  obtain ⟨m, kind, name, tps, sup, is, cs, ms, span⟩ := d
  rw [← Member.allCalls_eq_flatMap, TypeDecl.calls]
  rfl

theorem EnumConstant.slots_all (cs : List EnumConstant) :
    Place.slots (EnumConstant.allCalls .inside cs) =
      cs.flatMap fun c => Place.slots (Expr.allCalls .inside c.args) := by
  induction cs with
  | nil => rfl
  | cons c cs ih => cases c <;> simp [EnumConstant.allCalls, EnumConstant.args, ih]

/-- The candidates outside the members come in the order of the calls in slots exactly if the code
there is straight. -/
theorem TypeDecl.reorders_outside (d : TypeDecl) :
    Reorders d.outsideSites (Place.slots (d.outsideCalls .inside))
      ((∀ a ∈ d.modifiers.annots, AnnotArg.AllStraight a.args) ∧
        ∀ c ∈ d.constants, Expr.AllStraight c.args) := by
  have hannots : d.modifiers.calls .inside = Annot.allCalls .inside d.modifiers.annots := by
    cases d.modifiers
    rfl
  rw [TypeDecl.outsideCalls, Place.slots_append, EnumConstant.slots_all, hannots,
    Annot.allCalls_eq_flatMap, Place.slots, List.filterMap_flatMap]
  exact (Reorders.flatMap _ fun a _ => AnnotArg.allReorders a.args).append
    (Reorders.flatMap _ fun c _ => Expr.allReorders c.args)

/-- **The candidates outside the members are the calls that fill slots there.** -/
theorem TypeDecl.outsideSites_perm (d : TypeDecl) :
    d.outsideSites.Perm (Place.slots (d.outsideCalls .inside)) := d.reorders_outside.perm

section Sites

variable {d : TypeDecl} {file : Nat} {owner : TypeHash}

theorem TypeDecl.callSites_eq (d : TypeDecl) (file : Nat) (owner : TypeHash) :
    d.callSites file owner = (d.outsideSites.map fun c => ⟨c, file, owner, none⟩)
      ++ d.members.flatMap fun m => m.sites.map fun c => ⟨c, file, owner, some m⟩ := rfl

/-- All sites are about the same type of the same file. -/
theorem TypeDecl.site_of_mem {s : CallSite} (hs : s ∈ d.callSites file owner) :
    s.site.file = file ∧ s.site.owner = owner := by
  rw [TypeDecl.callSites_eq, List.mem_append, List.mem_map, List.mem_flatMap] at hs
  rcases hs with ⟨c, -, rfl⟩ | ⟨m, -, hs⟩
  · exact ⟨rfl, rfl⟩
  · obtain ⟨c, -, rfl⟩ := List.mem_map.mp hs
    exact ⟨rfl, rfl⟩

/-- A call that fills a slot in a member is a candidate at that member. -/
theorem TypeDecl.mem_callSites {m : Member} {c : Call} (hm : m ∈ d.members)
    (hc : (Place.slot, c) ∈ m.calls .inside) :
    ⟨c, file, owner, some m⟩ ∈ d.callSites file owner := by
  have hsite : c ∈ m.sites := m.sites_perm.mem_iff.mpr (Place.mem_slots.mpr hc)
  rw [TypeDecl.callSites_eq]
  exact List.mem_append_right _
    (List.mem_flatMap.mpr ⟨m, hm, List.mem_map.mpr ⟨c, hsite, rfl⟩⟩)

/-- **The candidates of a type come in the order of its calls in slots exactly if its code is
straight.** -/
theorem TypeDecl.reorders (d : TypeDecl) (file : Nat) (owner : TypeHash) :
    Reorders ((d.callSites file owner).map CallSite.call) (Place.slots (d.calls .inside))
      d.Straight := by
  have hsites : (d.callSites file owner).map CallSite.call =
      d.outsideSites ++ d.members.flatMap Member.sites := by
    simp [TypeDecl.callSites_eq, List.map_flatMap, Function.comp_def]
  have hmembers : Place.slots (d.members.flatMap fun m => m.calls .inside) =
      d.members.flatMap fun m => Place.slots (m.calls .inside) := List.filterMap_flatMap
  rw [hsites, TypeDecl.calls_eq, Place.slots_append, hmembers]
  exact d.reorders_outside.append (Reorders.flatMap _ fun m _ => m.reorders)

/-- **The candidates of a type are the calls that fill slots in it.** -/
theorem TypeDecl.callSites_perm (d : TypeDecl) (file : Nat) (owner : TypeHash) :
    ((d.callSites file owner).map CallSite.call).Perm (Place.slots (d.calls .inside)) :=
  (d.reorders file owner).perm

/-- If no two calls have the same number, no two candidates have. -/
theorem TypeDecl.nodup_callSites (hd : d.callIds.Nodup) :
    ((d.callSites file owner).map fun s => s.call.id).Nodup := by
  have hperm := (d.callSites_perm file owner).map Call.id
  rw [List.map_map] at hperm
  refine hperm.nodup_iff.mpr ?_
  rw [d.callIds_eq .inside] at hd
  refine hd.sublist ?_
  rw [show (fun x : Place × Call => x.2.id) = Call.id ∘ Prod.snd from rfl, ← List.map_map]
  exact (Place.slots_sublist _).map Call.id

/-- If no two calls have the same number, a call that fills no slot has that of no candidate. -/
theorem TypeDecl.not_candidate (hd : d.callIds.Nodup) {x : Place × Call} (hx : x ∈ d.calls .inside)
    (hslot : x.1 ≠ .slot) {s : CallSite} (hs : s ∈ d.callSites file owner) :
    s.call.id ≠ x.2.id := by
  intro hid
  have hcall : s.call ∈ Place.slots (d.calls .inside) :=
    (d.callSites_perm file owner).mem_iff.mp (List.mem_map_of_mem hs)
  have hmem := Place.mem_slots.mp hcall
  -- Two calls with the same number are the same listing entry, so their places agree.
  rw [d.callIds_eq .inside] at hd
  have heq := List.inj_on_of_nodup_map hd hmem hx hid
  exact hslot (by rw [← heq])

end Sites

end JavaGraft

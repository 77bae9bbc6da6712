import JavaGraft.Proofs.Build.Listing

/-!
# What a build leaves as it is

With one marker, the annotations that are carried out are exactly those on the types that the marker
marks, file by file and in the order of the listing. Everything else stays: packages, imports, the
frames of all types, every type in which nothing is marked, and the own code of a type on which the
annotation is misused (`JavaGraft.BuildUnit.build_frame`).
-/

namespace JavaGraft

/-! ### Marked types -/

/-- Whether a type carries an annotation that a marker marks. -/
def TypeDecl.isMarked (marker : ExtensionMarker) (d : TypeDecl) : Bool :=
  d.modifiers.annots.any marker.marks

theorem TypeDecl.isMarked_own (marker : ExtensionMarker) (d : TypeDecl) :
    d.own.isMarked marker = d.isMarked marker := rfl

theorem TypeDecl.isSome_find? (marker : ExtensionMarker) (d : TypeDecl) :
    (marker.find? d.modifiers).isSome = d.isMarked marker := by
  rw [ExtensionMarker.find?, List.isSome_find?, isMarked]

section Unmarked

variable {w : Workshop} {file : Nat}

/-- If a marker marks no annotation of a type, nothing happens. -/
theorem Workshop.apply_unmarked {name : QualifiedName} {d : TypeDecl} {p : Progress}
    {marker : ExtensionMarker} (h : d.isMarked marker = false) :
    w.apply file name d p marker = (d, p) := by
  have hnone : marker.find? d.modifiers = none := by
    rw [← Option.not_isSome_iff_eq_none, TypeDecl.isSome_find?, h]
    exact Bool.false_ne_true
  rw [apply, hnone]

theorem Workshop.applyAll_unmarked {name : QualifiedName} {d : TypeDecl} {p : Progress}
    (h : ∀ marker ∈ w.markers, d.isMarked marker = false) :
    w.applyAll file name d p = (d, p) := by
  rw [applyAll]
  generalize w.markers = markers at h
  induction markers with
  | nil => rfl
  | cons marker markers ih =>
    obtain ⟨hmarker, hmarkers⟩ := List.forall_mem_cons.mp h
    simp only [List.foldl_cons, apply_unmarked hmarker]
    exact ih hmarkers

mutual

/-- **A type in which nothing is marked stays as it is.** -/
theorem TypeDecl.made_unmarked (name : QualifiedName) : ∀ d : TypeDecl,
    (∀ x ∈ d.listed name, ∀ marker ∈ w.markers, x.2.isMarked marker = false) →
    d.made w file name = d
  | ⟨mods, kind, ident, tps, sup, is, cs, members, span⟩ => by
    intro h
    rw [TypeDecl.listed] at h
    obtain ⟨hown, hmembers⟩ := List.forall_mem_cons.mp h
    rw [TypeDecl.made_eq, Workshop.applyAll_unmarked hown]
    simp only
    rw [Member.types_made_unmarked name members hmembers, Member.refill_types]

theorem Member.types_made_unmarked (outer : QualifiedName) : ∀ ms : List Member,
    (∀ x ∈ Member.listed outer ms, ∀ marker ∈ w.markers, x.2.isMarked marker = false) →
    ((Member.types ms).map fun d => d.made w file (outer.member d.name.name)) = Member.types ms
  | [] => fun _ => rfl
  | .type d :: ms => by
    intro h
    rw [Member.listed] at h
    obtain ⟨hfirst, hrest⟩ := List.forall_mem_append.mp h
    rw [Member.types_cons_type, List.map_cons, d.made_unmarked _ hfirst,
      Member.types_made_unmarked outer ms hrest]
  | .field .. :: ms | .method .. :: ms | .constructor .. :: ms | .initializer .. :: ms =>
    Member.types_made_unmarked outer ms

end

end Unmarked

/-! ### One marker -/

/-- An annotation that is misused leaves the type as it is. -/
theorem TypeDecl.extended_of_usageError {d : TypeDecl} {annot : Annot} {file : Nat}
    {owner : TypeHash} {a : Attribution} {e : UsageError}
    (h : (d.extended annot file owner a).outcome = .usageError e) :
    (d.extended annot file owner a).decl = d := by
  rw [extended] at h ⊢
  cases hcatalog : Catalog.ofAnnot a ⟨file, owner, none⟩ d.kind annot with
  | error e => rfl
  | ok catalog =>
    simp only [hcatalog] at h
    split at h <;> cases h

namespace Workshop

variable {w : Workshop} {marker : ExtensionMarker} (hw : w.markers = [marker]) (file : Nat)
  (x : QualifiedName × TypeDecl)
include hw

omit file x in
theorem applyAll_single (file : Nat) (name : QualifiedName) (d : TypeDecl) (p : Progress) :
    w.applyAll file name d p = w.apply file name d p marker := by
  rw [applyAll, hw]
  rfl

/-- There is a verdict on one annotation for each marked type, and for no other type. -/
theorem map_verdict : (w.verdict file x).2.map (fun a => (a.file, a.type))
    = if x.2.isMarked marker then [(file, x.1)] else [] := by
  rw [verdict, applyAll_single hw, apply, ← TypeDecl.isMarked_own, ← TypeDecl.isSome_find?]
  cases marker.find? x.2.own.modifiers <;> rfl

/-- **Misuse leaves the own code of a type as it is.** -/
theorem verdict_of_misuse {a : Application} (ha : a ∈ (w.verdict file x).2) (h : a.isMisuse) :
    (w.verdict file x).1 = x.2.own := by
  rw [verdict, applyAll_single hw, apply] at ha ⊢
  cases hfind : marker.find? x.2.own.modifiers with
  | none => rfl
  | some annot =>
    rw [hfind] at ha
    obtain rfl := List.mem_singleton.mp ha
    cases houtcome : (x.2.own.extended annot file x.1.hash (.start w.registry w.files)).outcome with
    | usageError e => exact TypeDecl.extended_of_usageError houtcome
    | carriedOut _ | nothingToDo =>
      rw [Application.isMisuse, houtcome] at h
      exact absurd h Bool.false_ne_true

end Workshop

/-! ### The frame of a build -/

/-- **What a build leaves of parsed files**, when only what one marker marks is carried out.

The annotations on the marked types are carried out, and no others; the files keep their frames; and
with each file the same types are listed as before, of which those in which nothing is marked are
the same, and those with a misused annotation have the same own code. -/
structure BuildOutput.Frames (out : BuildOutput) (marker : ExtensionMarker)
    (parsed : List SourceFile) : Prop where
  applications : out.applications.map (fun a => (a.file, a.type))
    = parsed.zipIdx.flatMap fun (f, i) =>
        (f.listed.filter fun x => x.2.isMarked marker).map fun x => (i, x.1)
  files : out.files.map SourceFile.frame = parsed.map SourceFile.frame
  types : ∀ (i : Nat) (f f' : SourceFile), parsed[i]? = some f → out.files[i]? = some f' →
    List.Forall₂ (fun x x' => x'.1 = x.1 ∧
      ((∀ y ∈ x.2.listed x.1, y.2.isMarked marker = false) → x'.2 = x.2) ∧
      ((∃ a ∈ out.applications, a.file = i ∧ a.type = x.1 ∧ a.isMisuse) → x'.2.own = x.2.own))
      f.listed f'.listed

namespace Workshop

variable {w : Workshop} {marker : ExtensionMarker} (hw : w.markers = [marker])
include hw

/-- There is a verdict on one annotation for each marked type of a file. -/
theorem map_applications (file : Nat) (f : SourceFile) :
    (f.applications w file).map (fun a => (a.file, a.type))
      = (f.listed.filter fun x => x.2.isMarked marker).map fun x => (file, x.1) := by
  rw [SourceFile.applications, List.map_flatMap]
  induction f.listed with
  | nil => rfl
  | cons x xs ih =>
    rw [List.flatMap_cons, ih, map_verdict hw]
    cases hx : x.2.isMarked marker <;> simp [hx]

end Workshop

namespace BuildUnit

/-- The names of the types in a file of a unit that can be registered differ. -/
theorem nodup_listed {u : BuildUnit} (h : u.registration.isSuccess) {i : Nat} {f : SourceFile}
    (hf : u.files[i]? = some f) : (f.listed.map Prod.fst).Nodup := by
  have hnames := (Registration.fresh_of_isSuccess h).1
  rw [Registration.entries, List.map_flatMap] at hnames
  have hmem : (f, i) ∈ u.files.zipIdx := List.mem_zipIdx_iff_getElem?.mpr hf
  have hnodup := (List.nodup_flatMap.mp hnames).1 (f, i) hmem
  rw [f.map_name_entries] at hnodup
  exact hnodup

/-- **The frame of a build.** -/
theorem build_frame {u v : BuildUnit} {out : BuildOutput} {marker : ExtensionMarker}
    (hmarker : u.options.markers = [marker]) (h : u.build = .ok (out, v)) :
    out.Frames marker u.files := by
  have houtput := output_of_build h
  have hsuccess := (output_of_ok houtput).1
  have hw : u.workshop.markers = [marker] := hmarker
  obtain ⟨hmade, happlied⟩ := output_made houtput
  refine ⟨?_, ?_, ?_⟩
  · rw [happlied, List.map_flatMap]
    exact congrArg (List.flatMap · _) (funext fun x => Workshop.map_applications hw x.2 x.1)
  · have hframe : (fun x : SourceFile × Nat => (x.1.made u.workshop x.2).frame)
        = SourceFile.frame ∘ Prod.fst := funext fun x => x.1.frame_made u.workshop x.2
    have hfst := List.zipIdx_map_fst 0 u.files
    rw [hmade, List.map_map, Function.comp_def, hframe, ← List.map_map, hfst]
  · intro i f f' hf hf'
    rw [getElem?_files_output houtput, hf] at hf'
    obtain rfl := Option.some.inj hf'
    rw [f.listed_made u.workshop i, List.forall₂_map_right_iff, List.forall₂_same]
    refine fun x hx => ⟨rfl, fun hunmarked => ?_, fun hmisuse => ?_⟩
    · refine x.2.made_unmarked x.1 fun y hy m hm => ?_
      rw [hw] at hm
      exact List.mem_singleton.mp hm ▸ hunmarked y hy
    -- The annotation was found on a type of that name in that file, which is this one.
    · obtain ⟨a, ha, hfile, htype, hmisuse⟩ := hmisuse
      rw [happlied] at ha
      obtain ⟨⟨f₁, i₁⟩, hf₁, ha⟩ := List.mem_flatMap.mp ha
      obtain ⟨y, hy, ha⟩ := List.mem_flatMap.mp ha
      obtain ⟨rfl, hname⟩ := u.workshop.of_mem_verdict i₁ ha
      rw [List.mem_zipIdx_iff_getElem?] at hf₁
      rw [hfile, hf, Option.some_inj] at hf₁
      subst hf₁
      obtain rfl : y = x :=
        List.inj_on_of_nodup_map (nodup_listed hsuccess hf) hy hx (hname.symm.trans htype)
      rw [Workshop.remade, TypeDecl.own_made, ← hfile]
      exact Workshop.verdict_of_misuse hw _ y ha hmisuse

namespace Sample

/-- A class with an annotated interface, which is misuse, and with a class that is not annotated. -/
def nested : BuildUnit where
  options := ⟨false, false, [.standard]⟩
  sources := [
    ("Ext", "class Ext \x7b public static int tag(Object o) \x7b return 1; \x7d \x7d"),
    ("T", "@ExtensionMethod(Ext.class) class T \x7b int f(T t) \x7b return t.tag(); \x7d " ++
      "@ExtensionMethod(Ext.class) interface I \x7b \x7d class P \x7b int g = 1; \x7d \x7d")]
  isBuilt := false

end Sample

/-- In `Sample.nested`, one annotation is carried out and one is misused. -/
theorem build_frame_sample : ∃ out v, Sample.nested.build = .ok (out, v) ∧
    out.applications.map (fun a => (a.type.text, a.isMisuse)) = [("T", false), ("T.I", true)] ∧
    out.Frames .standard Sample.nested.files := by
  have hfound : (Sample.nested.build.toOption.map fun r =>
        r.1.applications.map fun a => (a.type.text, a.isMisuse))
      = some [("T", false), ("T.I", true)] := by decide +kernel
  cases hbuild : Sample.nested.build with
  | error e =>
    rw [hbuild] at hfound
    cases hfound
  | ok r =>
    rw [hbuild] at hfound
    exact ⟨r.1, r.2, rfl, Option.some.inj hfound, build_frame rfl hbuild⟩

end BuildUnit

end JavaGraft

import JavaGraft.Build.Process
import JavaGraft.Proofs.Extension.Moved
import JavaGraft.Proofs.Registration.Phases

/-!
# Processing one file among others

A file is processed in a `Workshop` with all the other files, after whatever has been found in
them. Neither shows: what becomes of a file, and what is said of its annotations, is what comes of
the file alone (`JavaGraft.SourceFile.alone`), among types that give the same answers, with the
labels of the calls replaced (`JavaGraft.Workshop.processFiles_spec`).
-/

namespace JavaGraft

variable {ρ : Relabeling}

/-! ### What is found -/

/-- Whether the annotation is misused. -/
def Application.isMisuse (x : Application) : Bool :=
  match x.outcome with
  | .usageError _ => true
  | .carriedOut _ | .nothingToDo => false

/-- The same, in the file of another number. -/
def Application.inFile (file : Nat) (x : Application) : Application := { x with file }

namespace Progress

/-- **What is found is added to what has been found**: the annotations, and with them the errors, as
misuse is one. -/
structure Adds (p : Progress) (xs : List Application) (p' : Progress) : Prop where
  applications : p'.applications = p.applications ++ xs
  hasErrors : p'.diagnostics.hasErrors = (p.diagnostics.hasErrors || xs.any Application.isMisuse)

theorem Adds.nil (p : Progress) : Adds p [] p := ⟨by simp, by simp⟩

theorem Adds.append {p p₁ p₂ : Progress} {xs ys : List Application} (h : Adds p xs p₁)
    (h' : Adds p₁ ys p₂) : Adds p (xs ++ ys) p₂ where
  applications := by rw [h'.applications, h.applications, List.append_assoc]
  hasErrors := by rw [h'.hasErrors, h.hasErrors, List.any_append, Bool.or_assoc]

/-- The current source does not matter. -/
theorem Adds.setSource {p p' : Progress} {xs : List Application} {s : Option String}
    (h : Adds ⟨p.diagnostics.setSource s, p.applications⟩ xs p') : Adds p xs p' :=
  ⟨h.applications, h.hasErrors⟩

end Progress

theorem Diagnostics.hasErrors_addError (ds : Diagnostics) (s : Span) (message : String) :
    (ds.addError s message).hasErrors = true := by
  simp [hasErrors, ofSeverity, addError, push]

/-! ### In step -/

/-- Workshops that treat a file of each alike. -/
structure Workshop.Matches (w : Workshop) (file : Nat) (w' : Workshop) (file' : Nat) : Prop where
  markers : w'.markers = w.markers
  registry : w.registry.Agrees w'.registry
  scope : (w'.files[file']?).map SourceFile.scope = (w.files[file]?).map SourceFile.scope

theorem Workshop.Matches.start {w w' : Workshop} {file file' : Nat} (h : w.Matches file w' file')
    (ρ : Relabeling) :
    (Attribution.start w.registry w.files).Matches ρ file file' (.start w'.registry w'.files) where
  registry := h.registry
  scope := by
    rw [Attribution.start, Attribution.start, List.getElem?_map, List.getElem?_map]
    exact h.scope
  tables := ⟨[], rfl, rfl⟩

/-- Two runs in step: the second comes to what the first comes to, relabelled, and both find the
same annotations `xs`, in their files. -/
structure InStep {α : Type} (relabel : α → α) (file' : Nat) (p p' : Progress)
    (done done' : α × Progress) (xs : List Application) : Prop where
  value : done'.1 = relabel done.1
  left : p.Adds xs done.2
  right : p'.Adds (xs.map (Application.inFile file')) done'.2

theorem InStep.unchanged {α : Type} {relabel : α → α} (file' : Nat) (p p' : Progress) (x : α) :
    InStep relabel file' p p' (x, p) (relabel x, p') [] :=
  ⟨rfl, .nil p, .nil p'⟩

/-- Runs in step, one after the other. -/
theorem InStep.andThen {α β : Type} {f : α → α} {g : β → β} {file' : Nat} {p p' : Progress}
    {first first' : α × Progress} {done done' : β × Progress} {xs ys : List Application}
    (h : InStep f file' p p' first first' xs)
    (h' : InStep g file' first.2 first'.2 done done' ys) :
    InStep g file' p p' done done' (xs ++ ys) where
  value := h'.value
  left := h.left.append h'.left
  right := by
    rw [List.map_append]
    exact h.right.append h'.right

/-! ### Types -/

theorem ExtensionMarker.find?_relabeled (marker : ExtensionMarker) (mods : Modifiers) :
    marker.find? (mods.relabeled ρ) = (marker.find? mods).map (Annot.relabeled ρ) := by
  obtain ⟨flags, as, s⟩ := mods
  have hmarks : marker.marks ∘ Annot.relabeled ρ = marker.marks := by
    funext a
    obtain ⟨n, args, s⟩ := a
    have hsimple : (n.relabeled ρ).isSimple = n.isSimple := by
      simp [Path.isSimple, Path.relabeled]
    have hlast : (n.relabeled ρ).last = n.last := by
      rw [Path.last, Path.last, Path.names_relabeled]
    simp only [Function.comp_apply, Annot.relabeled, marks, hsimple, hlast, Path.dotted_relabeled]
  simp only [find?, Modifiers.relabeled, Annot.allRelabeled_eq_map, List.find?_map, hmarks]

/-- Refilling a relabelled type with relabelled member types. -/
theorem Member.refill_relabeled (ms : List Member) (ds : List TypeDecl) :
    Member.refill (ms.map (Member.relabeled ρ)) (ds.map (TypeDecl.relabeled ρ))
      = (Member.refill ms ds).map (Member.relabeled ρ) := by
  induction ms generalizing ds with
  | nil => cases ds <;> rfl
  | cons m ms ih =>
    cases m with
    | type d =>
      cases ds with
      | nil => rfl
      | cons e es => exact congrArg (_ :: ·) (ih es)
    | _ => cases ds <;> exact congrArg (_ :: ·) (ih _)

theorem TypeDecl.refill_relabeled (d : TypeDecl) (ds : List TypeDecl) :
    { d.relabeled ρ with
        members := Member.refill (d.relabeled ρ).members (ds.map (TypeDecl.relabeled ρ)) }
      = TypeDecl.relabeled ρ { d with members := Member.refill d.members ds } := by
  obtain ⟨mods, kind, n, tps, sup, is, cs, ms, s⟩ := d
  simp only [relabeled, Member.allRelabeled_eq_map, Member.refill_relabeled]

namespace Workshop

variable {w w' : Workshop} {file file' : Nat} (h : w.Matches file w' file') (hρ : ρ.Injective)
include h hρ

theorem apply_relabeled (name : QualifiedName) (d : TypeDecl) (p p' : Progress)
    (marker : ExtensionMarker) :
    ∃ xs, InStep (TypeDecl.relabeled ρ) file' p p' (w.apply file name d p marker)
        (w'.apply file' name (d.relabeled ρ) p' marker) xs ∧ ∀ x ∈ xs, x.type = name := by
  rw [apply, apply, TypeDecl.modifiers_relabeled, ExtensionMarker.find?_relabeled]
  cases marker.find? d.modifiers with
  | none => exact ⟨[], .unchanged file' p p' d, fun x hx => absurd hx List.not_mem_nil⟩
  | some annot =>
    obtain ⟨hdecl, houtcome, hpasses⟩ := d.extended_relabeled hρ (h.start ρ) annot name.hash
    simp only [Option.map_some, hdecl, houtcome, hpasses]
    generalize d.extended annot file name.hash (.start w.registry w.files) = done
    refine ⟨[⟨file, name, done.outcome, done.attribution.passes⟩], ⟨rfl, ⟨rfl, ?_⟩, ⟨rfl, ?_⟩⟩,
      fun x hx => by rw [List.mem_singleton.mp hx]⟩
    · cases done.outcome <;> simp [Application.isMisuse, Diagnostics.hasErrors_addError]
    · cases done.outcome <;>
        simp [Application.isMisuse, Application.inFile, Diagnostics.hasErrors_addError]

theorem applyAll_relabeled (name : QualifiedName) (d : TypeDecl) (p p' : Progress) :
    ∃ xs, InStep (TypeDecl.relabeled ρ) file' p p' (w.applyAll file name d p)
        (w'.applyAll file' name (d.relabeled ρ) p') xs ∧ ∀ x ∈ xs, x.type = name := by
  rw [applyAll, applyAll, h.markers]
  induction w.markers generalizing d p p' with
  | nil => exact ⟨[], .unchanged file' p p' d, fun x hx => absurd hx List.not_mem_nil⟩
  | cons marker markers ih =>
    obtain ⟨xs, hfirst, hxs⟩ := apply_relabeled h hρ name d p p' marker
    obtain ⟨ys, hrest, hys⟩ := ih (w.apply file name d p marker).1
      (w.apply file name d p marker).2 (w'.apply file' name (d.relabeled ρ) p' marker).2
    rw [← hfirst.value] at hrest
    exact ⟨xs ++ ys, hfirst.andThen hrest, List.forall_mem_append.mpr ⟨hxs, hys⟩⟩

end Workshop

section Types

-- The linter does not see what the theorems of a mutual block pass on to each other.
set_option linter.unusedSectionVars false

variable {w w' : Workshop} {file file' : Nat} (h : w.Matches file w' file') (hρ : ρ.Injective)
include h hρ

mutual

/-- **Processing a relabelled type.** It comes out relabelled, and what is found is the same, on
types that are entered with it. -/
theorem TypeDecl.processed_relabeled (scope : FileScope) (name : QualifiedName)
    (outer : Option (TypeHash × TypeKind)) : ∀ (d : TypeDecl) (p p' : Progress),
    ∃ xs, InStep (TypeDecl.relabeled ρ) file' p p' (d.processed w file name p)
        ((d.relabeled ρ).processed w' file' name p') xs ∧
      ∀ x ∈ xs, x.type ∈ (d.entries file scope name outer).map Entry.name
  | ⟨mods, kind, ident, tps, sup, is, cs, members, span⟩ => by
    intro p p'
    obtain ⟨xs, hown, hxs⟩ := Workshop.applyAll_relabeled h hρ name
      ⟨mods, kind, ident, tps, sup, is, cs, members, span⟩ p p'
    -- The member types are those written in the type, whatever its own annotations did to it.
    obtain ⟨ys, hmembers, hys⟩ := Member.processed_relabeled scope name
      (name.hash, kind) members
      (w.applyAll file name ⟨mods, kind, ident, tps, sup, is, cs, members, span⟩ p).2
      (w'.applyAll file' name
        (TypeDecl.relabeled ρ ⟨mods, kind, ident, tps, sup, is, cs, members, span⟩) p').2
    have hdone := hown.andThen hmembers
    rw [TypeDecl.relabeled] at hown hmembers hdone ⊢
    rw [TypeDecl.processed, TypeDecl.processed, TypeDecl.entries]
    refine ⟨xs ++ ys, ⟨?_, hdone.left, hdone.right⟩, List.forall_mem_append.mpr ⟨?_, ?_⟩⟩
    · simp only [hown.value, hmembers.value]
      exact TypeDecl.refill_relabeled _ _
    · intro x hx
      rw [hxs x hx, List.map_cons]
      exact List.mem_cons_self
    · intro x hx
      rw [List.map_cons]
      exact List.mem_cons_of_mem _ (hys x hx)

theorem Member.processed_relabeled (scope : FileScope) (name : QualifiedName)
    (outer : TypeHash × TypeKind) : ∀ (ms : List Member) (p p' : Progress),
    ∃ xs, InStep (List.map (TypeDecl.relabeled ρ)) file' p p' (Member.processed w file name p ms)
        (Member.processed w' file' name p' (Member.allRelabeled ρ ms)) xs ∧
      ∀ x ∈ xs, x.type ∈ (Member.entries file scope name outer ms).map Entry.name
  | [] => fun p p' => ⟨[], .unchanged file' p p' [], fun x hx => absurd hx List.not_mem_nil⟩
  | .type d :: ms => by
    intro p p'
    obtain ⟨xs, hfirst, hxs⟩ := d.processed_relabeled scope (name.member d.name.name) (some outer)
      p p'
    obtain ⟨ys, hrest, hys⟩ := Member.processed_relabeled scope name outer ms
      (d.processed w file (name.member d.name.name) p).2
      ((d.relabeled ρ).processed w' file' (name.member d.name.name) p').2
    have hdone := hfirst.andThen hrest
    rw [Member.allRelabeled, Member.relabeled, Member.processed, Member.processed,
      TypeDecl.name_relabeled, Ident.name_relabeled, Member.entries, List.map_append]
    refine ⟨xs ++ ys, ⟨?_, hdone.left, hdone.right⟩, List.forall_mem_append.mpr ⟨?_, ?_⟩⟩
    · exact List.cons_eq_cons.mpr ⟨hfirst.value, hrest.value⟩
    · exact fun x hx => List.mem_append_left _ (hxs x hx)
    · exact fun x hx => List.mem_append_right _ (hys x hx)
  | .field .. :: ms | .method .. :: ms | .constructor .. :: ms | .initializer .. :: ms =>
    Member.processed_relabeled scope name outer ms

end

namespace Workshop

theorem processTypes_relabeled (scope : FileScope) (package : String) (ds : List TypeDecl)
    (p p' : Progress) :
    ∃ xs, InStep (List.map (TypeDecl.relabeled ρ)) file' p p' (w.processTypes file package ds p)
        (w'.processTypes file' package (ds.map (TypeDecl.relabeled ρ)) p') xs ∧
      ∀ x ∈ xs, x.type ∈ (ds.flatMap fun d =>
        d.entries file scope ⟨package, d.name.name⟩ none).map Entry.name := by
  induction ds generalizing p p' with
  | nil => exact ⟨[], .unchanged file' p p' [], fun x hx => absurd hx List.not_mem_nil⟩
  | cons d ds ih =>
    obtain ⟨xs, hfirst, hxs⟩ := d.processed_relabeled h hρ scope ⟨package, d.name.name⟩ none p p'
    obtain ⟨ys, hrest, hys⟩ := ih (d.processed w file ⟨package, d.name.name⟩ p).2
      ((d.relabeled ρ).processed w' file' ⟨package, d.name.name⟩ p').2
    have hdone := hfirst.andThen hrest
    rw [List.map_cons, processTypes, processTypes, TypeDecl.name_relabeled, Ident.name_relabeled,
      List.flatMap_cons, List.map_append]
    refine ⟨xs ++ ys, ⟨?_, hdone.left, hdone.right⟩, List.forall_mem_append.mpr ⟨?_, ?_⟩⟩
    · exact List.cons_eq_cons.mpr ⟨hfirst.value, hrest.value⟩
    · exact fun x hx => List.mem_append_left _ (hxs x hx)
    · exact fun x hx => List.mem_append_right _ (hys x hx)

end Workshop

end Types

/-! ### Files -/

namespace SourceFile

/-- **A file processed alone**, among the given types, and the annotations found in it. -/
def alone (f : SourceFile) (markers : List ExtensionMarker) (r : Registry) :
    SourceFile × List Application :=
  let (types, p) := Workshop.processTypes ⟨markers, r, [f]⟩ 0 f.scope.package f.unit.types
    ⟨.empty, []⟩
  ({ f with unit := { f.unit with types } }, p.applications)

/-- All annotations are found on types that the file enters. -/
theorem type_of_mem_alone (f : SourceFile) (markers : List ExtensionMarker) (r : Registry) :
    ∀ x ∈ (f.alone markers r).2, x.type ∈ (f.entries 0).map Entry.name := by
  have h : Workshop.Matches ⟨markers, r, [f]⟩ 0 ⟨markers, r, [f]⟩ 0 := ⟨rfl, .refl r, rfl⟩
  obtain ⟨xs, hstep, hxs⟩ := Workshop.processTypes_relabeled h (Relabeling.injective_shift 0)
    f.scope f.scope.package f.unit.types ⟨.empty, []⟩ ⟨.empty, []⟩
  intro x hx
  have hadded := hstep.left.applications
  rw [List.nil_append] at hadded
  exact hxs x (hadded ▸ hx)

end SourceFile

namespace Workshop

/-- **Processing files**: every file becomes what becomes of it alone, and the annotations found are
those found in the files alone, one file after the other. -/
theorem processFiles_spec {r : Registry} {w : Workshop} (hregistry : r.Agrees w.registry)
    {bases fs : List SourceFile} (hfs : SourceFile.Renumbered bases fs) (k : Nat)
    (hfiles : ∀ i, w.files[k + i]? = fs[i]?) (p : Progress) :
    SourceFile.Renumbered (bases.map fun b => (b.alone w.markers r).1) (w.processFiles k fs p).1 ∧
      p.Adds ((bases.zipIdx k).flatMap fun x =>
        (x.1.alone w.markers r).2.map (Application.inFile x.2)) (w.processFiles k fs p).2 := by
  induction hfs generalizing k p with
  | nil =>
    have hnil : p.Adds [] ⟨p.diagnostics.setSource none, p.applications⟩ :=
      ⟨(List.append_nil _).symm, (Bool.or_false _).symm⟩
    exact ⟨.nil, hnil⟩
  | @cons b f bs fs hf _ ih =>
    obtain ⟨n, rfl⟩ := hf
    -- Alone or among others, the file has the same scope under its number.
    have hmatches : Matches ⟨w.markers, r, [b]⟩ 0 w k := by
      refine ⟨rfl, hregistry, ?_⟩
      rw [show w.files[k]? = some (b.relabeled (.shift n)) from hfiles 0]
      exact congrArg some (b.scope_relabeled _)
    obtain ⟨xs, hstep, -⟩ := processTypes_relabeled hmatches (Relabeling.injective_shift n) b.scope
      b.scope.package b.unit.types ⟨.empty, []⟩
      ⟨p.diagnostics.setSource (some b.name), p.applications⟩
    obtain rfl : (b.alone w.markers r).2 = xs := hstep.left.applications
    obtain ⟨hrest, hadds⟩ := ih (k + 1)
      (fun i => by rw [Nat.add_right_comm, Nat.add_assoc]; exact hfiles (i + 1)) _
    have hscope : (b.relabeled (.shift n)).scope = b.scope := b.scope_relabeled _
    rw [processFiles, hscope, List.zipIdx_cons, List.flatMap_cons]
    refine ⟨.cons ⟨n, ?_⟩ hrest, hstep.right.setSource.append hadds⟩
    exact congrArg
      (fun types => (⟨b.name, { b.unit.relabeled (.shift n) with types }⟩ : SourceFile)) hstep.value

end Workshop

end JavaGraft

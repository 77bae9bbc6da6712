import JavaGraft.Proofs.Build.Listing
import JavaGraft.Proofs.Course.Apart

/-!
# What a build reports, and where

A build reports three kinds of things, one kind after the other and each of them file by file: the
parse errors of a file, the types in its signatures that mean nothing, and the annotations in it
that are misused. The name of the file travels in a current source, which is set anew in every pass
over the files.

What is reported comes to is said here without a current source (`JavaGraft.BuildOutput.Reports`):
every diagnostic names the file that it arose in, its span lies in the text of this file, and
nothing else is reported.
-/

namespace JavaGraft

/-! ### Adding diagnostics -/

namespace Diagnostics

/-- Adds diagnostics as they are, one after the other. -/
def addAll (ds : Diagnostics) (xs : List Diagnostic) : Diagnostics :=
  { ds with items := ds.items ++ xs }

variable (ds : Diagnostics)

@[simp] theorem addAll_nil : ds.addAll [] = ds := by simp [addAll]

@[simp] theorem addAll_addAll (xs ys : List Diagnostic) :
    (ds.addAll xs).addAll ys = ds.addAll (xs ++ ys) := by simp [addAll]

@[simp] theorem source_addAll (xs : List Diagnostic) : (ds.addAll xs).source = ds.source := rfl

@[simp] theorem items_addAll (xs : List Diagnostic) : (ds.addAll xs).items = ds.items ++ xs := rfl

@[simp] theorem source_setSource (s : Option String) : (ds.setSource s).source = s := rfl

@[simp] theorem items_setSource (s : Option String) : (ds.setSource s).items = ds.items := rfl

end Diagnostics

/-! ### Parse errors -/

/-- What is reported of a parse error in a file. -/
def ParseError.diagnostic (e : ParseError) (file : String) : Diagnostic :=
  ⟨.error, some file, e.span, e.fault.message⟩

namespace Diagnostics

theorem foldl_addError (ds : Diagnostics) (file : String) (errors : List ParseError) :
    errors.foldl (fun ds e => ds.addError e.span e.fault.message) (ds.setSource (some file))
      = (ds.setSource (some file)).addAll (errors.map (·.diagnostic file)) := by
  generalize hds : ds.setSource (some file) = ds'
  have hsource : ds'.source = some file := by rw [← hds, source_setSource]
  clear hds
  induction errors generalizing ds' with
  | nil => simp
  | cons e es ih =>
    have hfirst : ds'.addError e.span e.fault.message = ds'.addAll [e.diagnostic file] := by
      rw [addError, hsource]
      rfl
    rw [List.foldl_cons, hfirst, ih (ds'.addAll [e.diagnostic file]) hsource, addAll_addAll]
    rfl

/-- **Parse errors are reported file by file**, under the name of the file. -/
theorem reportErrors_eq (ds : Diagnostics) (failed : List (String × List ParseError)) :
    reportErrors ds failed
      = ⟨ds.items ++ failed.flatMap fun x => x.2.map (·.diagnostic x.1), none⟩ := by
  have hitems (failed : List (String × List ParseError)) (ds : Diagnostics) :
      (failed.foldl (fun ds x =>
        x.2.foldl (fun ds e => ds.addError e.span e.fault.message) (ds.setSource (some x.1)))
        ds).items = ds.items ++ failed.flatMap fun x => x.2.map (·.diagnostic x.1) := by
    induction failed generalizing ds with
    | nil => simp
    | cons x xs ih =>
      rw [List.foldl_cons, ih, foldl_addError, items_addAll, items_setSource, List.flatMap_cons,
        List.append_assoc]
  rw [reportErrors, setSource]
  exact congrArg (Diagnostics.mk · none) (hitems failed ds)

end Diagnostics

/-- Files without errors have nothing to report. -/
theorem flatMap_failedFiles (n : Nat) (sources : List (String × String)) :
    ((failedFiles (parseSources n sources)).flatMap fun x => x.2.map (·.diagnostic x.1))
      = sources.flatMap fun s => (parseUnit s.2.toList 0).errors.map (·.diagnostic s.1) := by
  rw [(parseSources_spec n sources).2]
  induction sources with
  | nil => rfl
  | cons s ss ih =>
    rw [List.map_cons, List.filter_cons, List.flatMap_cons, ← ih]
    split
    · rfl
    · next h =>
      have hnone : (parseUnit s.2.toList 0).errors = [] := by simpa [sourceErrors] using h
      rw [hnone]
      rfl

/-! ### Types in signatures -/

/-- What is wrong in the signatures of a file: the places of types that mean nothing among the
given types. -/
def SourceFile.complaints (f : SourceFile) (found : Registry) : List (Span × RegistrationFault) :=
  f.listed.flatMap fun x => (Context.inType found f.scope x.1.hash).complaints x.1.hash x.2

/-- What is reported of a type in a signature of a file. -/
def RegistrationFault.diagnostic (file : String) (x : Span × RegistrationFault) : Diagnostic :=
  ⟨.warning, some file, x.1, x.2.message⟩

mutual

/-- What is left to be found is left for the listed types. -/
theorem TypeDecl.map_pending_entries (file : Nat) (scope : FileScope) (name : QualifiedName)
    (outer : Option (TypeHash × TypeKind)) : ∀ d : TypeDecl,
    (d.entries file scope name outer).map Prod.snd
      = (d.listed name).map fun x => ⟨file, scope, x.1.hash, x.2⟩
  | ⟨mods, kind, ident, tps, sup, is, cs, members, span⟩ => by
    rw [TypeDecl.entries, TypeDecl.listed, List.map_cons, List.map_cons,
      Member.map_pending_entries file scope name _ members]
    rfl

theorem Member.map_pending_entries (file : Nat) (scope : FileScope) (name : QualifiedName)
    (outer : TypeHash × TypeKind) : ∀ ms : List Member,
    (Member.entries file scope name outer ms).map Prod.snd
      = (Member.listed name ms).map fun x => ⟨file, scope, x.1.hash, x.2⟩
  | [] => rfl
  | .type d :: ms => by
    rw [Member.entries, Member.listed, List.map_append, List.map_append,
      d.map_pending_entries file scope _ (some outer),
      Member.map_pending_entries file scope name outer ms]
  | .field .. :: ms | .method .. :: ms | .constructor .. :: ms | .initializer .. :: ms =>
    Member.map_pending_entries file scope name outer ms

end

theorem SourceFile.map_pending_entries (f : SourceFile) (index : Nat) :
    (f.entries index).map Prod.snd
      = f.listed.map fun x => ⟨index, f.scope, x.1.hash, x.2⟩ := by
  rw [entries, listed, List.map_flatMap, List.map_flatMap]
  exact congrArg (List.flatMap · _) (funext fun d => d.map_pending_entries index _ _ none)

/-- What registration complains about in a file. -/
theorem SourceFile.flatMap_entries_complaints (f : SourceFile) (index : Nat) (found : Registry) :
    ((f.entries index).flatMap fun e => e.2.complaints found)
      = (f.complaints found).map (index, ·) := by
  have hpending := f.map_pending_entries index
  rw [← List.flatMap_map (f := Prod.snd) (g := fun p : Pending => p.complaints found), hpending,
    List.flatMap_map, complaints, List.map_flatMap]
  rfl

namespace Diagnostics

/-- **Warnings are reported** under the names of their files. -/
theorem reportWarnings_eq (ds : Diagnostics) (files : List SourceFile)
    (warnings : List (Nat × Span × RegistrationFault)) :
    reportWarnings ds files warnings = ⟨ds.items ++ warnings.map fun x =>
      ⟨.warning, (files[x.1]?).map SourceFile.name, x.2.1, x.2.2.message⟩, none⟩ := by
  have hitems (warnings : List (Nat × Span × RegistrationFault)) (ds : Diagnostics) :
      (warnings.foldl (fun ds x =>
        (ds.setSource ((files[x.1]?).map SourceFile.name)).addWarning x.2.1 x.2.2.message)
        ds).items = ds.items ++ warnings.map fun x =>
          ⟨.warning, (files[x.1]?).map SourceFile.name, x.2.1, x.2.2.message⟩ := by
    induction warnings generalizing ds with
    | nil => simp
    | cons x xs ih =>
      rw [List.foldl_cons, ih, List.map_cons]
      simp [addWarning, push]
  rw [reportWarnings, setSource]
  exact congrArg (Diagnostics.mk · none) (hitems warnings ds)

end Diagnostics

/-! ### Misused annotations -/

/-- An annotation on a type of a file, and what is wrong with it. -/
structure Misuse where
  file : Nat
  type : QualifiedName
  annot : Annot
  error : UsageError

/-- What is reported of a misuse, if the given source is current. -/
def Misuse.diagnostic (source : Option String) (x : Misuse) : Diagnostic :=
  ⟨.error, source, x.annot.span, x.error.message⟩

/-- The misuse that an application of an annotation came to, if it is one: the file, the type and
what is wrong. -/
def Application.misuse? (a : Application) : Option (Nat × QualifiedName × UsageError) :=
  match a.outcome with
  | .usageError e => some (a.file, a.type, e)
  | .carriedOut _ | .nothingToDo => none

namespace Workshop

/-- The misuses among the annotations that markers mark on a type, one marker after the other. -/
def misusesOf (w : Workshop) (file : Nat) (name : QualifiedName) :
    List ExtensionMarker → TypeDecl → List Misuse
  | [], _ => []
  | marker :: markers, d =>
    match marker.find? d.modifiers with
    | none => w.misusesOf file name markers d
    | some annot =>
      let done := d.extended annot file name.hash (.start w.registry w.files)
      match done.outcome with
      | .usageError e => ⟨file, name, annot, e⟩ :: w.misusesOf file name markers done.decl
      | .carriedOut _ | .nothingToDo => w.misusesOf file name markers done.decl

/-- **The misused annotations on a type.** -/
def misuses (w : Workshop) (file : Nat) (x : QualifiedName × TypeDecl) : List Misuse :=
  w.misusesOf file x.1 w.markers x.2

end Workshop

/-- The misused annotations in a file, type by type. -/
def SourceFile.misuses (f : SourceFile) (w : Workshop) (file : Nat) : List Misuse :=
  f.listed.flatMap (w.misuses file)

/-- Carrying an annotation out brings no new annotations. -/
theorem TypeDecl.annots_extended (d : TypeDecl) (annot : Annot) (file : Nat) (owner : TypeHash)
    (a : Attribution) :
    (d.extended annot file owner a).decl.modifiers.annots ⊆ d.modifiers.annots := by
  rw [extended]
  split
  · exact List.Subset.refl _
  · split <;> exact List.erase_subset

/-- A misused annotation is one of those that are written on the type, and it is marked. -/
theorem Workshop.of_mem_misuses {w : Workshop} {file : Nat} {x : QualifiedName × TypeDecl}
    {y : Misuse} (h : y ∈ w.misuses file x) :
    y.file = file ∧ y.type = x.1 ∧ y.annot ∈ x.2.modifiers.annots ∧
      ∃ marker ∈ w.markers, marker.marks y.annot := by
  obtain ⟨name, d⟩ := x
  rw [misuses] at h
  dsimp only at h ⊢
  -- a marker works on what those before it made of the type, which adds no annotation
  generalize w.markers = markers at h ⊢
  induction markers generalizing d with
  | nil => exact absurd h List.not_mem_nil
  | cons marker markers ih =>
    rw [misusesOf] at h
    cases hfind : marker.find? d.modifiers with
    | none =>
      simp only [hfind] at h
      obtain ⟨hfile, htype, hannot, m, hm, hmarks⟩ := ih d h
      exact ⟨hfile, htype, hannot, m, List.mem_cons_of_mem _ hm, hmarks⟩
    | some annot =>
      have hannots := d.annots_extended annot file name.hash (.start w.registry w.files)
      simp only [hfind] at h
      generalize d.extended annot file name.hash (.start w.registry w.files) = done at h hannots
      have hrest (h : y ∈ w.misusesOf file name markers done.decl) :
          y.file = file ∧ y.type = name ∧ y.annot ∈ d.modifiers.annots ∧
            ∃ m ∈ marker :: markers, m.marks y.annot := by
        obtain ⟨hfile, htype, hannot, m, hm, hmarks⟩ := ih done.decl h
        exact ⟨hfile, htype, hannots hannot, m, List.mem_cons_of_mem _ hm, hmarks⟩
      cases houtcome : done.outcome with
      | usageError e =>
        simp only [houtcome] at h
        rcases List.mem_cons.mp h with rfl | h
        · exact ⟨rfl, rfl, List.mem_of_find?_eq_some hfind, marker, List.mem_cons_self,
            List.find?_some hfind⟩
        · exact hrest h
      | _ =>
        simp only [houtcome] at h
        exact hrest h

/-! ### Reporting misuses -/

namespace Progress

/-- **Misuses are reported under the current source**, and shown by the applications. -/
structure Reports (p : Progress) (xs : List Misuse) (p' : Progress) : Prop where
  diagnostics : p'.diagnostics
    = p.diagnostics.addAll (xs.map (Misuse.diagnostic p.diagnostics.source))
  applications : p'.applications.filterMap Application.misuse?
    = p.applications.filterMap Application.misuse? ++ xs.map fun x => (x.file, x.type, x.error)

theorem Reports.nil (p : Progress) : Reports p [] p := ⟨by simp, by simp⟩

theorem Reports.append {p p₁ p₂ : Progress} {xs ys : List Misuse} (h : Reports p xs p₁)
    (h' : Reports p₁ ys p₂) : Reports p (xs ++ ys) p₂ where
  diagnostics := by
    rw [h'.diagnostics, h.diagnostics, Diagnostics.source_addAll, Diagnostics.addAll_addAll,
      List.map_append]
  applications := by
    rw [h'.applications, h.applications, List.map_append, List.append_assoc]

end Progress

namespace Workshop

variable (w : Workshop) (file : Nat)

theorem applyAll_reports (name : QualifiedName) (d : TypeDecl) (p : Progress) :
    p.Reports (w.misuses file (name, d)) (w.applyAll file name d p).2 := by
  rw [applyAll, misuses]
  dsimp only
  induction w.markers generalizing d p with
  | nil => exact .nil p
  | cons marker markers ih =>
    rw [List.foldl_cons, misusesOf, apply]
    cases marker.find? d.modifiers with
    | none => exact ih d p
    | some annot =>
      dsimp only
      generalize d.extended annot file name.hash (.start w.registry w.files) = done
      -- nothing but a usage error is reported
      cases houtcome : done.outcome with
      | usageError e =>
        have hfirst : p.Reports [⟨file, name, annot, e⟩]
            ⟨p.diagnostics.addError annot.span e.message,
              p.applications ++ [⟨file, name, .usageError e, done.attribution.passes⟩]⟩ :=
          ⟨rfl, by simp [Application.misuse?]⟩
        exact hfirst.append (ih done.decl _)
      | carriedOut _ | nothingToDo =>
        have hquiet : p.Reports [] ⟨p.diagnostics,
            p.applications ++ [⟨file, name, done.outcome, done.attribution.passes⟩]⟩ :=
          ⟨by simp, by simp [Application.misuse?, houtcome]⟩
        rw [houtcome] at hquiet
        exact hquiet.append (ih done.decl _)

end Workshop

section Processed

variable (w : Workshop) (file : Nat)

mutual

/-- Processing a type reports the misuses on it and on its member types. -/
theorem TypeDecl.processed_reports (name : QualifiedName) : ∀ (d : TypeDecl) (p : Progress),
    p.Reports ((d.listed name).flatMap (w.misuses file)) (d.processed w file name p).2
  | ⟨mods, kind, ident, tps, sup, is, cs, members, span⟩ => by
    intro p
    have hown := w.applyAll_reports file name
      ⟨mods, kind, ident, tps, sup, is, cs, members, span⟩ p
    rw [TypeDecl.listed, List.flatMap_cons, TypeDecl.processed]
    exact hown.append (Member.processed_reports name members _)

theorem Member.processed_reports (outer : QualifiedName) : ∀ (ms : List Member) (p : Progress),
    p.Reports ((Member.listed outer ms).flatMap (w.misuses file))
      (Member.processed w file outer p ms).2
  | [] => fun p => .nil p
  | .type d :: ms => by
    intro p
    rw [Member.listed, List.flatMap_append, Member.processed]
    exact (d.processed_reports (outer.member d.name.name) p).append
      (Member.processed_reports outer ms _)
  | .field .. :: ms | .method .. :: ms | .constructor .. :: ms | .initializer .. :: ms =>
    Member.processed_reports outer ms

end

namespace Workshop

theorem processTypes_reports (package : String) (ds : List TypeDecl) (p : Progress) :
    p.Reports ((ds.flatMap fun d => d.listed ⟨package, d.name.name⟩).flatMap (w.misuses file))
      (w.processTypes file package ds p).2 := by
  induction ds generalizing p with
  | nil => exact .nil p
  | cons d ds ih =>
    rw [processTypes, List.flatMap_cons, List.flatMap_append]
    exact (d.processed_reports w file _ p).append (ih _)

/-- **Misuses are reported file by file**, under the name of the file, and no source is current in
the end. -/
theorem processFiles_reports (k : Nat) (fs : List SourceFile) (p : Progress) :
    (w.processFiles k fs p).2.diagnostics = ⟨p.diagnostics.items ++ (fs.zipIdx k).flatMap fun x =>
        (x.1.misuses w x.2).map (Misuse.diagnostic (some x.1.name)), none⟩ ∧
      (w.processFiles k fs p).2.applications.filterMap Application.misuse?
        = p.applications.filterMap Application.misuse? ++ (fs.zipIdx k).flatMap fun x =>
          (x.1.misuses w x.2).map fun y => (y.file, y.type, y.error) := by
  induction fs generalizing k p with
  | nil => exact ⟨by simp [processFiles, Diagnostics.setSource], by simp [processFiles]⟩
  | cons f fs ih =>
    have hfirst := w.processTypes_reports k f.scope.package f.unit.types
      ⟨p.diagnostics.setSource (some f.name), p.applications⟩
    obtain ⟨hdiagnostics, happlications⟩ := ih (k + 1)
      (w.processTypes k f.scope.package f.unit.types
        ⟨p.diagnostics.setSource (some f.name), p.applications⟩).2
    rw [processFiles, List.zipIdx_cons, List.flatMap_cons, List.flatMap_cons]
    refine ⟨?_, ?_⟩
    · rw [hdiagnostics, hfirst.diagnostics, Diagnostics.items_addAll, List.append_assoc]
      rfl
    · rw [happlications, hfirst.applications, List.append_assoc]
      rfl

end Workshop

end Processed

/-! ### Places -/

section Places

variable {source : List Char}

mutual

/-- The types that are declared in a sound type are sound. -/
theorem TypeDecl.listed_sound : ∀ (d : TypeDecl) (name : QualifiedName), d.extent.Sound source →
    ∀ x ∈ d.listed name, x.2.extent.Sound source
  | ⟨mods, kind, ident, tps, sup, is, cs, members, span⟩, name, h => by
    rw [TypeDecl.listed]
    refine List.forall_mem_cons.mpr ⟨h, Member.listed_sound members name fun y hy => ?_⟩
    refine (h.parts y ?_).1
    simp only [List.mem_append, List.mem_cons]
    tauto

theorem Member.listed_sound : ∀ (ms : List Member) (outer : QualifiedName),
    (∀ y ∈ Member.extents ms, y.Sound source) →
      ∀ x ∈ Member.listed outer ms, x.2.extent.Sound source
  | [], _, _ => nofun
  | .type d :: ms, outer, h => by
    rw [Member.listed]
    exact List.forall_mem_append.mpr ⟨d.listed_sound _ (h _ List.mem_cons_self),
      Member.listed_sound ms outer fun y hy => h y (List.mem_cons_of_mem _ hy)⟩
  | .field .. :: ms, outer, h | .method .. :: ms, outer, h | .constructor .. :: ms, outer, h
  | .initializer .. :: ms, outer, h =>
    Member.listed_sound ms outer fun y hy => h y (List.mem_cons_of_mem _ hy)

end

variable {d : TypeDecl} (h : d.extent.Sound source)
include h

/-- The annotations on a sound type stand in the source. -/
theorem TypeDecl.annots_liesIn : ∀ a ∈ d.modifiers.annots, a.span.LiesIn source := by
  obtain ⟨⟨flags, as, s⟩, kind, ident, tps, sup, is, cs, members, span⟩ := d
  intro a ha
  have hannots : ∀ y ∈ Annot.extents as, y.Sound source := by
    intro y hy
    by_cases hs : s = .absent
    · exact (h.parts y (by simp [Modifiers.extents, hs, hy])).1
    · have hmodifiers := (h.parts (.node s none (Annot.extents as)) (by
        simp [Modifiers.extents, hs])).1
      exact (hmodifiers.parts y hy).1
  rw [Annot.extents_eq_map] at hannots
  have hspan : a.extent.span = a.span := by
    cases a
    rfl
  exact hspan ▸ (hannots _ (List.mem_map_of_mem ha)).liesIn

/-- The types in the signature of a member of a sound type stand in the source. -/
theorem Member.signatureTypes_liesIn {m : Member} (hm : m ∈ d.members) :
    ∀ t ∈ m.signatureTypes, t.span.LiesIn source := by
  obtain ⟨mods, kind, ident, tps, sup, is, cs, members, span⟩ := d
  have hmember : m.extent.Sound source := by
    refine (h.parts _ ?_).1
    simp only [Member.extents_eq_map, List.mem_append, List.mem_cons]
    exact .inr (.inr (.inr (.inr (.inr (.inr (List.mem_map_of_mem hm))))))
  have hparam {p : Param} (hp : p.extent.Sound source) : p.type.span.LiesIn source := by
    obtain ⟨pm, t, varargs, i, ps⟩ := p
    exact t.span_extent ▸ (hp.parts t.extent (by simp)).1.liesIn
  intro t ht
  cases m with
  | field fm ft vs s =>
    rw [List.mem_singleton.mp ht, ← ft.span_extent]
    exact (hmember.parts ft.extent (by simp)).1.liesIn
  | method mm mtps result i ps ts dv b s =>
    rcases List.mem_append.mp ht with ht | ht
    · obtain ⟨p, hp, rfl⟩ := List.mem_map.mp ht
      refine hparam (hmember.parts p.extent ?_).1
      simp only [Param.extents_eq_map, List.mem_append, List.mem_cons]
      exact .inr (.inr (.inr (.inr (.inl (List.mem_map_of_mem hp)))))
    · rw [List.mem_singleton.mp ht, ← result.span_extent]
      exact (hmember.parts result.extent (by simp)).1.liesIn
  | constructor cm ctps i ps ts b s =>
    obtain ⟨p, hp, rfl⟩ := List.mem_map.mp ht
    refine hparam (hmember.parts p.extent ?_).1
    simp only [Param.extents_eq_map, List.mem_append, List.mem_cons]
    exact .inr (.inr (.inr (.inl (List.mem_map_of_mem hp))))
  | initializer st b s => exact absurd ht List.not_mem_nil
  | type e => exact absurd ht List.not_mem_nil

/-- What is wrong in the signatures of a sound type stands in the source. -/
theorem Context.complaints_liesIn (c : Context) (owner : TypeHash) :
    ∀ x ∈ c.complaints owner d, x.1.LiesIn source := by
  have hcomplaint {c : Context} {t : TypeExpr} (ht : t.span.LiesIn source) :
      ∀ x ∈ c.complaint t, x.1.LiesIn source := by
    rw [complaint]
    cases c.base t with
    | ok h => exact fun x hx => absurd hx List.not_mem_nil
    | error e => exact List.forall_mem_singleton.mpr ht
  have hsupertype : ∀ t ∈ d.interfaces ++ (writtenSuperclass owner d).toList,
      t.span.LiesIn source := by
    intro t ht
    rw [← t.span_extent]
    obtain ⟨mods, kind, ident, tps, sup, is, cs, members, span⟩ := d
    refine (h.parts _ ?_).1.liesIn
    simp only [List.mem_append, List.mem_cons]
    rcases List.mem_append.mp ht with ht | ht
    · exact .inr (.inr (.inr (.inr (.inl (List.mem_map_of_mem ht)))))
    · have hsup : t ∈ sup.toList := by
        rw [writtenSuperclass] at ht
        split at ht
        · exact ht
        · exact absurd ht List.not_mem_nil
      exact .inr (.inr (.inr (.inl (List.mem_map_of_mem hsup))))
  intro x hx
  rcases List.mem_append.mp hx with hx | hx
  · obtain ⟨t, ht, hx⟩ := List.mem_flatMap.mp hx
    exact hcomplaint (hsupertype t ht) x hx
  · obtain ⟨m, hm, hx⟩ := List.mem_flatMap.mp hx
    obtain ⟨t, ht, hx⟩ := List.mem_flatMap.mp hx
    exact hcomplaint (Member.signatureTypes_liesIn h hm t ht) x hx

end Places

/-! ### Builds -/

/-- Every source is read into a file of its own. -/
theorem forall₂_sourceFiles (n : Nat) (sources : List (String × String)) :
    List.Forall₂ (fun s f => f.name = s.1 ∧ ∃ k, f.unit = (parseUnit s.2.toList k).unit) sources
      (sourceFiles (parseSources n sources)) := by
  induction sources generalizing n with
  | nil => exact .nil
  | cons s ss ih => exact .cons ⟨rfl, n, rfl⟩ (ih _)

/-- Lists that are related entry by entry are related at every place. -/
theorem rel_getElem? {α β : Type} {R : α → β → Prop} {as : List α} {bs : List β}
    (h : List.Forall₂ R as bs) (i : Nat) : Option.Rel R as[i]? bs[i]? := by
  induction h generalizing i with
  | nil => exact .none
  | cons hfirst _ ih =>
    cases i with
    | zero => exact .some hfirst
    | succ i => exact ih i

namespace BuildUnit

/-- The types among which the signatures in a unit are understood. -/
def found (u : BuildUnit) : Registry :=
  Registration.found (baseRegistry u.options.prelude) u.files.zipIdx

/-- **A source of a unit, the file of a number, and what it was read into.** All that is wrong in
the file stands in the text of the source, and a misused annotation is one that is written on a type
of the file and is marked. -/
structure Locates (u : BuildUnit) (i : Nat) (s : String × String) (f : SourceFile) : Prop where
  name : f.name = s.1
  unit : ∃ n, f.unit = (parseUnit s.2.toList n).unit
  errors : ∀ e ∈ (parseUnit s.2.toList 0).errors, e.span.LiesIn s.2.toList
  complaints : ∀ x ∈ f.complaints u.found, x.1.LiesIn s.2.toList
  misuses : ∀ x ∈ f.misuses u.workshop i, x.annot.span.LiesIn s.2.toList ∧ x.file = i ∧
    ∃ y ∈ f.listed, y.1 = x.type ∧ x.annot ∈ y.2.modifiers.annots ∧
      ∃ marker ∈ u.options.markers, marker.marks x.annot

theorem locates (u : BuildUnit) {i : Nat} {s : String × String} {f : SourceFile}
    (hname : f.name = s.1) (hunit : ∃ n, f.unit = (parseUnit s.2.toList n).unit) :
    u.Locates i s f := by
  have hsound : ∀ x ∈ f.listed, x.2.extent.Sound s.2.toList := by
    obtain ⟨n, hunit⟩ := hunit
    intro x hx
    obtain ⟨d, hd, hx⟩ := List.mem_flatMap.mp hx
    refine d.listed_sound _ (((parseUnit_sound s.2.toList n).2.1.parts _ ?_).1) x hx
    rw [hunit] at hd
    exact List.mem_append_right _ (List.mem_append_right _ (List.mem_map_of_mem hd))
  refine ⟨hname, hunit, fun e he => ((parseUnit_sound s.2.toList 0).1 e he).span, fun x hx => ?_,
    fun x hx => ?_⟩
  · obtain ⟨y, hy, hx⟩ := List.mem_flatMap.mp hx
    exact Context.complaints_liesIn (hsound y hy) _ _ x hx
  · obtain ⟨y, hy, hx⟩ := List.mem_flatMap.mp hx
    obtain ⟨hfile, htype, hannot, hmarker⟩ := Workshop.of_mem_misuses hx
    exact ⟨TypeDecl.annots_liesIn (hsound y hy) _ hannot, hfile, y, hy, htype.symm, hannot, hmarker⟩

/-- Warnings name the file of the type that they are about. -/
theorem diagnostics_warnings (u : BuildUnit) (h : u.registration.isSuccess) :
    (u.registration.warnings.map fun x => (⟨.warning, (u.files[x.1]?).map SourceFile.name, x.2.1,
        x.2.2.message⟩ : Diagnostic))
      = u.files.flatMap fun f =>
        (f.complaints u.found).map (RegistrationFault.diagnostic f.name) := by
  have hwarnings : u.registration.warnings = u.files.zipIdx.flatMap fun x =>
      (x.1.complaints u.found).map (x.2, ·) := by
    rw [registration, (Registration.run_of_fresh (Registration.fresh_of_isSuccess h)).2.2,
      Registration.entries, List.flatMap_assoc]
    exact congrArg (List.flatMap · _)
      (funext fun x => x.1.flatMap_entries_complaints x.2 u.found)
  have hfst := List.zipIdx_map_fst 0 u.files
  rw [hwarnings, List.map_flatMap]
  conv_rhs => rw [← hfst, List.flatMap_map]
  refine List.flatMap_congr fun x hx => ?_
  rw [List.map_map]
  refine List.map_congr_left fun y hy => ?_
  rw [Function.comp_apply, List.mem_zipIdx_iff_getElem?.mp hx]
  rfl

end BuildUnit

/-- **What a build of a unit reports**, in this order: file by file the parse errors, file by file
the types in signatures that mean nothing, and file by file the misused annotations, which are those
that show in the applications. -/
structure BuildOutput.Reports (out : BuildOutput) (u : BuildUnit) : Prop where
  items : out.diagnostics.items =
    (u.sources.flatMap fun s => (parseUnit s.2.toList 0).errors.map (·.diagnostic s.1)) ++
      (u.files.flatMap fun f => (f.complaints u.found).map (RegistrationFault.diagnostic f.name)) ++
      u.files.zipIdx.flatMap fun x =>
        (x.1.misuses u.workshop x.2).map (Misuse.diagnostic (some x.1.name))
  misuses : out.applications.filterMap Application.misuse? = u.files.zipIdx.flatMap fun x =>
    (x.1.misuses u.workshop x.2).map fun y => (y.file, y.type, y.error)
  /-- Every file was read from the source of its number. -/
  files : ∀ i : Nat, Option.Rel (u.Locates i) u.sources[i]? u.files[i]?
  /-- So every diagnostic names a source, and stands in it. -/
  located : ∀ x ∈ out.diagnostics.items, ∃ s ∈ u.sources,
    x.source = some s.1 ∧ x.span.LiesIn s.2.toList
  source : out.diagnostics.source = none

namespace BuildUnit

/-- The file of a number was read from the source of this number. -/
theorem rel_files (u : BuildUnit) (i : Nat) :
    Option.Rel (u.Locates i) u.sources[i]? u.files[i]? := by
  have hread := rel_getElem? (forall₂_sourceFiles 0 u.sources) i
  rw [files]
  generalize u.sources[i]? = s, (sourceFiles (parseSources 0 u.sources))[i]? = f at hread
  cases hread with
  | none => exact .none
  | some h => exact .some (u.locates h.1 h.2)

theorem exists_source {u : BuildUnit} {i : Nat} {f : SourceFile} (h : u.files[i]? = some f) :
    ∃ s ∈ u.sources, u.Locates i s f := by
  have hrel := u.rel_files i
  rw [h] at hrel
  cases hs : u.sources[i]? with
  | none =>
    rw [hs] at hrel
    cases hrel
  | some s =>
    rw [hs] at hrel
    cases hrel with
    | some hlocates => exact ⟨s, List.mem_of_getElem? hs, hlocates⟩

/-- **Diagnostics name the file that they arose in**, in every build that succeeds. -/
theorem build_reports {u v : BuildUnit} {out : BuildOutput} (h : u.build = .ok (out, v)) :
    out.Reports u := by
  obtain ⟨hsuccess, -, hdiagnostics, happlications⟩ := output_of_ok (output_of_build h)
  obtain ⟨hreports, hmisuses⟩ := u.workshop.processFiles_reports 0 u.files ⟨u.reported, []⟩
  have hreported : u.reported.items =
      (u.sources.flatMap fun s => (parseUnit s.2.toList 0).errors.map (·.diagnostic s.1)) ++
        u.files.flatMap fun f =>
          (f.complaints u.found).map (RegistrationFault.diagnostic f.name) := by
    rw [reported, Diagnostics.reportWarnings_eq, Diagnostics.reportErrors_eq, flatMap_failedFiles,
      diagnostics_warnings u hsuccess]
    rfl
  have hitems := congrArg Diagnostics.items (hdiagnostics.trans hreports)
  rw [hreported] at hitems
  refine ⟨hitems, happlications ▸ hmisuses, u.rel_files, fun x hx => ?_,
    congrArg Diagnostics.source (hdiagnostics.trans hreports)⟩
  rw [hitems] at hx
  -- an error of parsing, then a complaint of registration, then a misuse
  rcases List.mem_append.mp hx with hx | hx
  · rcases List.mem_append.mp hx with hx | hx
    · obtain ⟨s, hs, hx⟩ := List.mem_flatMap.mp hx
      obtain ⟨e, he, rfl⟩ := List.mem_map.mp hx
      exact ⟨s, hs, rfl, ((parseUnit_sound s.2.toList 0).1 e he).span⟩
    · obtain ⟨f, hf, hx⟩ := List.mem_flatMap.mp hx
      obtain ⟨y, hy, rfl⟩ := List.mem_map.mp hx
      obtain ⟨i, hi⟩ := List.getElem?_of_mem hf
      obtain ⟨s, hs, hlocates⟩ := exists_source hi
      exact ⟨s, hs, congrArg some hlocates.name, hlocates.complaints y hy⟩
  · obtain ⟨⟨f, i⟩, hf, hx⟩ := List.mem_flatMap.mp hx
    obtain ⟨y, hy, rfl⟩ := List.mem_map.mp hx
    obtain ⟨s, hs, hlocates⟩ := exists_source (List.mem_zipIdx_iff_getElem?.mp hf)
    exact ⟨s, hs, congrArg some hlocates.name, (hlocates.misuses y hy).1⟩

namespace Sample

/-- Two files: a parse error and a type that is not found in the first one, and a misused annotation
on a type in a type in the second one. -/
def faulty : BuildUnit where
  options := ⟨false, true, [.standard]⟩
  sources := [
    ("A", "class A \x7b\n  Missing m;\n  int = 3;\n\x7d"),
    ("B",
      "class B \x7b\n  class C \x7b @ExtensionMethod(A.class) interface I \x7b \x7d \x7d\n\x7d")]
  isBuilt := false

end Sample

/-- In `Sample.faulty`, every diagnostic names its file. -/
theorem build_reports_faulty : ∃ out v, Sample.faulty.build = .ok (out, v) ∧
    out.diagnostics.items.map (fun x => (x.severity, x.source, x.span))
      = [(.error, some "A", ⟨29, 1, 3, 7⟩), (.warning, some "A", ⟨12, 7, 2, 3⟩),
        (.error, some "B", ⟨22, 25, 2, 13⟩)] ∧
    out.Reports Sample.faulty := by
  have hfound : (Sample.faulty.build.toOption.map fun r =>
        r.1.diagnostics.items.map fun x => (x.severity, x.source, x.span))
      = some [(.error, some "A", ⟨29, 1, 3, 7⟩), (.warning, some "A", ⟨12, 7, 2, 3⟩),
        (.error, some "B", ⟨22, 25, 2, 13⟩)] := by decide +kernel
  cases hbuild : Sample.faulty.build with
  | error e =>
    rw [hbuild] at hfound
    cases hfound
  | ok r =>
    rw [hbuild] at hfound
    exact ⟨r.1, r.2, rfl, Option.some.inj hfound, build_reports hbuild⟩

end BuildUnit

end JavaGraft

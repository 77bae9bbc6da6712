import JavaGraft.Build.Unit
import JavaGraft.Proofs.Build.Processing
import JavaGraft.Proofs.Grammar.Numbering
import JavaGraft.Proofs.Registration.Order

/-!
# The order of sources

The sources of a unit are parsed, registered and processed one after the other, and the calls in
them are numbered through. Still the order in which they were added does not matter
(`JavaGraft.BuildUnit.build_perm`): the numbers of the calls aside, every file becomes the same, and
the same is said of the annotations on each type.
-/

namespace JavaGraft

/-! ### Parsing -/

/-- The file of a source, the calls numbered from zero on. -/
def SourceFile.ofSource (s : String × String) : SourceFile := ⟨s.1, (parseUnit s.2.toList 0).unit⟩

/-- The errors of a source. -/
def sourceErrors (s : String × String) : String × List ParseError :=
  (s.1, (parseUnit s.2.toList 0).errors)

/-- **Sources are parsed independently of each other**, but for the numbers of the calls. -/
theorem parseSources_spec (n : Nat) (sources : List (String × String)) :
    SourceFile.Renumbered (sources.map SourceFile.ofSource) (sourceFiles (parseSources n sources)) ∧
      failedFiles (parseSources n sources)
        = (sources.map sourceErrors).filter fun x => !x.2.isEmpty := by
  have herrors : (parseSources n sources).map (fun x => (x.1, x.2.errors))
      = sources.map sourceErrors := by
    induction sources generalizing n with
    | nil => rfl
    | cons s ss ih =>
      rw [parseSources, parseUnit_shift, List.map_cons, List.map_cons, ih]
      rfl
  refine ⟨?_, congrArg (List.filter _) herrors⟩
  clear herrors
  induction sources generalizing n with
  | nil => exact .nil
  | cons s ss ih =>
    rw [parseSources, parseUnit_shift]
    exact .cons ⟨n, rfl⟩ (ih _)

/-! ### Errors -/

namespace Diagnostics

theorem hasErrors_foldl_addError (ds : Diagnostics) (errors : List ParseError) :
    (errors.foldl (fun ds e => ds.addError e.span e.fault.message) ds).hasErrors
      = (ds.hasErrors || !errors.isEmpty) := by
  induction errors generalizing ds with
  | nil => simp
  | cons e es ih =>
    rw [List.foldl_cons, ih, hasErrors_addError]
    simp

theorem hasErrors_reportErrors (ds : Diagnostics) (failed : List (String × List ParseError)) :
    (reportErrors ds failed).hasErrors
      = (ds.hasErrors || failed.any fun x => !x.2.isEmpty) := by
  have hfold : ∀ (failed : List (String × List ParseError)) (ds : Diagnostics),
      (failed.foldl (fun ds x =>
        x.2.foldl (fun ds e => ds.addError e.span e.fault.message) (ds.setSource (some x.1)))
        ds).hasErrors = (ds.hasErrors || failed.any fun x => !x.2.isEmpty) := by
    intro failed ds
    induction failed generalizing ds with
    | nil => simp
    | cons f fs ih =>
      rw [List.foldl_cons, ih, hasErrors_foldl_addError, List.any_cons, ← Bool.or_assoc]
      rfl
  exact hfold failed ds

/-- Warnings are no errors. -/
theorem hasErrors_reportWarnings (ds : Diagnostics) (files : List SourceFile)
    (warnings : List (Nat × Span × RegistrationFault)) :
    (reportWarnings ds files warnings).hasErrors = ds.hasErrors := by
  have hwarning : ∀ (ds : Diagnostics) (s : Span) (message : String),
      (ds.addWarning s message).hasErrors = ds.hasErrors := by
    intro ds s message
    simp [hasErrors, ofSeverity, addWarning, push]
  have hfold : ∀ (warnings : List (Nat × Span × RegistrationFault)) (ds : Diagnostics),
      (warnings.foldl (fun ds x =>
        (ds.setSource ((files[x.1]?).map SourceFile.name)).addWarning x.2.1 x.2.2.message)
        ds).hasErrors = ds.hasErrors := by
    intro warnings ds
    induction warnings generalizing ds with
    | nil => rfl
    | cons x xs ih =>
      rw [List.foldl_cons, ih, hwarning]
      rfl
  exact hfold warnings ds

end Diagnostics

/-! ### Known types -/

theorem Prelude.nodup_names_registryOf (files : List SourceFile) :
    (registryOf files).names.Nodup :=
  Registration.nodup_names_run (show Registry.empty.names.Nodup from List.nodup_nil) files

/-- The types that are known beforehand have different names. -/
theorem nodup_names_baseRegistry (prelude : Bool) : (baseRegistry prelude).names.Nodup := by
  rw [baseRegistry]
  split
  · exact Prelude.nodup_names_registryOf Prelude.sources
  · exact List.nodup_nil

/-! ### What comes of a unit -/

namespace BuildUnit

/-- The files of a unit, the calls of each numbered from zero on. -/
def bases (u : BuildUnit) : List SourceFile := u.sources.map SourceFile.ofSource

/-- The files of a unit, the calls numbered through. -/
def files (u : BuildUnit) : List SourceFile := sourceFiles (parseSources 0 u.sources)

/-- Whether there is a parse error in some source. -/
def hasParseErrors (u : BuildUnit) : Bool := !(failedFiles (parseSources 0 u.sources)).isEmpty

/-- The registration of the types in a unit. -/
def registration (u : BuildUnit) : Registration :=
  Registration.run (baseRegistry u.options.prelude) u.files

/-- **The names involved in a build**: those of the types in the sources, and those that are known
beforehand. -/
def typeNames (u : BuildUnit) : List QualifiedName :=
  u.bases.flatMap SourceFile.typeNames ++ (baseRegistry u.options.prelude).names

theorem renumbered_files (u : BuildUnit) : SourceFile.Renumbered u.bases u.files :=
  (parseSources_spec 0 u.sources).1

/-- What is reported before the annotations are carried out. -/
def reported (u : BuildUnit) : Diagnostics :=
  reportWarnings (reportErrors .empty (failedFiles (parseSources 0 u.sources))) u.files
    u.registration.warnings

/-- The files of a unit, processed. -/
def processed (u : BuildUnit) : List SourceFile × Progress :=
  Workshop.processFiles ⟨u.options.markers, u.registration.registry, u.files⟩ 0 u.files
    ⟨u.reported, []⟩

theorem output_eq (u : BuildUnit) : u.output =
    if !u.options.lenient && u.hasParseErrors then
      .error (.parseErrors (failedFiles (parseSources 0 u.sources)))
    else if !u.registration.isSuccess then .error (.registration u.registration.faults)
    else
      .ok ⟨u.processed.1, u.processed.2.diagnostics, u.processed.2.applications,
        u.registration.registry⟩ := rfl

/-- When something comes of a unit. -/
theorem isOk_output (u : BuildUnit) :
    u.output.isOk = ((u.options.lenient || !u.hasParseErrors) && u.registration.isSuccess) := by
  rw [output_eq]
  cases u.options.lenient <;> cases u.hasParseErrors <;> cases u.registration.isSuccess <;> rfl

theorem output_of_ok {u : BuildUnit} {out : BuildOutput} (h : u.output = .ok out) :
    u.registration.isSuccess ∧ out.files = u.processed.1 ∧
      out.diagnostics = u.processed.2.diagnostics ∧
      out.applications = u.processed.2.applications := by
  rw [output_eq] at h
  split at h
  · cases h
  · split at h
    · cases h
    · next hsuccess =>
      cases h
      exact ⟨by simpa using hsuccess, rfl, rfl, rfl⟩

/-- Before the annotations are carried out, all errors are parse errors. -/
theorem hasErrors_reported (u : BuildUnit) : u.reported.hasErrors = u.hasParseErrors := by
  rw [reported, Diagnostics.hasErrors_reportWarnings, Diagnostics.hasErrors_reportErrors,
    hasParseErrors, show Diagnostics.empty.hasErrors = false from rfl, Bool.false_or]
  -- Every file that counts as failed brings an error.
  have hall : ∀ x ∈ failedFiles (parseSources 0 u.sources), (!x.2.isEmpty) = true :=
    fun x hx => (List.mem_filter.mp hx).2
  cases hfailed : failedFiles (parseSources 0 u.sources) with
  | nil => rfl
  | cons x xs =>
    rw [hfailed] at hall
    obtain ⟨name, errors⟩ := x
    have hfirst : (!errors.isEmpty) = true := hall _ List.mem_cons_self
    simp only [List.any_cons, hfirst, Bool.true_or, List.isEmpty_cons, Bool.not_false]

/-- **What comes of a unit**: every file becomes what becomes of it alone, among the registered
types, and the annotations are those found in the files alone, one file after the other. -/
theorem output_spec {u : BuildUnit} {out : BuildOutput} (h : u.output = .ok out) {r : Registry}
    (hr : r.Agrees u.registration.registry) :
    SourceFile.Renumbered (u.bases.map fun b => (b.alone u.options.markers r).1) out.files ∧
      out.applications = (u.bases.zipIdx.flatMap fun x =>
        (x.1.alone u.options.markers r).2.map (Application.inFile x.2)) ∧
      out.diagnostics.hasErrors
        = (u.hasParseErrors || out.applications.any Application.isMisuse) := by
  obtain ⟨-, hfiles, hdiagnostics, happlications⟩ := output_of_ok h
  obtain ⟨hrenumbered, hadds⟩ := Workshop.processFiles_spec
    (w := ⟨u.options.markers, u.registration.registry, u.files⟩) hr u.renumbered_files 0
    (fun i => by rw [Nat.zero_add]) ⟨u.reported, []⟩
  rw [hfiles, hdiagnostics, happlications]
  have happlications : u.processed.2.applications = _ := hadds.applications
  have herrors : u.processed.2.diagnostics.hasErrors = _ := hadds.hasErrors
  rw [List.nil_append] at happlications
  rw [happlications, herrors, hasErrors_reported]
  exact ⟨hrenumbered, rfl, rfl⟩

/-! ### Another order -/

/-- Lists of which no two say something are put together in any order. -/
theorem flatMap_perm {α β : Type} {f : α → List β} {xs ys : List α} (h : xs.Perm ys)
    (hf : xs.Pairwise fun x y => f x = [] ∨ f y = []) : xs.flatMap f = ys.flatMap f := by
  induction h with
  | nil => rfl
  | cons x _ ih => rw [List.flatMap_cons, List.flatMap_cons, ih (List.pairwise_cons.mp hf).2]
  | swap x y zs =>
    rw [List.flatMap_cons, List.flatMap_cons, List.flatMap_cons, List.flatMap_cons]
    rcases (List.pairwise_cons.mp hf).1 x List.mem_cons_self with hx | hx <;> simp [hx]
  | trans h₁ _ ih₁ ih₂ =>
    exact (ih₁ hf).trans (ih₂ ((h₁.pairwise_iff fun hxy => hxy.symm).mp hf))

/-- What is said of the annotations on the type of a dotted name: what became of each, and how many
members were typed for it. -/
def verdicts (xs : List Application) (dotted : String) : List (ExtensionOutcome × Nat) :=
  (xs.filter (·.type.text == dotted)).map fun x => (x.outcome, x.passes)

section Output

variable {u : BuildUnit} {out : BuildOutput} (h : u.output = .ok out) {r : Registry}
  (hr : r.Agrees u.registration.registry)
include h hr

/-- What is said of the annotations on a type is said file by file. -/
theorem verdicts_output (dotted : String) : verdicts out.applications dotted
    = u.bases.flatMap fun b => verdicts (b.alone u.options.markers r).2 dotted := by
  have hfst := List.zipIdx_map_fst 0 u.bases
  rw [verdicts, (output_spec h hr).2.1, List.filter_flatMap, List.map_flatMap]
  conv_rhs => rw [← hfst, List.flatMap_map]
  refine congrArg (List.flatMap · _) (funext fun x => ?_)
  rw [List.filter_map, List.map_map]
  rfl

/-- Whether some annotation is misused shows file by file. -/
theorem any_isMisuse : out.applications.any Application.isMisuse
    = u.bases.any fun b => (b.alone u.options.markers r).2.any Application.isMisuse := by
  have hfst := List.zipIdx_map_fst 0 u.bases
  rw [(output_spec h hr).2.1, List.any_flatMap]
  conv_rhs => rw [← hfst, List.any_map]
  refine congrArg (List.any _) (funext fun x => ?_)
  rw [Function.comp_apply, List.any_map]
  rfl

end Output

/-- **Only one file has something to say of a type.** -/
theorem pairwise_verdicts {u : BuildUnit} (hapart : HashesApart u.typeNames)
    (hsuccess : u.registration.isSuccess) (r : Registry) (dotted : String) :
    u.bases.Pairwise fun b b' => verdicts (b.alone u.options.markers r).2 dotted = [] ∨
      verdicts (b'.alone u.options.markers r).2 dotted = [] := by
  have hnames : u.typeNames.Nodup :=
    (Registration.fresh_renumbered (nodup_names_baseRegistry u.options.prelude)
      u.renumbered_files).mp (Registration.fresh_of_isSuccess hsuccess)
  have hdisjoint := (List.nodup_flatMap.mp (List.nodup_append.mp hnames).1).2
  -- A file that says something declares a type of that dotted name.
  have hdeclares : ∀ b ∈ u.bases, verdicts (b.alone u.options.markers r).2 dotted ≠ [] →
      ∃ n ∈ b.typeNames, n.text = dotted ∧ n ∈ u.typeNames := by
    intro b hb hne
    rw [verdicts, Ne, List.map_eq_nil_iff] at hne
    obtain ⟨x, hx⟩ := List.exists_mem_of_ne_nil _ hne
    obtain ⟨hx, htext⟩ := List.mem_filter.mp hx
    have hmem := b.type_of_mem_alone u.options.markers r x hx
    exact ⟨x.type, hmem, beq_iff_eq.mp htext,
      List.mem_append_left _ (List.mem_flatMap.mpr ⟨b, hb, hmem⟩)⟩
  refine hdisjoint.imp_of_mem fun {b b'} hb hb' hbb' => ?_
  -- Two files that say something would declare types of one dotted name, hence of one identity.
  by_contra hne
  obtain ⟨hne, hne'⟩ := not_or.mp hne
  obtain ⟨n, hn, htext, hnames⟩ := hdeclares b hb hne
  obtain ⟨n', hn', htext', hnames'⟩ := hdeclares b' hb' hne'
  have hhash : n.hash = n'.hash := by
    rw [QualifiedName.hash, QualifiedName.hash, htext, htext']
  exact hbb' hn (hapart n hnames n' hnames' hhash ▸ hn')

/-- When a unit can be built. -/
theorem isOk_build (u : BuildUnit) :
    u.build.isOk = (!u.isBuilt && !u.sources.isEmpty && u.output.isOk) := by
  rw [build]
  cases u.isBuilt with
  | true => rfl
  | false =>
    cases u.sources.isEmpty with
    | true => rfl
    | false => cases u.output <;> rfl

theorem output_of_build {u v : BuildUnit} {out : BuildOutput} (h : u.build = .ok (out, v)) :
    u.output = .ok out := by
  rw [build] at h
  split at h
  · cases h
  · split at h
    · cases h
    · cases houtput : u.output with
      | error e =>
        rw [houtput] at h
        cases h
      | ok out' =>
        rw [houtput] at h
        cases h
        rfl

/-- **Outputs of the same sources in two orders, `sources` and `sources'`.** Of each source there is
the same file but for the numbers of its calls, on each type the same is said of the annotations,
and there are errors in both or in none. -/
structure SameOutput (sources sources' : List (String × String)) (out out' : BuildOutput) :
    Prop where
  files : ∀ (i j : Nat) (s : String × String), sources[i]? = some s → sources'[j]? = some s →
    ∃ (f : SourceFile) (n n' : Nat), f.name = s.1 ∧
      out.files[i]? = some (f.relabeled (.shift n)) ∧
      out'.files[j]? = some (f.relabeled (.shift n'))
  applications : ∀ dotted, (out'.applicationsOn dotted).map (fun x => (x.outcome, x.passes))
    = (out.applicationsOn dotted).map fun x => (x.outcome, x.passes)
  isSuccess : out'.isSuccess = out.isSuccess

section Perm

variable (u : BuildUnit) {sources : List (String × String)} (hsources : u.sources.Perm sources)
include hsources

theorem hasParseErrors_perm : { u with sources }.hasParseErrors = u.hasParseErrors := by
  have hfailed : (failedFiles (parseSources 0 u.sources)).Perm
      (failedFiles (parseSources 0 sources)) := by
    rw [(parseSources_spec 0 u.sources).2, (parseSources_spec 0 sources).2]
    exact (hsources.map _).filter _
  rw [hasParseErrors, hasParseErrors, hfailed.isEmpty_eq]

variable (hapart : HashesApart u.typeNames)
include hapart

theorem registration_perm :
    { u with sources }.registration.isSuccess = u.registration.isSuccess ∧
      (u.registration.isSuccess →
        u.registration.registry.Agrees { u with sources }.registration.registry) := by
  have hbases : u.bases.Perm { u with sources }.bases := hsources.map _
  obtain ⟨hsuccess, hregistry⟩ := Registration.run_order
    (nodup_names_baseRegistry u.options.prelude) u.renumbered_files hapart
    { u with sources }.renumbered_files hbases
  refine ⟨hsuccess, fun h => ?_⟩
  obtain ⟨hdistinct, hperm⟩ := hregistry h
  exact Registry.agrees_of_perm hperm hdistinct

/-- **The order of sources does not matter.** If no two of the names involved have the same
identity, a unit can be built with its sources in one order if and only if it can be built with
them in another, and the outputs are the same. -/
theorem build_perm :
    { u with sources }.build.isOk = u.build.isOk ∧
      ∀ out v out' v', u.build = .ok (out, v) → { u with sources }.build = .ok (out', v') →
        SameOutput u.sources sources out out' := by
  obtain ⟨hsuccess, hagree⟩ := registration_perm u hsources hapart
  have herrors := hasParseErrors_perm u hsources
  constructor
  · rw [isOk_build, isOk_build, isOk_output, isOk_output, hsuccess, herrors, hsources.isEmpty_eq]
  · intro out v out' v' hbuild hbuild'
    have houtput := output_of_build hbuild
    have houtput' := output_of_build hbuild'
    have hregistered := (output_of_ok houtput).1
    obtain ⟨hfiles, -, hhas⟩ := output_spec houtput (.refl _)
    obtain ⟨hfiles', -, hhas'⟩ := output_spec houtput' (hagree hregistered)
    have hbases : u.bases.Perm { u with sources }.bases := hsources.map _
    refine ⟨fun i j s hi hj => ?_, fun dotted => ?_, ?_⟩
    -- Both files come from the one that the source makes up alone.
    · have halone : ∀ {ss : List (String × String)} {i : Nat}, ss[i]? = some s →
          ((ss.map SourceFile.ofSource).map fun b =>
            (b.alone u.options.markers u.registration.registry).1)[i]?
          = some ((SourceFile.ofSource s).alone u.options.markers u.registration.registry).1 := by
        intro ss i hs
        rw [List.getElem?_map, List.getElem?_map, hs]
        rfl
      obtain ⟨n, hn⟩ := hfiles.getElem? (halone hi)
      obtain ⟨n', hn'⟩ := hfiles'.getElem? (halone hj)
      exact ⟨_, n, n', rfl, hn, hn'⟩
    · have hverdicts := verdicts_output houtput (.refl _) dotted
      have hverdicts' := verdicts_output houtput' (hagree hregistered) dotted
      have hsame := flatMap_perm hbases (pairwise_verdicts hapart hregistered
        u.registration.registry dotted)
      exact hverdicts'.trans (hsame.symm.trans hverdicts.symm)
    · rw [BuildOutput.isSuccess, BuildOutput.isSuccess, hhas, hhas', herrors,
        any_isMisuse houtput (.refl _), any_isMisuse houtput' (hagree hregistered),
        hbases.any_eq]

end Perm

/-! ### Two sources -/

namespace Sample

/-- A class with a method, and a class that asks for it. -/
def unit : BuildUnit where
  options := ⟨false, false, [.standard]⟩
  sources := [
    ("Ext", "class Ext \x7b public static int tag(Object o) \x7b return 1; \x7d \x7d"),
    ("T", "@ExtensionMethod(Ext.class) class T \x7b int f(T t) \x7b return t.tag(); \x7d \x7d")]
  isBuilt := false

end Sample

/-- The two sources of `Sample.unit` can be built in both orders, with the same output. -/
theorem build_perm_sample :
    Sample.unit.build.isOk = true ∧
      { Sample.unit with sources := Sample.unit.sources.reverse }.build.isOk
        = Sample.unit.build.isOk ∧
      ∀ out v out' v', Sample.unit.build = .ok (out, v) →
        { Sample.unit with sources := Sample.unit.sources.reverse }.build = .ok (out', v') →
          SameOutput Sample.unit.sources Sample.unit.sources.reverse out out' :=
  ⟨by decide +kernel,
    Sample.unit.build_perm (List.reverse_perm Sample.unit.sources).symm (by decide +kernel)⟩

end BuildUnit

end JavaGraft

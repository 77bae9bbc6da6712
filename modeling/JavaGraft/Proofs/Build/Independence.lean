import JavaGraft.Proofs.Build.Listing

/-!
# Annotations on different types

What an annotation on one type does is no business of other types, be they around the type, in it or
in other files. If a unit can be built, it can be built without an annotation on one of its types,
and then the own code of every other type becomes the same as before, and the same is said of its
annotations (`JavaGraft.BuildUnit.build_independent`).

There are two ways from an annotation to another type. Annotations of other types are carried out in
files that still hold it; but only the own code of a type goes into the verdict on it
(`JavaGraft.Workshop.verdict_alike`). And the registry is made from declarations that carry it; but
nothing in the registry comes from an annotation (`JavaGraft.SourceFile.Loses.essences`).
-/

namespace JavaGraft

/-! ### The same but for labels -/

/-- Types that are the same but for spans and the numbers of calls. -/
def TypeDecl.Alike (d d' : TypeDecl) : Prop :=
  ∃ (e : TypeDecl) (ρ ρ' : Relabeling), ρ.Injective ∧ ρ'.Injective ∧
    d = e.relabeled ρ ∧ d' = e.relabeled ρ'

/-- **The same types, of which those kept have the same own code.** -/
def SameOwn (kept : QualifiedName → Prop) (xs xs' : List (QualifiedName × TypeDecl)) : Prop :=
  List.Forall₂ (fun x x' => x'.1 = x.1 ∧ (kept x.1 → x.2.own.Alike x'.2.own)) xs xs'

namespace Relabeling

theorem Injective.same : same.Injective := ⟨Function.injective_id, Function.injective_id⟩

theorem Injective.andThen {ρ τ : Relabeling} (h : ρ.Injective) (h' : τ.Injective) :
    (ρ.andThen τ).Injective := ⟨h'.call.comp h.call, h'.span.comp h.span⟩

end Relabeling

namespace TypeDecl.Alike

theorem refl (d : TypeDecl) : d.Alike d :=
  ⟨d, .same, .same, .same, .same, d.relabeled_same.symm, d.relabeled_same.symm⟩

/-- Labels that are replaced do not show. -/
theorem relabeled {d d' : TypeDecl} (h : d.Alike d') {ρ ρ' : Relabeling} (hρ : ρ.Injective)
    (hρ' : ρ'.Injective) : (d.relabeled ρ).Alike (d'.relabeled ρ') := by
  obtain ⟨e, τ, τ', hτ, hτ', rfl, rfl⟩ := h
  exact ⟨e, τ.andThen ρ, τ'.andThen ρ', hτ.andThen hρ, hτ'.andThen hρ',
    TypeDecl.relabeled_relabeled τ ρ e, TypeDecl.relabeled_relabeled τ' ρ' e⟩

end TypeDecl.Alike

theorem Member.own_relabeled (ρ : Relabeling) (ms : List Member) :
    Member.own (ms.map (Member.relabeled ρ)) = (Member.own ms).map (Member.relabeled ρ) := by
  rw [own, own, List.filter_map]
  refine congrArg _ (List.filter_congr fun m _ => ?_)
  cases m <;> rfl

theorem TypeDecl.own_relabeled (ρ : Relabeling) (d : TypeDecl) :
    (d.relabeled ρ).own = d.own.relabeled ρ := by
  obtain ⟨mods, kind, n, tps, sup, is, cs, ms, s⟩ := d
  simp only [own, relabeled, Member.allRelabeled_eq_map, Member.own_relabeled]

section Listed

variable (ρ : Relabeling)

mutual

theorem TypeDecl.listed_relabeled (name : QualifiedName) : ∀ d : TypeDecl,
    (d.relabeled ρ).listed name = (d.listed name).map fun x => (x.1, x.2.relabeled ρ)
  | ⟨mods, kind, ident, tps, sup, is, cs, members, span⟩ => by
    rw [TypeDecl.listed, List.map_cons, TypeDecl.relabeled, TypeDecl.listed,
      Member.listed_relabeled name members]

theorem Member.listed_relabeled (outer : QualifiedName) : ∀ ms : List Member,
    Member.listed outer (Member.allRelabeled ρ ms)
      = (Member.listed outer ms).map fun x => (x.1, x.2.relabeled ρ)
  | [] => rfl
  | .type d :: ms => by
    rw [Member.allRelabeled, Member.relabeled, Member.listed, Member.listed, List.map_append,
      TypeDecl.name_relabeled, Ident.name_relabeled, d.listed_relabeled,
      Member.listed_relabeled outer ms]
  | .field .. :: ms | .method .. :: ms | .constructor .. :: ms | .initializer .. :: ms =>
    Member.listed_relabeled outer ms

end

theorem SourceFile.listed_relabeled (f : SourceFile) :
    (f.relabeled ρ).listed = f.listed.map fun x => (x.1, x.2.relabeled ρ) := by
  rw [listed, listed, scope_relabeled, List.map_flatMap, relabeled, SourceUnit.relabeled,
    List.flatMap_map]
  refine congrArg (List.flatMap · _) (funext fun d => ?_)
  rw [TypeDecl.name_relabeled, Ident.name_relabeled, TypeDecl.listed_relabeled]

end Listed

namespace Workshop

theorem Matches.refl (w : Workshop) (file : Nat) : w.Matches file w file := ⟨rfl, .refl _, rfl⟩

variable {w w' : Workshop} {file file' : Nat} (h : w.Matches file w' file')
include h

/-- The verdict on a relabelled type. -/
theorem verdict_relabeled {ρ : Relabeling} (hρ : ρ.Injective) (x : QualifiedName × TypeDecl) :
    w'.verdict file' (x.1, x.2.relabeled ρ)
      = ((w.verdict file x).1.relabeled ρ,
        (w.verdict file x).2.map (Application.inFile file')) := by
  obtain ⟨xs, hstep, -⟩ := applyAll_relabeled h hρ x.1 x.2.own ⟨.empty, []⟩ ⟨.empty, []⟩
  have hleft : (w.verdict file x).2 = xs := hstep.left.applications
  have hright : (w'.verdict file' (x.1, x.2.relabeled ρ)).2
      = xs.map (Application.inFile file') := by
    rw [verdict, TypeDecl.own_relabeled]
    exact hstep.right.applications
  have hvalue : (w'.verdict file' (x.1, x.2.relabeled ρ)).1 = (w.verdict file x).1.relabeled ρ := by
    rw [verdict, TypeDecl.own_relabeled]
    exact hstep.value
  rw [← hvalue, hleft, ← hright]

end Workshop

/-- **The verdicts on types with the same own code**: the own code becomes the same, and the same is
said of the annotations. -/
theorem Workshop.verdict_alike {w w' : Workshop} {file : Nat} (h : w.Matches file w' file)
    {x x' : QualifiedName × TypeDecl} (hname : x'.1 = x.1) (hown : x.2.own.Alike x'.2.own) :
    (w.verdict file x).1.Alike (w'.verdict file x').1 ∧
      (w'.verdict file x').2 = (w.verdict file x).2 := by
  obtain ⟨e, ρ, ρ', hρ, hρ', hx, hx'⟩ := hown
  -- Only the own code goes into a verdict.
  have hverdict : ∀ (w : Workshop) (x : QualifiedName × TypeDecl),
      w.verdict file x = w.verdict file (x.1, x.2.own) := by
    intro w x
    rw [verdict, verdict, TypeDecl.own_own]
  have hleft := verdict_relabeled (Matches.refl w file) hρ (x.1, e)
  have hright := verdict_relabeled h hρ' (x.1, e)
  rw [hverdict w x, hverdict w' x', hx, hx', hname, hleft, hright]
  exact ⟨⟨_, ρ, ρ', hρ, hρ', rfl, rfl⟩, rfl⟩

namespace SourceFile

variable {w w' : Workshop} {file : Nat} (h : w.Matches file w' file)
  {kept : QualifiedName → Prop} {f f' : SourceFile} (hown : SameOwn kept f.listed f'.listed)
include h hown

/-- Types that are kept are kept. -/
theorem sameOwn_made : SameOwn kept (f.made w file).listed (f'.made w' file).listed := by
  rw [listed_made, listed_made, SameOwn, List.forall₂_map_left_iff, List.forall₂_map_right_iff]
  refine hown.imp fun x x' hx => ⟨hx.1, fun hkept => ?_⟩
  rw [Workshop.remade, Workshop.remade, TypeDecl.own_made, TypeDecl.own_made]
  exact (Workshop.verdict_alike h hx.1 (hx.2 hkept)).1

omit hown in
/-- The same is said of the annotations on types that are kept. -/
theorem filter_applications {q : Nat × QualifiedName → Prop} [DecidablePred q]
    (hown : SameOwn (fun n => q (file, n)) f.listed f'.listed) :
    (f'.applications w' file).filter (fun a => q (a.file, a.type))
      = (f.applications w file).filter fun a => q (a.file, a.type) := by
  rw [applications, applications, List.filter_flatMap, List.filter_flatMap]
  rw [SameOwn] at hown
  generalize f.listed = xs at hown ⊢
  generalize f'.listed = xs' at hown ⊢
  induction hown with
  | nil => rfl
  | @cons x x' xs xs' hx _ ih =>
    have hone : (w'.verdict file x').2.filter (fun a => q (a.file, a.type))
        = (w.verdict file x).2.filter fun a => q (a.file, a.type) := by
      by_cases hkept : q (file, x.1)
      · rw [(Workshop.verdict_alike h hx.1 (hx.2 hkept)).2]
      -- Of what is said of a type that is not kept, nothing is left.
      · have hnone : ∀ (w : Workshop) (y : QualifiedName × TypeDecl), y.1 = x.1 →
            (w.verdict file y).2.filter (fun a => q (a.file, a.type)) = [] := by
          intro w y hy
          refine List.filter_eq_nil_iff.mpr fun a ha => ?_
          obtain ⟨hfile, htype⟩ := w.of_mem_verdict file ha
          rw [hfile, htype, hy]
          simpa using hkept
        rw [hnone w x rfl, hnone w' x' hx.1]
    rw [List.flatMap_cons, List.flatMap_cons, ih, hone]

end SourceFile

/-! ### Without an annotation -/

/-- **A type without an annotation** on the type of the name `target`, which is the type itself or a
type inside it. Since the annotation may have been the first or the last of the modifiers, new spans
are free. -/
inductive TypeDecl.Loses (target : QualifiedName) (annot : Annot) :
    QualifiedName → TypeDecl → TypeDecl → Prop
  | here {d : TypeDecl} (s span : Span) (h : annot ∈ d.modifiers.annots) :
    Loses target annot target d
      { d with modifiers := ⟨d.modifiers.flags, d.modifiers.annots.erase annot, s⟩, span }
  | inside {name : QualifiedName} {d e e' : TypeDecl} {before after : List Member}
      (h : d.members = before ++ .type e :: after)
      (he : Loses target annot (name.member e.name.name) e e') :
    Loses target annot name d { d with members := before ++ .type e' :: after }

/-- A file without an annotation on the type of the name `target`. -/
inductive SourceFile.Loses (target : QualifiedName) (annot : Annot) : SourceFile → SourceFile → Prop
  | intro {f : SourceFile} {d d' : TypeDecl} {before after : List TypeDecl} (span : Span)
      (h : f.unit.types = before ++ d :: after)
      (hd : d.Loses target annot ⟨f.scope.package, d.name.name⟩ d') :
    Loses target annot f { f with unit := { f.unit with types := before ++ d' :: after, span } }

namespace SameOwn

variable {kept : QualifiedName → Prop} {xs xs' ys ys' : List (QualifiedName × TypeDecl)}

theorem refl (kept : QualifiedName → Prop) (xs : List (QualifiedName × TypeDecl)) :
    SameOwn kept xs xs :=
  List.forall₂_same.mpr fun x _ => ⟨rfl, fun _ => .refl x.2.own⟩

theorem append (h : SameOwn kept xs xs') (h' : SameOwn kept ys ys') :
    SameOwn kept (xs ++ ys) (xs' ++ ys') := List.rel_append h h'

/-- Labels that are replaced do not show. -/
theorem relabeled (h : SameOwn kept xs xs') {ρ ρ' : Relabeling} (hρ : ρ.Injective)
    (hρ' : ρ'.Injective) :
    SameOwn kept (xs.map fun x => (x.1, x.2.relabeled ρ))
      (xs'.map fun x => (x.1, x.2.relabeled ρ')) := by
  rw [SameOwn, List.forall₂_map_left_iff, List.forall₂_map_right_iff]
  refine h.imp fun x x' hx => ⟨hx.1, fun hkept => ?_⟩
  rw [TypeDecl.own_relabeled, TypeDecl.own_relabeled]
  exact (hx.2 hkept).relabeled hρ hρ'

theorem mono {kept' : QualifiedName → Prop} (h : SameOwn kept xs xs')
    (hkept : ∀ n, kept' n → kept n) : SameOwn kept' xs xs' :=
  h.imp fun _ _ hx => ⟨hx.1, fun hn => hx.2 (hkept _ hn)⟩

end SameOwn

/-- The member types of members of which one is a type. -/
theorem Member.types_append_type (before after : List Member) (d : TypeDecl) :
    types (before ++ .type d :: after) = types before ++ d :: types after := by
  simp [types, type?]

theorem Member.own_append_type (before after : List Member) (d : TypeDecl) :
    own (before ++ .type d :: after) = own before ++ own after := by
  simp [own, type?]

namespace TypeDecl.Loses

variable {target name : QualifiedName} {annot : Annot} {d d' : TypeDecl}

theorem name_eq (h : d.Loses target annot name d') : d'.name = d.name := by cases h <;> rfl

/-- Only the annotated type loses something of its own code. -/
theorem sameOwn (h : d.Loses target annot name d') :
    SameOwn (· ≠ target) (d.listed name) (d'.listed name) := by
  induction h with
  | @here d s span h =>
    rw [listed_eq, listed_eq]
    exact .cons ⟨rfl, fun hne => absurd rfl hne⟩ (SameOwn.refl (· ≠ target) _)
  | @inside name d e e' before after h he ih =>
    have hown : TypeDecl.own { d with members := before ++ .type e' :: after } = d.own := by
      simp only [own, h, Member.own_append_type]
    rw [listed_eq, listed_eq, h]
    simp only [Member.types_append_type, List.flatMap_append, List.flatMap_cons, he.name_eq]
    refine .cons ⟨rfl, fun _ => hown ▸ .refl _⟩ ?_
    exact (SameOwn.refl _ _).append (ih.append (.refl _ _))

end TypeDecl.Loses

theorem SourceFile.Loses.sameOwn {target : QualifiedName} {annot : Annot} {f f' : SourceFile}
    (h : f.Loses target annot f') : SameOwn (· ≠ target) f.listed f'.listed := by
  cases h with
  | @intro d d' before after span h hd =>
    have hscope : SourceFile.scope { f with
        unit := { f.unit with types := before ++ d' :: after, span } } = f.scope := rfl
    rw [listed, listed, hscope, h]
    simp only [List.flatMap_append, List.flatMap_cons, hd.name_eq]
    exact (SameOwn.refl _ _).append (hd.sameOwn.append (.refl _ _))

/-! ### Registration -/

/-- What registration makes of an entry: the symbol, and what is found for it. -/
def Entry.essence (e : Entry) : TypeSymbol × (Registry → Completion) := (e.1, e.2.completion)

/-- Nothing is found in member types. -/
theorem Pending.completion_own (file : Nat) (scope : FileScope) (hash : TypeHash) (d : TypeDecl) :
    (Pending.mk file scope hash d).completion = (Pending.mk file scope hash d.own).completion := by
  have hmembers : ∀ (c : Context) (ms : List Member),
      (Member.own ms).flatMap (c.memberSymbols hash d.kind)
        = ms.flatMap (c.memberSymbols hash d.kind) := by
    intro c ms
    induction ms with
    | nil => rfl
    | cons m ms ih =>
      cases m with
      | type d => exact ih
      | _ => exact congrArg (_ ++ ·) ih
  funext found
  rw [completion, completion, Completion.mk.injEq]
  refine ⟨rfl, rfl, rfl, ?_⟩
  rw [Context.members, Context.members]
  simp only [TypeDecl.own, hmembers]
  rfl

theorem TypeDecl.entries_eq (file : Nat) (scope : FileScope) (name : QualifiedName)
    (outer : Option (TypeHash × TypeKind)) (d : TypeDecl) :
    d.entries file scope name outer =
      let flags := Declared.nestedFlags (outer.map Prod.snd) d.kind d.modifiers.flags
      let symbol := TypeSymbol.declared name d.kind flags (d.typeParams.map (·.name.name))
        (outer.map Prod.fst)
      (symbol, ⟨file, scope, symbol.hash, d⟩) ::
        (Member.types d.members).flatMap fun e =>
          e.entries file scope (name.member e.name.name) (some (symbol.hash, d.kind)) := by
  have hmembers : ∀ (outer : TypeHash × TypeKind) (ms : List Member),
      Member.entries file scope name outer ms = (Member.types ms).flatMap fun e =>
        e.entries file scope (name.member e.name.name) (some outer) := by
    intro outer ms
    induction ms with
    | nil => rfl
    | cons m ms ih =>
      cases m with
      | type d => rw [Member.entries, ih, Member.types_cons_type, List.flatMap_cons]
      | _ => exact ih
  cases d
  rw [entries, hmembers]

/-- **Nothing in the registry comes from an annotation.** -/
theorem TypeDecl.Loses.essences {target name : QualifiedName} {annot : Annot} {d d' : TypeDecl}
    (h : d.Loses target annot name d') (file : Nat) (scope : FileScope)
    (outer : Option (TypeHash × TypeKind)) :
    (d'.entries file scope name outer).map Entry.essence
      = (d.entries file scope name outer).map Entry.essence := by
  induction h generalizing outer with
  | @here d s span h =>
    rw [entries_eq, entries_eq]
    rfl
  | @inside name d e e' before after h he ih =>
    rw [entries_eq, entries_eq, h]
    simp only [Member.types_append_type, List.flatMap_append, List.flatMap_cons, List.map_cons,
      List.map_append, he.name_eq, ih]
    refine List.cons_eq_cons.mpr ⟨?_, rfl⟩
    simp only [Entry.essence]
    rw [Pending.completion_own, Pending.completion_own _ _ _ d]
    simp only [own, h, Member.own_append_type]

theorem SourceFile.Loses.essences {target : QualifiedName} {annot : Annot} {f f' : SourceFile}
    (h : f.Loses target annot f') (index : Nat) :
    (f'.entries index).map Entry.essence = (f.entries index).map Entry.essence := by
  cases h with
  | @intro d d' before after span h hd =>
    have hscope : SourceFile.scope { f with
        unit := { f.unit with types := before ++ d' :: after, span } } = f.scope := rfl
    rw [entries, entries, hscope, h]
    simp only [List.flatMap_append, List.flatMap_cons, List.map_append, hd.name_eq, hd.essences]

namespace Registration

/-- **What registration comes to is made of the essences of the entries.** -/
theorem run_congr {r : Registry} (hr : r.names.Nodup) {files files' : List SourceFile}
    (h : (entries files'.zipIdx).map Entry.essence = (entries files.zipIdx).map Entry.essence) :
    (run r files').isSuccess = (run r files).isSuccess ∧
      ((run r files).isSuccess → (run r files').registry = (run r files).registry) := by
  have hsymbols : (entries files'.zipIdx).map Prod.fst = (entries files.zipIdx).map Prod.fst := by
    simpa [List.map_map, Entry.essence, Function.comp_def] using congrArg (List.map Prod.fst) h
  have hfound : found r files'.zipIdx = found r files.zipIdx := by rw [found, found, hsymbols]
  have hcompletions : completions r files'.zipIdx = completions r files.zipIdx := by
    simpa [List.map_map, Entry.essence, Function.comp_def, completions, hfound] using
      congrArg (List.map fun x => x.2 (found r files.zipIdx)) h
  have hnames : (entries files'.zipIdx).map Entry.name = (entries files.zipIdx).map Entry.name := by
    rw [show Entry.name = TypeSymbol.name ∘ Prod.fst from rfl, ← List.map_map, hsymbols,
      List.map_map]
  have hfresh : Declared.Fresh ⟨r, [], []⟩ (entries files'.zipIdx) ↔
      Declared.Fresh ⟨r, [], []⟩ (entries files.zipIdx) := by
    rw [Declared.fresh_iff hr, Declared.fresh_iff hr, hnames]
  -- where a type is entered twice, neither of the two succeeds
  by_cases hnew : Declared.Fresh ⟨r, [], []⟩ (entries files.zipIdx)
  · obtain ⟨hregistry, hfaults, -⟩ := run_of_fresh hnew
    obtain ⟨hregistry', hfaults', -⟩ := run_of_fresh (hfresh.mpr hnew)
    rw [hfound, hcompletions, ← hregistry] at hregistry'
    rw [isSuccess, isSuccess, hfaults, hfaults', hregistry']
    exact ⟨rfl, fun _ => rfl⟩
  · have hfails : ∀ {fs : List SourceFile},
        ¬ Declared.Fresh ⟨r, [], []⟩ (entries fs.zipIdx) → (run r fs).isSuccess = false :=
      fun hfs => Bool.eq_false_iff.mpr fun h => hfs (fresh_of_isSuccess h)
    rw [hfails hnew, hfails (mt hfresh.mp hnew)]
    exact ⟨rfl, fun h => absurd h Bool.false_ne_true⟩

end Registration

/-! ### Building -/

/-- **A source without an annotation.** The text is another one in which the annotation is left out:
it is read as the file without the annotation, but for spans and the numbers of calls, and no parse
errors come up. -/
structure SourceLoses (target : QualifiedName) (annot : Annot) (s s' : String × String) : Prop where
  file : ∃ (f : SourceFile) (ρ : Relabeling), ρ.Injective ∧
    (SourceFile.ofSource s).Loses target annot f ∧ SourceFile.ofSource s' = f.relabeled ρ
  errors : (sourceErrors s).2 = [] → (sourceErrors s').2 = []

/-- **Outputs that differ in one type at most**, that of the name `target` in the file of the number
`i`. All other types are there in both with the same own code, and the same is said of their
annotations. -/
structure BuildOutput.SameBut (i : Nat) (target : QualifiedName) (out out' : BuildOutput) :
    Prop where
  files : ∀ (j : Nat) (f : SourceFile), out.files[j]? = some f →
    ∃ f', out'.files[j]? = some f' ∧ SameOwn (fun n => (j, n) ≠ (i, target)) f.listed f'.listed
  applications : out'.applications.filter (fun a => (a.file, a.type) ≠ (i, target))
    = out.applications.filter fun a => (a.file, a.type) ≠ (i, target)

namespace BuildUnit

/-- A unit with another source in the place of the one of a number. -/
def revised (u : BuildUnit) (i : Nat) (s : String × String) : BuildUnit :=
  { u with sources := u.sources.set i s }

section Revised

variable {u : BuildUnit} {i : Nat} {s s' : String × String} (hs : u.sources[i]? = some s)
  {target : QualifiedName} {annot : Annot} (hloses : SourceLoses target annot s s')
include hs hloses

/-- The essences of what is entered stay. -/
theorem essences_revised :
    (Registration.entries (u.revised i s').files.zipIdx).map Entry.essence
      = (Registration.entries u.files.zipIdx).map Entry.essence := by
  have hmoved : ∀ ρ i e, Entry.essence (Entry.moved ρ i e) = e.essence := fun ρ i e =>
    congrArg (Prod.mk e.1) (funext fun found => e.completion_moved (.refl found) ρ i)
  obtain ⟨f, ρ, -, hf, hs'⟩ := hloses.file
  have hsource : ((SourceFile.ofSource s').entries 0).map Entry.essence
      = ((SourceFile.ofSource s).entries 0).map Entry.essence := by
    rw [hs', f.entries_relabeled 0, List.map_map, ← hf.essences 0]
    exact congrArg (List.map · _) (funext fun e => hmoved ρ 0 e)
  -- no other source changes, and what this one enters has the same essences
  have hset : (u.sources.set i s').map
        (fun s => ((SourceFile.ofSource s).entries 0).map Entry.essence)
      = u.sources.map fun s => ((SourceFile.ofSource s).entries 0).map Entry.essence := by
    rw [List.map_set, hsource]
    refine List.ext_getElem? fun j => ?_
    rw [List.getElem?_set]
    split
    · next hij =>
      subst hij
      split
      · rw [List.getElem?_map, hs]
        rfl
      · next hlt =>
        rw [List.length_map] at hlt
        exact absurd (List.getElem?_eq_some_iff.mp hs).1 hlt
    · rfl
  rw [Registration.map_entries hmoved (u.revised i s').renumbered_files,
    Registration.map_entries hmoved u.renumbered_files, bases, bases, List.flatMap_map,
    List.flatMap_map, List.flatMap_def, List.flatMap_def]
  exact congrArg List.flatten hset

/-- The same types are registered. -/
theorem registration_revised :
    (u.revised i s').registration.isSuccess = u.registration.isSuccess ∧
      (u.registration.isSuccess →
        (u.revised i s').registration.registry = u.registration.registry) := by
  have hoptions : (u.revised i s').options = u.options := rfl
  rw [registration, registration, hoptions]
  exact Registration.run_congr (nodup_names_baseRegistry u.options.prelude)
    (essences_revised hs hloses)

/-- **Only the annotated type is another one** in the revised unit. -/
theorem files_revised {j : Nat} {f : SourceFile} (hf : u.files[j]? = some f) :
    ∃ f', (u.revised i s').files[j]? = some f' ∧ f'.scope = f.scope ∧
      SameOwn (fun n => (j, n) ≠ (i, target)) f.listed f'.listed := by
  -- The file is a renumbered one that was read from some source.
  have hlength : u.bases.length = u.files.length := u.renumbered_files.length_eq
  obtain ⟨t, ht⟩ : ∃ t, u.sources[j]? = some t := by
    refine ⟨_, List.getElem?_eq_getElem ?_⟩
    rw [bases, List.length_map] at hlength
    exact hlength ▸ (List.getElem?_eq_some_iff.mp hf).1
  have hbase : u.bases[j]? = some (.ofSource t) := by rw [bases, List.getElem?_map, ht]; rfl
  obtain ⟨n, hn⟩ := u.renumbered_files.getElem? hbase
  obtain rfl := Option.some.inj (hf.symm.trans hn)
  have hrevised : ∀ t', (u.revised i s').sources[j]? = some t' →
      ∃ n', (u.revised i s').files[j]? = some ((SourceFile.ofSource t').relabeled (.shift n')) := by
    intro t' ht'
    refine (u.revised i s').renumbered_files.getElem? ?_
    rw [bases, List.getElem?_map, ht']
    rfl
  by_cases hij : j = i
  · subst hij
    obtain rfl := Option.some.inj (ht.symm.trans hs)
    obtain ⟨g, ρ, hρ, hg, hs'⟩ := hloses.file
    obtain ⟨n', hn'⟩ := hrevised s' (by
      rw [revised, List.getElem?_set_self (List.getElem?_eq_some_iff.mp ht).1])
    have hscope : g.scope = (SourceFile.ofSource t).scope := by cases hg; rfl
    refine ⟨_, hn', by simp only [SourceFile.scope_relabeled, hs', hscope], ?_⟩
    rw [SourceFile.listed_relabeled, SourceFile.listed_relabeled, hs', SourceFile.listed_relabeled]
    have hown := (hg.sameOwn.relabeled Relabeling.Injective.same hρ).relabeled
      (Relabeling.injective_shift n) (Relabeling.injective_shift n')
    simp only [TypeDecl.relabeled_same, List.map_id'] at hown
    exact hown.mono fun m hm h => hm (Prod.ext rfl h)
  · obtain ⟨n', hn'⟩ := hrevised t (by rw [revised, List.getElem?_set_ne (Ne.symm hij), ht])
    refine ⟨_, hn', by simp only [SourceFile.scope_relabeled], ?_⟩
    rw [SourceFile.listed_relabeled, SourceFile.listed_relabeled]
    exact (SameOwn.refl _ _).relabeled (Relabeling.injective_shift n)
      (Relabeling.injective_shift n')

/-- Under each number, both units have a file, and these are processed alike. -/
theorem processed_alike (h : u.registration.isSuccess) {j : Nat} {f : SourceFile}
    (hf : u.files[j]? = some f) :
    ∃ f', (u.revised i s').files[j]? = some f' ∧
      u.workshop.Matches j (u.revised i s').workshop j ∧
      SameOwn (fun n => (j, n) ≠ (i, target)) f.listed f'.listed := by
  obtain ⟨f', hf', hscope, hown⟩ := files_revised hs hloses hf
  have hregistry : u.workshop.registry.Agrees (u.revised i s').workshop.registry := by
    rw [workshop, workshop, (registration_revised hs hloses).2 h]
    exact .refl _
  refine ⟨f', hf', ⟨rfl, hregistry, ?_⟩, hown⟩
  rw [workshop, workshop, hf, hf', Option.map_some, Option.map_some, hscope]

theorem hasParseErrors_revised (h : (u.revised i s').hasParseErrors) : u.hasParseErrors := by
  have hany : ∀ u : BuildUnit, u.hasParseErrors ↔ ∃ t ∈ u.sources, (sourceErrors t).2 ≠ [] := by
    intro u
    rw [hasParseErrors, (parseSources_spec 0 u.sources).2, Bool.not_eq_true', ← Bool.not_eq_true,
      List.isEmpty_iff, List.filter_eq_nil_iff, List.forall_mem_map]
    simp only [Bool.not_eq_true', List.isEmpty_eq_false_iff, ne_eq, not_forall, not_not,
      exists_prop]
  obtain ⟨t, ht, herrors⟩ := (hany _).mp h
  rcases List.mem_or_eq_of_mem_set ht with ht | rfl
  · exact (hany u).mpr ⟨t, ht, herrors⟩
  · exact (hany u).mpr ⟨s, List.mem_of_getElem? hs, mt hloses.errors herrors⟩

/-- The revised unit can be built if the unit can be. -/
theorem isOk_build_revised (h : u.build.isOk) : (u.revised i s').build.isOk := by
  have hbuilt : (u.revised i s').isBuilt = u.isBuilt := rfl
  have hoptions : (u.revised i s').options = u.options := rfl
  have hempty : (u.revised i s').sources.isEmpty = u.sources.isEmpty := by
    rw [revised, Bool.eq_iff_iff, List.isEmpty_iff_length_eq_zero,
      List.isEmpty_iff_length_eq_zero, List.length_set]
  rw [isOk_build, isOk_output] at h ⊢
  rw [(registration_revised hs hloses).1, hempty, hbuilt, hoptions]
  simp only [Bool.and_eq_true, Bool.or_eq_true, Bool.not_eq_true', ← Bool.not_eq_true] at h ⊢
  exact ⟨h.1, h.2.1.imp_right (mt (hasParseErrors_revised hs hloses)), h.2.2⟩

omit hs hloses in
theorem length_files_revised : (u.revised i s').files.length = u.files.length := by
  have hlength : ∀ u : BuildUnit, u.files.length = u.sources.length := fun u => by
    rw [← u.renumbered_files.length_eq, bases, List.length_map]
  rw [hlength, hlength, revised, List.length_set]

end Revised

/-- **Annotations on different types are independent.** If a unit can be built, so it can be without
an annotation on one type; and all other types become the same, in that file and in others. -/
theorem build_independent {u v : BuildUnit} {out : BuildOutput} (h : u.build = .ok (out, v))
    {i : Nat} {s s' : String × String} (hs : u.sources[i]? = some s) {target : QualifiedName}
    {annot : Annot} (hloses : SourceLoses target annot s s') :
    ∃ out' v', (u.revised i s').build = .ok (out', v') ∧ out.SameBut i target out' := by
  have houtput := output_of_build h
  have hregistered := (output_of_ok houtput).1
  have hbuilds := isOk_build_revised hs hloses (by rw [h]; rfl)
  obtain ⟨out', v', h'⟩ : ∃ out' v', (u.revised i s').build = .ok (out', v') := by
    cases h' : (u.revised i s').build with
    | error e =>
      rw [h'] at hbuilds
      exact absurd hbuilds Bool.false_ne_true
    | ok r => exact ⟨r.1, r.2, rfl⟩
  have happlications := (output_made houtput).2
  have happlications' := (output_made (output_of_build h')).2
  -- file by file, what is made agrees but for the one type
  have hpair := fun {j f} => processed_alike hs hloses hregistered (j := j) (f := f)
  refine ⟨out', v', h', fun j F hF => ?_, ?_⟩
  · rw [getElem?_files_output houtput, Option.map_eq_some_iff] at hF
    obtain ⟨f, hf, rfl⟩ := hF
    obtain ⟨f', hf', hmatches, hown⟩ := hpair hf
    refine ⟨f'.made (u.revised i s').workshop j, ?_, SourceFile.sameOwn_made hmatches hown⟩
    rw [getElem?_files_output (output_of_build h'), hf', Option.map_some]
  · rw [happlications, happlications', List.filter_flatMap, List.filter_flatMap,
      List.flatMap_def, List.flatMap_def]
    refine congrArg List.flatten (List.ext_getElem? fun j => ?_)
    rw [List.getElem?_map, List.getElem?_map, List.getElem?_zipIdx, List.getElem?_zipIdx]
    cases hf : u.files[j]? with
    | none =>
      have hlength : (u.revised i s').files.length = u.files.length := length_files_revised
      rw [List.getElem?_eq_none_iff, ← hlength, ← List.getElem?_eq_none_iff] at hf
      simp only [hf, Option.map_none]
    | some f =>
      obtain ⟨f', hf', hmatches, hown⟩ := hpair hf
      rw [hf', Nat.zero_add]
      exact congrArg some
        (SourceFile.filter_applications (q := (· ≠ (i, target))) hmatches hown)

namespace Sample

/-- A class with an annotated class inside, after the text that is given. -/
def around (text : String) : String × String :=
  ("T", text ++ "class T \x7b @ExtensionMethod(Ext.class) class N \x7b int f = tag(); \x7d \x7d")

/-- The class is annotated as well. -/
def annotated : BuildUnit where
  options := ⟨false, false, [.standard]⟩
  sources := [("Ext", "class Ext \x7b public static int tag(Object o) \x7b return 1; \x7d \x7d"),
    around "@ExtensionMethod(Ext.class) "]
  isBuilt := false

/-- As many blanks as the annotation is long. -/
def blanks : String := "                            "

/-- With the annotation blanked out, the class is read without it. -/
theorem sourceLoses : ∃ annot,
    SourceLoses ⟨"", "T"⟩ annot (around "@ExtensionMethod(Ext.class) ") (around blanks) := by
  obtain ⟨f, hf⟩ : ∃ f, f = SourceFile.ofSource (around "@ExtensionMethod(Ext.class) ") := ⟨_, rfl⟩
  obtain ⟨f', hf'⟩ : ∃ f', f' = SourceFile.ofSource (around blanks) := ⟨_, rfl⟩
  -- The class is the one type of the file, and has the one annotation.
  have hcount : f.unit.types.map (fun d => (d.name.name, d.modifiers.annots.length)) = [("T", 1)] ∧
      f.scope.package = "" := by
    rw [hf]
    decide +kernel
  have hunit : f' = { f with unit := { f.unit with
      types := List.zipWith (fun d d' => { d with
        modifiers := ⟨d.modifiers.flags, [], d'.modifiers.span⟩, span := d'.span })
          f.unit.types f'.unit.types
      span := f'.unit.span } } := by
    rw [hf, hf']
    decide +kernel
  obtain ⟨htypes, hpackage⟩ := hcount
  obtain ⟨d, hd, hname⟩ := List.map_eq_singleton_iff.mp htypes
  obtain ⟨hname, hannots⟩ := Prod.mk.inj hname
  obtain ⟨annot, hannot⟩ := List.length_eq_one_iff.mp hannots
  have hlength : f'.unit.types.length = 1 := by
    rw [hf']
    decide +kernel
  obtain ⟨d', hd'⟩ := List.length_eq_one_iff.mp hlength
  have hmem : annot ∈ d.modifiers.annots := by rw [hannot]; exact List.mem_singleton_self _
  have hloses : d.Loses ⟨f.scope.package, d.name.name⟩ annot ⟨f.scope.package, d.name.name⟩ _ :=
    .here d'.modifiers.span d'.span hmem
  have hsplit : f.unit.types = [] ++ d :: [] := hd
  have hfile := SourceFile.Loses.intro f'.unit.span hsplit hloses
  rw [hpackage, hname, hannot, List.erase_cons_head] at hfile
  refine ⟨annot, ?_, fun _ => by decide +kernel⟩
  rw [← hf, ← hf']
  refine ⟨_, .same, .same, hfile, hunit.trans ?_⟩
  rw [SourceFile.relabeled, SourceUnit.relabeled_same, hd, hd']
  rfl

end Sample

/-- In `Sample.annotated`, the annotation on the outer class can be left out. -/
theorem build_independent_sample : ∃ out v out' v', Sample.annotated.build = .ok (out, v) ∧
    out.applications.map (·.type.text) = ["T", "T.N"] ∧
    (Sample.annotated.revised 1 (Sample.around Sample.blanks)).build = .ok (out', v') ∧
    out.SameBut 1 ⟨"", "T"⟩ out' := by
  have hfound : (Sample.annotated.build.toOption.map fun r =>
      r.1.applications.map (·.type.text)) = some ["T", "T.N"] := by decide +kernel
  obtain ⟨annot, hloses⟩ := Sample.sourceLoses
  cases hbuild : Sample.annotated.build with
  | error e =>
    rw [hbuild] at hfound
    cases hfound
  | ok r =>
    rw [hbuild] at hfound
    obtain ⟨out', v', hbuild', hsame⟩ := build_independent (i := 1) hbuild rfl hloses
    exact ⟨r.1, r.2, out', v', rfl, Option.some.inj hfound, hbuild', hsame⟩

end BuildUnit

end JavaGraft

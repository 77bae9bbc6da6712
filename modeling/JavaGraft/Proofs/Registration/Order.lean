import JavaGraft.Proofs.Registration.Phases
import JavaGraft.Proofs.Scope.Answers

/-!
# The order of files

Types are declared file by file, in order. That order does not show in what is registered: the
files are accepted in one order if and only if they are accepted in another, and then the same types
are registered, with the same supertypes and members (`JavaGraft.Registration.run_order`). All this
holds if no two names have the same identity, for otherwise the type declared last would stand for
the others.

Nor do the labels in the files show, or the numbers of the files.
-/

namespace JavaGraft

/-! ### Different names -/

/-- **No two of the names have the same identity.** -/
def HashesApart (names : List QualifiedName) : Prop :=
  ∀ n ∈ names, ∀ n' ∈ names, n.hash = n'.hash → n = n'

instance (names : List QualifiedName) : Decidable (HashesApart names) :=
  inferInstanceAs (Decidable (∀ n ∈ names, ∀ n' ∈ names, n.hash = n'.hash → n = n'))

/-- The names of the registered types. -/
def Registry.names (r : Registry) : List QualifiedName := r.latestFirst.map TypeSymbol.name

namespace Registry

/-- Different names of different identities keep types apart. -/
theorem distinct_of_names {r : Registry} {names : List QualifiedName} (hnames : r.names.Nodup)
    (hapart : HashesApart names) (hsub : r.names ⊆ names) : r.Distinct := by
  rw [Distinct, show r.latestFirst.map TypeSymbol.hash = r.names.map QualifiedName.hash by
    rw [Registry.names, List.map_map]
    exact List.map_congr_left fun t _ => t.hash_eq]
  exact List.Nodup.map_on (fun n hn n' hn' => hapart n (hsub hn) n' (hsub hn')) hnames

theorem nodup_names_register {r r' : Registry} {t : TypeSymbol} (h : r.register t = .ok r')
    (hr : r.names.Nodup) : r'.names.Nodup := by
  rw [register] at h
  split at h
  · cases h
  · next hknown =>
    cases h
    rw [Bool.not_eq_true, Option.isSome_eq_false_iff, Option.isNone_iff_eq_none, find?,
      List.find?_eq_none] at hknown
    refine List.nodup_cons.mpr ⟨fun hmem => ?_, hr⟩
    obtain ⟨u, hu, hname⟩ := List.mem_map.mp hmem
    exact hknown u hu (beq_iff_eq.mpr hname)

end Registry

namespace Declared

mutual

/-- Whatever is declared, names stay different. -/
theorem nodup_names_declare (s : Declared) (file : Nat) (scope : FileScope) (name : QualifiedName)
    (outer : Option (TypeHash × TypeKind)) : ∀ d : TypeDecl, s.registry.names.Nodup →
    (s.declare file scope name outer d).registry.names.Nodup
  | ⟨mods, kind, ident, tps, sup, is, cs, members, span⟩ => by
    intro h
    rw [declare]
    split
    · exact h
    · next registry hregister =>
      exact nodup_names_declareMembers _ file scope name _ members
        (Registry.nodup_names_register hregister h)

theorem nodup_names_declareMembers (s : Declared) (file : Nat) (scope : FileScope)
    (name : QualifiedName) (outer : TypeHash × TypeKind) : ∀ ms : List Member,
    s.registry.names.Nodup → (s.declareMembers file scope name outer ms).registry.names.Nodup
  | [] => id
  | .type d :: ms => fun h =>
    nodup_names_declareMembers _ file scope name outer ms
      (nodup_names_declare s file scope (name.member d.name.name) (some outer) d h)
  | .field .. :: ms | .method .. :: ms | .constructor .. :: ms | .initializer .. :: ms =>
    nodup_names_declareMembers s file scope name outer ms

end

theorem nodup_names_declareFile (s : Declared) (file : SourceFile) (index : Nat)
    (h : s.registry.names.Nodup) : (s.declareFile file index).registry.names.Nodup := by
  rw [declareFile]
  induction file.unit.types generalizing s with
  | nil => exact h
  | cons d ds ih => exact ih _ (nodup_names_declare s _ _ _ none d h)

end Declared

namespace Registration

/-- **No two registered types have the same name.** -/
theorem nodup_names_run {r : Registry} (hr : r.names.Nodup) (files : List SourceFile) :
    (run r files).registry.names.Nodup := by
  -- Declaring keeps names different, and entering what was found changes no names.
  have hdeclared : ∀ (fs : List (SourceFile × Nat)) (s : Declared), s.registry.names.Nodup →
      (fs.foldl (fun s f => s.declareFile f.1 f.2) s).registry.names.Nodup := by
    intro fs s hs
    induction fs generalizing s with
    | nil => exact hs
    | cons f fs ih => exact ih _ (s.nodup_names_declareFile f.1 f.2 hs)
  have hentered : ∀ (done : List Completion) (r : Registry),
      (done.foldl Completion.enter r).names = r.names := map_entered fun _ _ => rfl
  have hrun := hdeclared files.zipIdx ⟨r, [], []⟩ hr
  rw [← hentered] at hrun
  exact hrun

end Registration

/-! ### Labels and numbers of files -/

/-- What is entered, with the labels replaced that are left to be looked at, as part of the file of
another number. -/
def Entry.moved (ρ : Relabeling) (file : Nat) (e : Entry) : Entry :=
  (e.1, ⟨file, e.2.scope, e.2.hash, e.2.decl.relabeled ρ⟩)

section Relabeled

variable {ρ : Relabeling}

mutual

theorem TypeDecl.entries_relabeled (file file' : Nat) (scope : FileScope) (name : QualifiedName)
    (outer : Option (TypeHash × TypeKind)) : ∀ d : TypeDecl,
    (d.relabeled ρ).entries file' scope name outer
      = (d.entries file scope name outer).map (Entry.moved ρ file')
  | ⟨⟨flags, as, s⟩, kind, ident, tps, sup, is, cs, members, span⟩ => by
    have htypeParams := TypeParam.names_relabeled ρ tps
    rw [TypeDecl.entries, List.map_cons, ← Member.entries_relabeled file file' scope name _ members,
      TypeDecl.relabeled, Modifiers.relabeled, TypeDecl.entries]
    simp only [htypeParams]
    rfl

theorem Member.entries_relabeled (file file' : Nat) (scope : FileScope) (name : QualifiedName)
    (outer : TypeHash × TypeKind) : ∀ ms : List Member,
    Member.entries file' scope name outer (Member.allRelabeled ρ ms)
      = (Member.entries file scope name outer ms).map (Entry.moved ρ file')
  | [] => rfl
  | .type d :: ms => by
    rw [Member.allRelabeled, Member.relabeled, Member.entries, Member.entries, List.map_append,
      TypeDecl.name_relabeled, Ident.name_relabeled, TypeDecl.entries_relabeled file,
      Member.entries_relabeled file]
  | .field .. :: ms | .method .. :: ms | .constructor .. :: ms | .initializer .. :: ms =>
    Member.entries_relabeled file file' scope name outer ms

end

theorem SourceFile.entries_relabeled (f : SourceFile) (index index' : Nat) :
    (f.relabeled ρ).entries index' = (f.entries index).map (Entry.moved ρ index') := by
  have hscope : (f.relabeled ρ).scope = f.scope := f.scope_relabeled ρ
  rw [entries, entries, hscope, relabeled, SourceUnit.relabeled, List.flatMap_map,
    List.map_flatMap]
  refine congrArg (List.flatMap · _) (funext fun d => ?_)
  rw [TypeDecl.name_relabeled, Ident.name_relabeled, TypeDecl.entries_relabeled index]

end Relabeled

/-! ### What is found for a type -/

namespace Context

variable {c : Context} {r : Registry} (h : c.registry.Agrees r) (ρ : Relabeling)
include h

theorem typeOrObject_against (t : TypeExpr) :
    (c.against r).typeOrObject (t.relabeled ρ) = c.typeOrObject t := by
  rw [typeOrObject, typeOrObject, type_against h, TypeExpr.dims_relabeled]

/-- The symbols of a relabelled member. -/
theorem memberSymbols_against (owner : TypeHash) (kind : TypeKind) (m : Member) :
    (c.against r).memberSymbols owner kind (m.relabeled ρ) = c.memberSymbols owner kind m := by
  -- All that a symbol takes from the place is what the types in the member mean.
  have htype : ∀ names t, ((c.against r).addTypeVars names).typeOrObject (t.relabeled ρ)
      = (c.addTypeVars names).typeOrObject t := fun names t =>
    typeOrObject_against (c := c.addTypeVars names) h ρ t
  have htakes : ∀ ps : List Param, takesAny (ps.map (Param.relabeled ρ)) = takesAny ps := by
    intro ps
    rw [takesAny, takesAny, List.getLast?_map, Option.any_map]
    exact congrArg (Option.any · ps.getLast?) (funext fun p => by cases p; rfl)
  have hparams : ∀ (names : List String) (ps : List Param),
      (ps.map (Param.relabeled ρ)).map (((c.against r).addTypeVars names).typeOrObject ·.type)
        = ps.map ((c.addTypeVars names).typeOrObject ·.type) := by
    intro names ps
    rw [List.map_map]
    refine congrArg (List.map · ps) (funext fun p => ?_)
    obtain ⟨m, t, varargs, n, s⟩ := p
    exact htype names t
  cases m with
  | field mods t vars s =>
    obtain ⟨flags, as, ms⟩ := mods
    simp only [memberSymbols, Member.relabeled, Member.typeVars, Modifiers.relabeled,
      VarDeclarator.allRelabeled_eq_map, List.map_map, htype]
    refine congrArg (List.map · vars) (funext fun v => ?_)
    cases v
    rfl
  | method mods tps t n ps ts d b s =>
    obtain ⟨flags, as, ms⟩ := mods
    simp only [memberSymbols, Member.relabeled, Member.typeVars, Modifiers.relabeled,
      Param.allRelabeled_eq_map, Block.optionRelabeled_eq_map, Option.isSome_map, htakes, hparams,
      TypeParam.names_relabeled, Ident.name_relabeled, htype]
    rfl
  | constructor mods tps n ps ts b s =>
    obtain ⟨flags, as, ms⟩ := mods
    simp only [memberSymbols, Member.relabeled, Member.typeVars, Modifiers.relabeled,
      Param.allRelabeled_eq_map, htakes, hparams, TypeParam.names_relabeled]
  | initializer st b s => rfl
  | type d => rfl

theorem members_against (owner : TypeHash) (d : TypeDecl) :
    (c.against r).members owner (d.relabeled ρ) = c.members owner d := by
  obtain ⟨mods, kind, n, tps, sup, is, cs, ms, s⟩ := d
  have hconstants : (cs.map (EnumConstant.relabeled ρ)).map (constantSymbol owner ·.name.name)
      = cs.map (constantSymbol owner ·.name.name) := by
    rw [List.map_map]
    exact congrArg (List.map · cs) (funext fun x => by cases x <;> rfl)
  simp only [members, TypeDecl.relabeled, EnumConstant.allRelabeled_eq_map, hconstants,
    Member.allRelabeled_eq_map, List.flatMap_map, memberSymbols_against h]

theorem superclass_against (owner : TypeHash) (d : TypeDecl) :
    (c.against r).superclass owner (d.relabeled ρ) = c.superclass owner d := by
  obtain ⟨mods, kind, n, tps, sup, is, cs, ms, s⟩ := d
  have hwritten : writtenSuperclass owner
        (TypeDecl.relabeled ρ ⟨mods, kind, n, tps, sup, is, cs, ms, s⟩)
      = (writtenSuperclass owner ⟨mods, kind, n, tps, sup, is, cs, ms, s⟩).map
          (TypeExpr.relabeled ρ) :=
    (apply_ite (Option.map (TypeExpr.relabeled ρ)) _ sup none).symm
  have hbase : ∀ t, (c.against r).base (t.relabeled ρ) = c.base t := base_against h ρ
  have htext : (c.against r).registry.ofText? = c.registry.ofText? := funext fun n => h.get? _
  simp only [superclass, hwritten, Option.bind_map, Function.comp_def, hbase, htext]
  rfl

theorem interfaces_against (d : TypeDecl) :
    (c.against r).interfaces (d.relabeled ρ) = c.interfaces d := by
  obtain ⟨mods, kind, n, tps, sup, is, cs, ms, s⟩ := d
  have hbase : ∀ t, (c.against r).base (t.relabeled ρ) = c.base t := base_against h ρ
  simp only [interfaces, TypeDecl.relabeled, List.filterMap_map, Function.comp_def, hbase]

end Context

/-- **The same is found for a type** whatever the labels in it and the number of its file are. -/
theorem Entry.completion_moved {found found' : Registry} (h : found.Agrees found') (ρ : Relabeling)
    (file : Nat) (e : Entry) :
    (e.moved ρ file).2.completion found' = e.2.completion found := by
  have hagree : (e.2.context found).registry.Agrees found' := h
  have hsuper := Context.superclass_against hagree ρ e.2.hash e.2.decl
  have hinterfaces := Context.interfaces_against hagree ρ e.2.decl
  have hmembers := Context.members_against hagree ρ e.2.hash e.2.decl
  rw [Pending.completion, Pending.completion, Completion.mk.injEq]
  exact ⟨rfl, hsuper, hinterfaces, hmembers⟩

/-! ### Cycles -/

namespace Registry

theorem loops_congr {r r' : Registry} (h : ∀ x, r'.get? x = r.get? x) (n : Nat)
    (seen : List TypeHash) (x : TypeHash) : r'.loops n seen x = r.loops n seen x := by
  induction n generalizing seen x with
  | zero => rfl
  | succ n ih => simp only [loops, h, ih]

/-- Whether there is a cycle does not depend on the order of declaration. -/
theorem isSome_cycle?_perm {r r' : Registry} (h : r.latestFirst.Perm r'.latestFirst)
    (hr : r.Distinct) : r'.cycle?.isSome = r.cycle?.isSome := by
  have hget := (agrees_of_perm h hr).get?
  have hcount : r'.count = r.count := h.length_eq.symm
  have hany : ∀ q : TypeSymbol → Bool, (r'.types.find? q).isSome = (r.types.find? q).isSome := by
    intro q
    rw [Bool.eq_iff_iff, List.find?_isSome, List.find?_isSome]
    simp only [types, List.mem_reverse, h.mem_iff]
  simp only [cycle?, Option.isSome_map, hany, hcount, loops_congr hget]

end Registry

/-! ### Registering in another order -/

/-- The names of the types that a file declares. -/
def SourceFile.typeNames (f : SourceFile) : List QualifiedName := (f.entries 0).map Entry.name

/-- Names are new if all names together differ. -/
theorem Declared.fresh_iff {r : Registry} (hr : r.names.Nodup) (es : List Entry) :
    Fresh ⟨r, [], []⟩ es ↔ (es.map Entry.name ++ r.names).Nodup := by
  have hnew : (∀ e ∈ es, ∀ t ∈ r.latestFirst, t.name ≠ e.name) ↔
      ∀ n ∈ es.map Entry.name, ∀ n' ∈ r.names, n ≠ n' := by
    simp only [Registry.names, List.forall_mem_map]
    exact ⟨fun h e he t ht => (h e he t ht).symm, fun h e he t ht => (h e he t ht).symm⟩
  rw [Fresh, List.nodup_append, hnew]
  exact ⟨fun h => ⟨h.1, hr, h.2⟩, fun h => ⟨h.1, h.2.2⟩⟩

namespace Registration

/-- What does not depend on labels and numbers is read off the files as given. -/
theorem map_entries {α : Type} {g : Entry → α} (hg : ∀ ρ i e, g (Entry.moved ρ i e) = g e)
    {bases files : List SourceFile} (h : SourceFile.Renumbered bases files) (k : Nat) :
    (entries (files.zipIdx k)).map g = bases.flatMap fun b => (b.entries 0).map g := by
  induction h generalizing k with
  | nil => rfl
  | @cons b f bases files hf _ ih =>
    obtain ⟨n, rfl⟩ := hf
    have hfirst : ((b.relabeled (.shift n)).entries k).map g = (b.entries 0).map g := by
      rw [b.entries_relabeled 0, List.map_map]
      exact congrArg (List.map · _) (funext fun e => hg _ _ e)
    rw [List.zipIdx_cons, entries, List.flatMap_cons, List.map_append, List.flatMap_cons]
    exact congr (congrArg List.append hfirst) (ih (k + 1))

section Order

variable {r : Registry} (hr : r.names.Nodup) {bases files : List SourceFile}
  (hfiles : SourceFile.Renumbered bases files)
include hr hfiles

theorem fresh_renumbered : Declared.Fresh ⟨r, [], []⟩ (entries files.zipIdx) ↔
    (bases.flatMap SourceFile.typeNames ++ r.names).Nodup := by
  rw [Declared.fresh_iff hr, map_entries (fun _ _ _ => rfl) hfiles]
  rfl

variable (hapart : HashesApart (bases.flatMap SourceFile.typeNames ++ r.names))
  (hfresh : Declared.Fresh ⟨r, [], []⟩ (entries files.zipIdx))
include hapart hfresh

theorem distinct_found_renumbered : (found r files.zipIdx).Distinct := by
  have hnames : (found r files.zipIdx).names
      = (bases.flatMap SourceFile.typeNames).reverse ++ r.names := by
    have hname : ∀ ρ i e, Entry.name (Entry.moved ρ i e) = e.name := fun _ _ _ => rfl
    rw [Registry.names, found, List.map_append, List.map_reverse, List.map_map]
    exact congrArg (fun ns => ns.reverse ++ r.names) (map_entries hname hfiles 0)
  have hperm : (found r files.zipIdx).names.Perm
      (bases.flatMap SourceFile.typeNames ++ r.names) := by
    rw [hnames]
    exact (List.reverse_perm _).append_right _
  exact Registry.distinct_of_names (hperm.nodup_iff.mpr ((fresh_renumbered hr hfiles).mp hfresh))
    hapart hperm.subset

theorem distinct_run_renumbered : (run r files).registry.Distinct := by
  rw [Registry.Distinct, (run_of_fresh hfresh).1, hashes_entered]
  exact distinct_found_renumbered hr hfiles hapart hfresh

variable {bases' files' : List SourceFile} (hfiles' : SourceFile.Renumbered bases' files')
  (hperm : bases.Perm bases')
include hfiles' hperm

omit hr hapart hfresh in
theorem found_perm :
    (found r files.zipIdx).latestFirst.Perm (found r files'.zipIdx).latestFirst := by
  have hsymbol : ∀ ρ i e, Prod.fst (Entry.moved ρ i e) = Prod.fst e := fun _ _ _ => rfl
  rw [found, found, map_entries hsymbol hfiles, map_entries hsymbol hfiles']
  refine List.Perm.append_right _ ?_
  exact (List.reverse_perm _).trans ((hperm.flatMap_right _).trans (List.reverse_perm _).symm)

omit hapart hfresh in
/-- Names are new in both orders or in none. -/
theorem fresh_perm : Declared.Fresh ⟨r, [], []⟩ (entries files.zipIdx) ↔
    Declared.Fresh ⟨r, [], []⟩ (entries files'.zipIdx) := by
  have hnames : (bases.flatMap SourceFile.typeNames ++ r.names).Perm
      (bases'.flatMap SourceFile.typeNames ++ r.names) :=
    (hperm.flatMap_right _).append_right _
  rw [fresh_renumbered hr hfiles, fresh_renumbered hr hfiles', hnames.nodup_iff]

theorem completions_perm : (completions r files.zipIdx).Perm (completions r files'.zipIdx) := by
  -- Both first phases come to the same types in some order, so they give the same answers and
  -- the same is found for every type.
  have hagree := Registry.agrees_of_perm (found_perm hfiles hfiles' hperm)
    (distinct_found_renumbered hr hfiles hapart hfresh)
  have hmoved : ∀ (found : Registry) ρ i (e : Entry),
      (e.moved ρ i).2.completion found = e.2.completion found :=
    fun found ρ i e => e.completion_moved (.refl found) ρ i
  rw [completions, completions, map_entries (hmoved _) hfiles, map_entries (hmoved _) hfiles']
  have hsame : (fun e : Entry => e.2.completion (found r files'.zipIdx))
      = fun e => e.2.completion (found r files.zipIdx) :=
    funext fun e => (hmoved _ .same 0 e).symm.trans (e.completion_moved hagree .same 0)
  rw [hsame]
  exact hperm.flatMap_right _

/-- **The same types are registered** in both orders. -/
theorem registry_perm :
    (run r files).registry.latestFirst.Perm (run r files').registry.latestFirst := by
  have hnames : (bases.flatMap SourceFile.typeNames ++ r.names).Perm
      (bases'.flatMap SourceFile.typeNames ++ r.names) :=
    (hperm.flatMap_right _).append_right _
  have hapart' : HashesApart (bases'.flatMap SourceFile.typeNames ++ r.names) :=
    fun n hn n' hn' => hapart n (hnames.mem_iff.mpr hn) n' (hnames.mem_iff.mpr hn')
  have hfresh' := (fresh_perm hr hfiles hfiles' hperm).mp hfresh
  have hdistinct := distinct_run_renumbered hr hfiles hapart hfresh
  have hcompletions := completions_perm hr hfiles hapart hfresh hfiles' hperm
  -- What is found for a type is looked up by its identity, so the order does not show.
  have hfill : Completion.fill (completions r files'.zipIdx)
      = Completion.fill (completions r files.zipIdx) := by
    funext t
    rw [Completion.fill, Completion.fill,
      Registry.find?_perm hcompletions (nodup_hash_completions hfresh hdistinct)]
  rw [run_registry hfresh hdistinct,
    run_registry hfresh' (distinct_run_renumbered hr hfiles' hapart' hfresh'), hfill]
  exact (found_perm hfiles hfiles' hperm).map _

omit hfresh in
/-- **The order of files does not matter**: they are registered with success in both orders or in
none, and then the same types are registered. -/
theorem run_order : (run r files').isSuccess = (run r files).isSuccess ∧
    ((run r files).isSuccess → (run r files).registry.Distinct ∧
      (run r files).registry.latestFirst.Perm (run r files').registry.latestFirst) := by
  -- If the names differ, only a cycle can be wrong; if they do not, neither order goes well.
  by_cases hfresh : Declared.Fresh ⟨r, [], []⟩ (entries files.zipIdx)
  · have hfresh' := (fresh_perm hr hfiles hfiles' hperm).mp hfresh
    have hdistinct := distinct_run_renumbered hr hfiles hapart hfresh
    have hregistry := registry_perm hr hfiles hapart hfresh hfiles' hperm
    have hempty : ∀ x : Option RegistrationFault, x.toList.isEmpty = !x.isSome := by
      intro x
      cases x <;> rfl
    rw [isSuccess, isSuccess, (run_of_fresh hfresh).2.1, (run_of_fresh hfresh').2.1, hempty, hempty,
      Registry.isSome_cycle?_perm hregistry hdistinct]
    exact ⟨rfl, fun _ => ⟨hdistinct, hregistry⟩⟩
  · have hfresh' := mt (fresh_perm hr hfiles hfiles' hperm).mpr hfresh
    have hfails : ∀ {fs : List SourceFile},
        ¬ Declared.Fresh ⟨r, [], []⟩ (entries fs.zipIdx) → (run r fs).isSuccess = false :=
      fun hfs => Bool.eq_false_iff.mpr fun h => hfs (fresh_of_isSuccess h)
    rw [hfails hfresh, hfails hfresh']
    exact ⟨rfl, fun h => absurd h Bool.false_ne_true⟩

end Order

end Registration

end JavaGraft

import JavaGraft.Proofs.Registration.Phases
import JavaGraft.Proofs.Scope.Reading
import JavaGraft.Proofs.Symbol.Supertypes

/-!
# Signatures and bodies

The types in the bodies of a class are understood among the finished types, those in its signatures
while the types are only declared, with no supertypes yet. So a signature is read as if the types
registered with it had no supertypes (`JavaGraft.Registration.signatures_spec`), and what it says
is right if and only if supertypes make no difference to the types in it. They make none as long as
no member type that is inherited comes into it.
-/

namespace JavaGraft

/-! ### What a member's symbols say -/

/-- The types that are recorded in the symbols of a member. -/
def Member.recordedTypes : Member → List TypeExpr
  | .field _ t vars _ => vars.map fun _ => t
  | m => m.signatureTypes

namespace Context

theorem dims_typeOrObject (c : Context) (t : TypeExpr) : (c.typeOrObject t).dims = t.dims := by
  rw [typeOrObject, type]
  cases c.base t <;> rfl

/-- Further dimensions do not hide a difference. -/
theorem withDims_typeOrObject (c c' : Context) (t : TypeExpr) (n : Nat) :
    (c.typeOrObject t).withDims n = (c'.typeOrObject t).withDims n ↔
      c.typeOrObject t = c'.typeOrObject t := by
  constructor
  · intro h
    have hbase := congrArg DataType.base h
    have hdims := (c.dims_typeOrObject t).trans (c'.dims_typeOrObject t).symm
    cases hx : c.typeOrObject t
    cases hy : c'.typeOrObject t
    simp_all [DataType.withDims]
  · intro h
    rw [h]

/-- **The symbols of a member say the same** at two places if the types recorded in them mean the
same there. -/
theorem memberSymbols_eq_iff (c c' : Context) (owner : TypeHash) (kind : TypeKind) (m : Member) :
    c.memberSymbols owner kind m = c'.memberSymbols owner kind m ↔
      ∀ t ∈ m.recordedTypes, (c.addTypeVars m.typeVars).typeOrObject t
        = (c'.addTypeVars m.typeVars).typeOrObject t := by
  cases m with
  | field mods t vars s =>
    simp only [memberSymbols, Member.recordedTypes, List.map_inj_left, List.mem_map,
      forall_exists_index, and_imp, forall_apply_eq_imp_iff₂]
    simp only [MemberSymbol.field.injEq, FieldSymbol.mk.injEq, true_and, withDims_typeOrObject]
  | method mods tps result name ps ts d body s =>
    simp only [memberSymbols, Member.recordedTypes, Member.signatureTypes, List.mem_append,
      List.mem_map, List.mem_singleton]
    simp only [List.cons.injEq, and_true, MemberSymbol.method.injEq, MethodSymbol.mk.injEq,
      true_and, Signature.mk.injEq, List.map_inj_left]
    constructor
    · rintro ⟨hps, hresult⟩ t (⟨p, hp, rfl⟩ | rfl)
      · exact hps p hp
      · exact hresult
    · exact fun h => ⟨fun p hp => h _ (.inl ⟨p, hp, rfl⟩), h _ (.inr rfl)⟩
  | constructor mods tps name ps ts body s =>
    simp only [memberSymbols, Member.recordedTypes, Member.signatureTypes, List.mem_map,
      forall_exists_index, and_imp, forall_apply_eq_imp_iff₂]
    simp only [List.cons.injEq, and_true, MemberSymbol.constructor.injEq, MethodSymbol.mk.injEq,
      true_and, Signature.mk.injEq, List.map_inj_left]
  | initializer st b s => simp [memberSymbols, Member.recordedTypes, Member.signatureTypes]
  | type d => simp [memberSymbols, Member.recordedTypes, Member.signatureTypes]

/-- The number of symbols of a member does not depend on the place. -/
theorem length_memberSymbols (c c' : Context) (owner : TypeHash) (kind : TypeKind) (m : Member) :
    (c.memberSymbols owner kind m).length = (c'.memberSymbols owner kind m).length := by
  cases m <;> simp [memberSymbols]

theorem members_eq_iff (c c' : Context) (owner : TypeHash) (d : TypeDecl) :
    c.members owner d = c'.members owner d ↔
      ∀ m ∈ d.members, ∀ t ∈ m.recordedTypes, (c.addTypeVars m.typeVars).typeOrObject t
        = (c'.addTypeVars m.typeVars).typeOrObject t := by
  rw [members, members, List.append_cancel_right_eq, List.append_cancel_left_eq]
  induction d.members with
  | nil => simp
  | cons m ms ih =>
    rw [List.flatMap_cons, List.flatMap_cons, List.forall_mem_cons, ← ih,
      ← memberSymbols_eq_iff c c' owner d.kind m]
    constructor
    · exact fun h => List.append_inj h (length_memberSymbols c c' owner d.kind m)
    · rintro ⟨h, hs⟩
      rw [h, hs]

/-- What is complained about depends on what the types mean. -/
theorem complaints_congr {c c' : Context} (owner : TypeHash) (d : TypeDecl)
    (h : ∀ names t, (c.addTypeVars names).complaint t = (c'.addTypeVars names).complaint t) :
    c.complaints owner d = c'.complaints owner d := by
  have hnone : ∀ t, c.complaint t = c'.complaint t := by
    intro t
    have ht := h [] t
    rw [addTypeVars, addTypeVars, List.append_nil, List.append_nil] at ht
    exact ht
  rw [complaints, complaints, funext hnone]
  refine congrArg (_ ++ ·) (congrArg (List.flatMap · _) (funext fun m => ?_))
  rw [funext (h m.typeVars)]

end Context

/-! ### Declared types at two registries -/

namespace Pending

section Alike

variable {r r' : Registry} (h : r.Alike r') (p : Pending) (names : List String) {t : TypeExpr}
  (hm : ((p.context r').addTypeVars names).SameMembers r r' t.names)
include h hm

theorem typeOrObject_congr : ((p.context r).addTypeVars names).typeOrObject t
    = ((p.context r').addTypeVars names).typeOrObject t :=
  Context.typeOrObject_congr (c := (p.context r').addTypeVars names) h hm

theorem complaint_congr : ((p.context r).addTypeVars names).complaint t
    = ((p.context r').addTypeVars names).complaint t :=
  Context.complaint_congr (c := (p.context r').addTypeVars names) h hm

end Alike

end Pending

/-! ### Types without supertypes -/

/-- A type symbol without its supertypes. -/
def TypeSymbol.withoutSupertypes (t : TypeSymbol) : TypeSymbol :=
  { t with superclass := none, interfaces := [] }

/-- A type symbol without its members. -/
def TypeSymbol.withoutMembers (t : TypeSymbol) : TypeSymbol := { t with members := [] }

/-- A registry in which some types, given by their identities, have no supertypes. -/
def Registry.withoutSupertypes (r : Registry) (hs : List TypeHash) : Registry :=
  r.mapped fun t => if hs.contains t.hash then t.withoutSupertypes else t

namespace Registration

/-- The identities of the types that files enter. -/
def hashes (files : List SourceFile) : List TypeHash :=
  (entries files.zipIdx).map fun e => e.1.hash

section Success

variable {r : Registry} {files : List SourceFile}
  (hfresh : Declared.Fresh ⟨r, [], []⟩ (entries files.zipIdx))
  (hdistinct : (run r files).registry.Distinct)
include hfresh hdistinct

/-- **The types of the first phase are the finished ones without supertypes**, members apart. -/
theorem found_eq_withoutSupertypes :
    (found r files.zipIdx).mapped TypeSymbol.withoutMembers
      = ((run r files).registry.withoutSupertypes (hashes files)).mapped
          TypeSymbol.withoutMembers := by
  rw [run_registry hfresh hdistinct]
  simp only [Registry.withoutSupertypes, Registry.mapped, List.map_map]
  refine congrArg Registry.mk (List.map_congr_left fun t ht => ?_)
  rw [Function.comp_apply, Function.comp_apply, Completion.hash_fill]
  -- A type from the files was declared without supertypes and filled in afterwards; any other
  -- type was there before and stays as it was.
  by_cases hmem : t.hash ∈ hashes files
  · obtain ⟨e, he, hhash⟩ := List.mem_map.mp hmem
    have hte : e.1 = t :=
      List.inj_on_of_nodup_map (distinct_found hfresh hdistinct)
        (List.mem_append_left _ (List.mem_reverse.mpr (List.mem_map_of_mem he))) ht hhash
    rw [if_pos (List.contains_iff_mem.mpr hmem), ← hte, fill_entry hfresh hdistinct he]
    obtain ⟨⟨_, _, _, _, _, sup, is, ms, _, _⟩, p⟩ := e
    obtain ⟨-, hsup, his, -⟩ := isNew_of_mem he
    obtain rfl : sup = none := hsup
    obtain rfl : is = [] := his
    rfl
  · have hnot : t.hash ∉ (completions r files.zipIdx).map Completion.hash := by
      intro hdone
      obtain ⟨c, hc, hhash⟩ := List.mem_map.mp hdone
      obtain ⟨e, he, rfl⟩ := List.mem_map.mp hc
      exact hmem (List.mem_map.mpr ⟨e, he, (isNew_of_mem he).hash.symm.trans hhash⟩)
    rw [if_neg (fun h => hmem (List.contains_iff_mem.mp h)), Completion.fill_of_not_mem hnot]

theorem found_alike :
    (found r files.zipIdx).Alike ((run r files).registry.withoutSupertypes (hashes files)) :=
  Registry.alike_of_mapped (f := TypeSymbol.withoutMembers) (fun _ => rfl)
    (found_eq_withoutSupertypes hfresh hdistinct)

theorem found_sameMembers (c : Context) (names : List String) : c.SameMembers
    (found r files.zipIdx) ((run r files).registry.withoutSupertypes (hashes files)) names :=
  c.sameMembers_of_supertypes (found_alike hfresh hdistinct)
    (Registry.names_supertypes_of_mapped (f := TypeSymbol.withoutMembers) (fun _ => rfl)
      (fun _ => rfl) (fun _ => rfl) (found_eq_withoutSupertypes hfresh hdistinct)) names

/-- What is recorded for a type is what was found for it. -/
theorem members_recorded {e : Entry} (he : e ∈ entries files.zipIdx) :
    ((run r files).registry.get? e.1.hash).map TypeSymbol.members
      = some ((e.2.context (found r files.zipIdx)).members e.2.hash e.2.decl) := by
  rw [run_registry hfresh hdistinct, Registry.get?_mapped _ (Completion.hash_fill _),
    get?_entry hfresh hdistinct he, Option.map_some, fill_entry hfresh hdistinct he]
  rfl

end Success

/-- Leaving supertypes out keeps outlines. -/
theorem withoutSupertypes_alike (r : Registry) (hs : List TypeHash) :
    (r.withoutSupertypes hs).Alike r := by
  refine Registry.alike_of_mapped (f := TypeSymbol.outline) (fun _ => rfl) ?_
  simp only [Registry.withoutSupertypes, Registry.mapped, List.map_map]
  refine congrArg Registry.mk (List.map_congr_left fun t _ => ?_)
  rw [Function.comp_apply]
  split <;> rfl

/-- **What signatures say.** If files are registered without a fault, and no two registered types
have the same identity, then what is recorded for the members of a type is what their types mean
among the registered types when the types from the files have no supertypes, and the warnings are
about the types that mean nothing then. So it is what the types mean among the registered types as
they are exactly if, for each of them, the supertypes make no difference; and they make none if
they bring no member type of a name that occurs in it. -/
theorem signatures_spec (r : Registry) (files : List SourceFile)
    (hsuccess : (run r files).isSuccess) (hdistinct : (run r files).registry.Distinct) (e : Entry)
    (he : e ∈ entries files.zipIdx) :
    let finished := (run r files).registry
    let flat := finished.withoutSupertypes (hashes files)
    (finished.get? e.1.hash).map TypeSymbol.members
        = some ((e.2.context flat).members e.2.hash e.2.decl) ∧
      ((finished.get? e.1.hash).map TypeSymbol.members
          = some ((e.2.context finished).members e.2.hash e.2.decl) ↔
        ∀ m ∈ e.2.decl.members, ∀ t ∈ m.recordedTypes,
          ((e.2.context flat).addTypeVars m.typeVars).typeOrObject t
            = ((e.2.context finished).addTypeVars m.typeVars).typeOrObject t) ∧
      (∀ m ∈ e.2.decl.members, ∀ t ∈ m.recordedTypes,
        ((e.2.context finished).addTypeVars m.typeVars).SameMembers flat finished t.names →
          ((e.2.context flat).addTypeVars m.typeVars).typeOrObject t
            = ((e.2.context finished).addTypeVars m.typeVars).typeOrObject t) ∧
      (run r files).warnings
        = (entries files.zipIdx).flatMap fun e => e.2.complaints flat := by
  intro finished flat
  have hfresh := fresh_of_isSuccess hsuccess
  have halike : (found r files.zipIdx).Alike flat := found_alike hfresh hdistinct
  have hsame : ∀ c names, Context.SameMembers c (found r files.zipIdx) flat names :=
    found_sameMembers hfresh hdistinct
  have hflat : flat.Alike finished := withoutSupertypes_alike finished _
  have hrecorded := members_recorded hfresh hdistinct he
  have hwarnings := (run_of_fresh hfresh).2.2
  generalize found r files.zipIdx = declared at halike hsame hrecorded hwarnings
  generalize flat = flat at halike hsame hflat ⊢
  -- What was declared and what is finished without supertypes answer alike.
  have hmembers : (e.2.context declared).members e.2.hash e.2.decl
      = (e.2.context flat).members e.2.hash e.2.decl := by
    rw [Context.members_eq_iff]
    exact fun m _ t _ => e.2.typeOrObject_congr halike m.typeVars (hsame _ _)
  rw [hmembers] at hrecorded
  refine ⟨hrecorded, ?_, ?_, ?_⟩
  · rw [hrecorded, Option.some_inj, Context.members_eq_iff]
  · exact fun m _ t _ h => e.2.typeOrObject_congr hflat m.typeVars h
  · rw [hwarnings]
    refine congrArg (List.flatMap · _) (funext fun e => ?_)
    rw [Pending.complaints, Pending.complaints]
    exact congrArg (List.map _) (Context.complaints_congr _ _
      fun names t => e.2.complaint_congr halike names (hsame _ _))

/-! ### An inherited member type -/

namespace Sample

/-- A class with the given superclass and members. -/
def classDecl (name : String) (superclass : Option TypeExpr) (members : List Member) : TypeDecl :=
  ⟨.absent, .classType, ⟨name, .absent⟩, [], superclass, [], [], members, .absent⟩

/-- A type written as a simple name. -/
def typeNamed (name : String) : TypeExpr := ⟨.named ⟨[⟨name, .absent⟩], .absent⟩, [], 0, .absent⟩

/-- A class that declares a field `f` of type `Inner` and extends `Base`. -/
def derived : TypeDecl := classDecl "Derived" (typeNamed "Base")
  [.field .absent (typeNamed "Inner") [⟨⟨"f", .absent⟩, 0, none, .absent⟩] .absent]

/-- A file with a class `Base` that has a member class `Inner`, and a file with `derived`. -/
def files : List SourceFile :=
  [⟨"Base", ⟨none, [], [classDecl "Base" none [.type (classDecl "Inner" none [])]], .absent⟩⟩,
    ⟨"Derived", ⟨none, [], [derived], .absent⟩⟩]

/-- What the second file enters. -/
def entry : Entry :=
  let symbol := TypeSymbol.declared ⟨"", "Derived"⟩ .classType .none [] none
  (symbol, ⟨1, ⟨"", [], []⟩, symbol.hash, derived⟩)

theorem entry_mem : entry ∈ entries files.zipIdx := by
  have hlast : (entries files.zipIdx).getLast? = some entry := rfl
  exact List.mem_of_getLast? hlast

end Sample

/-- What is recorded for `Sample.derived` is what its field means without supertypes. -/
theorem signatures_spec_sample :
    let finished := (run .empty Sample.files).registry
    let flat := finished.withoutSupertypes (hashes Sample.files)
    (finished.get? Sample.entry.1.hash).map TypeSymbol.members
        = some ((Sample.entry.2.context flat).members Sample.entry.2.hash Sample.derived) ∧
      ((finished.get? Sample.entry.1.hash).map TypeSymbol.members
          = some ((Sample.entry.2.context finished).members Sample.entry.2.hash Sample.derived) ↔
        ∀ m ∈ Sample.derived.members, ∀ t ∈ m.recordedTypes,
          ((Sample.entry.2.context flat).addTypeVars m.typeVars).typeOrObject t
            = ((Sample.entry.2.context finished).addTypeVars m.typeVars).typeOrObject t) ∧
      (∀ m ∈ Sample.derived.members, ∀ t ∈ m.recordedTypes,
        ((Sample.entry.2.context finished).addTypeVars m.typeVars).SameMembers flat finished
            t.names →
          ((Sample.entry.2.context flat).addTypeVars m.typeVars).typeOrObject t
            = ((Sample.entry.2.context finished).addTypeVars m.typeVars).typeOrObject t) ∧
      (run .empty Sample.files).warnings
        = (entries Sample.files.zipIdx).flatMap fun e => e.2.complaints flat :=
  signatures_spec .empty Sample.files (by decide +kernel)
    (by unfold Registry.Distinct; decide +kernel) Sample.entry Sample.entry_mem

/-- **A signature that says something else.** The field of `Sample.derived` is recorded with another
type than the one that its type means among the finished types. -/
theorem signatures_spec_inherited :
    (run .empty Sample.files).isSuccess = true ∧
      ((run .empty Sample.files).registry.get? Sample.entry.1.hash).map TypeSymbol.members
        ≠ some ((Sample.entry.2.context (run .empty Sample.files).registry).members
            Sample.entry.2.hash Sample.derived) := by
  constructor
  · decide +kernel
  · decide +kernel

end Registration

end JavaGraft

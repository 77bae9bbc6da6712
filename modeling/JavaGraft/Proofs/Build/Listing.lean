import JavaGraft.Proofs.Build.Order

/-!
# The types of a file, one by one

A file is processed by walking through its types, outer types before their member types, with a
progress that is handed on. What the walk comes to can be said of each type by itself.

* The annotations on a type are carried out on its *own code*, all that is in it except member types
  (`JavaGraft.TypeDecl.own`). What becomes of that code, and what is said of the annotations, is the
  `JavaGraft.Workshop.verdict` on the type; nothing but the own code goes into it.
* Listing the types of a file and processing can be done in either order
  (`JavaGraft.TypeDecl.listed_made`), the annotations found are those of the verdicts in the order
  of the listing (`JavaGraft.TypeDecl.processed_adds`), and the own code of a processed type is that
  of its verdict (`JavaGraft.TypeDecl.own_made`).
-/

namespace JavaGraft

/-! ### Member types -/

namespace Member

/-- The type that a member is, if it is one. -/
def type? : Member → Option TypeDecl
  | .type d => some d
  | .field .. | .method .. | .constructor .. | .initializer .. => none

/-- The types among members. -/
def types (ms : List Member) : List TypeDecl := ms.filterMap type?

/-- The members that are no types. -/
def own (ms : List Member) : List Member := ms.filter (·.type?.isNone)

@[simp] theorem types_nil : types [] = [] := rfl

@[simp] theorem own_nil : own [] = [] := rfl

@[simp]
theorem types_cons_type (d : TypeDecl) (ms : List Member) : types (.type d :: ms) = d :: types ms :=
  rfl

@[simp]
theorem own_cons_type (d : TypeDecl) (ms : List Member) : own (.type d :: ms) = own ms := rfl

theorem types_cons {m : Member} (h : m.type? = none) (ms : List Member) :
    types (m :: ms) = types ms := List.filterMap_cons_none h

theorem own_cons {m : Member} (h : m.type? = none) (ms : List Member) :
    own (m :: ms) = m :: own ms := List.filter_cons_of_pos (by rw [h]; rfl)

@[simp] theorem own_own (ms : List Member) : own (own ms) = own ms := by simp [own]

/-- Once the slots of the types are refilled, these are the types. -/
theorem types_refill {ms : List Member} {ds : List TypeDecl} (h : ds.length = (types ms).length) :
    types (refill ms ds) = ds := by
  induction ms generalizing ds with
  | nil => exact (List.length_eq_zero_iff.mp h).symm ▸ rfl
  | cons m ms ih =>
    cases m with
    | type d =>
      cases ds with
      | nil => cases h
      | cons e es => exact congrArg (e :: ·) (ih (Nat.succ.inj h))
    | _ => cases ds <;> exact ih h

/-- Refilling the slots of the types leaves the other members. -/
theorem own_refill (ms : List Member) (ds : List TypeDecl) : own (refill ms ds) = own ms := by
  induction ms generalizing ds with
  | nil => cases ds <;> rfl
  | cons m ms ih =>
    cases m with
    | type d =>
      cases ds with
      | nil => rfl
      | cons e es => exact ih es
    | _ => cases ds <;> exact congrArg (_ :: ·) (ih _)

/-- Refilling the slots with the types that are in them changes nothing. -/
theorem refill_types (ms : List Member) : refill ms (types ms) = ms := by
  induction ms with
  | nil => rfl
  | cons m ms ih =>
    cases m with
    | type d => exact congrArg (_ :: ·) ih
    | _ =>
      rw [types_cons rfl]
      cases hms : types ms <;> exact congrArg (_ :: ·) (hms ▸ ih)

variable (new : Nat → Option Expr)

/-- No new callees are put into a member type. -/
theorem type?_spliced (m : Member) : (m.spliced new).type? = m.type? := by cases m <;> rfl

theorem types_spliced (ms : List Member) : types (ms.map (·.spliced new)) = types ms := by
  rw [types, List.filterMap_map]
  exact List.filterMap_congr fun m _ => m.type?_spliced new

theorem own_spliced (ms : List Member) :
    own (ms.map (·.spliced new)) = (own ms).map (·.spliced new) := by
  rw [own, own, List.filter_map]
  refine congrArg _ (List.filter_congr fun m _ => ?_)
  rw [Function.comp_apply, type?_spliced]

end Member

namespace TypeDecl

/-- **The own code of a type**: all that is in it except member types. -/
def own (d : TypeDecl) : TypeDecl := { d with members := Member.own d.members }

@[simp] theorem own_own (d : TypeDecl) : d.own.own = d.own := by simp [own]

@[simp] theorem modifiers_own (d : TypeDecl) : d.own.modifiers = d.modifiers := rfl

/-- The candidates of a type are in its own code. -/
theorem callSites_own (d : TypeDecl) (file : Nat) (owner : TypeHash) :
    d.own.callSites file owner = d.callSites file owner := by
  have hmembers : ∀ ms : List Member,
      ((Member.own ms).flatMap fun m => m.sites.map fun c => (⟨c, file, owner, some m⟩ : CallSite))
        = ms.flatMap fun m => m.sites.map fun c => ⟨c, file, owner, some m⟩ := by
    intro ms
    induction ms with
    | nil => rfl
    | cons m ms ih =>
      cases m with
      | type d => exact ih
      | _ => exact congrArg (_ ++ ·) ih
  exact congrArg (_ ++ ·) (hmembers d.members)

theorem applied_own (d : TypeDecl) (ds : List Decision) (strip : Option Annot) :
    d.own.applied ds strip = (d.applied ds strip).own := by
  rw [applied, applied, own, own, Member.own_spliced]

theorem types_applied (d : TypeDecl) (ds : List Decision) (strip : Option Annot) :
    Member.types (d.applied ds strip).members = Member.types d.members :=
  Member.types_spliced _ d.members

/-- **An annotation is carried out on the own code of a type.** -/
theorem extended_own (d : TypeDecl) (annot : Annot) (file : Nat) (owner : TypeHash)
    (a : Attribution) :
    d.own.extended annot file owner a
      = { d.extended annot file owner a with
          decl := (d.extended annot file owner a).decl.own } := by
  rw [extended, extended, callSites_own, show d.own.kind = d.kind from rfl]
  cases Catalog.ofAnnot a ⟨file, owner, none⟩ d.kind annot with
  | error e => rfl
  | ok catalog =>
    simp only [applied_own]
    split <;> rfl

/-- Carrying an annotation out leaves the member types. -/
theorem types_extended (d : TypeDecl) (annot : Annot) (file : Nat) (owner : TypeHash)
    (a : Attribution) :
    Member.types (d.extended annot file owner a).decl.members = Member.types d.members := by
  rw [extended]
  split
  · rfl
  · split <;> exact types_applied d _ _

end TypeDecl

/-! ### The verdict on a type -/

namespace Workshop

variable (w : Workshop) (file : Nat)

/-- **The verdict on a type**: what the annotations on it make of its own code, and what is said of
them. -/
def verdict (x : QualifiedName × TypeDecl) : TypeDecl × List Application :=
  let (d, p) := w.applyAll file x.1 x.2.own ⟨.empty, []⟩
  (d, p.applications)

variable (name : QualifiedName) (d : TypeDecl) (p p' : Progress)

/-- Only the own code goes into an application of a marker, and only the own code is changed. -/
theorem apply_own (marker : ExtensionMarker) :
    (w.apply file name d.own p' marker).1 = (w.apply file name d p marker).1.own ∧
      Member.types (w.apply file name d p marker).1.members = Member.types d.members ∧
      ∃ xs, p.Adds xs (w.apply file name d p marker).2 ∧
        p'.Adds xs (w.apply file name d.own p' marker).2 ∧
        ∀ a ∈ xs, a.file = file ∧ a.type = name := by
  rw [apply, apply, TypeDecl.modifiers_own]
  cases marker.find? d.modifiers with
  | none => exact ⟨rfl, rfl, [], .nil p, .nil p', fun a ha => absurd ha List.not_mem_nil⟩
  | some annot =>
    have htypes := d.types_extended annot file name.hash (.start w.registry w.files)
    simp only [d.extended_own annot]
    generalize d.extended annot file name.hash (.start w.registry w.files) = done at htypes ⊢
    refine ⟨trivial, htypes, [⟨file, name, done.outcome, done.attribution.passes⟩], ⟨rfl, ?_⟩,
      ⟨rfl, ?_⟩, fun a ha => ?_⟩
    · cases done.outcome <;> simp [Application.isMisuse, Diagnostics.hasErrors_addError]
    · cases done.outcome <;> simp [Application.isMisuse, Diagnostics.hasErrors_addError]
    · rw [List.mem_singleton.mp ha]
      exact ⟨rfl, rfl⟩

theorem applyAll_own :
    (w.applyAll file name d.own p').1 = (w.applyAll file name d p).1.own ∧
      Member.types (w.applyAll file name d p).1.members = Member.types d.members ∧
      ∃ xs, p.Adds xs (w.applyAll file name d p).2 ∧
        p'.Adds xs (w.applyAll file name d.own p').2 ∧
        ∀ a ∈ xs, a.file = file ∧ a.type = name := by
  rw [applyAll, applyAll]
  induction w.markers generalizing d p p' with
  | nil => exact ⟨rfl, rfl, [], .nil p, .nil p', fun a ha => absurd ha List.not_mem_nil⟩
  | cons marker markers ih =>
    obtain ⟨hown, htypes, xs, hxs, hxs', hon⟩ := w.apply_own file name d p p' marker
    obtain ⟨hown', htypes', ys, hys, hys', hon'⟩ := ih (w.apply file name d p marker).1
      (w.apply file name d p marker).2 (w.apply file name d.own p' marker).2
    rw [← hown] at hown' hys'
    exact ⟨hown', htypes'.trans htypes, xs ++ ys, hxs.append hys, hxs'.append hys',
      List.forall_mem_append.mpr ⟨hon, hon'⟩⟩

theorem types_applyAll :
    Member.types (w.applyAll file name d p).1.members = Member.types d.members :=
  (w.applyAll_own file name d p p).2.1

/-- **The verdict is what comes of a type**, whatever has been found before. -/
theorem applyAll_verdict :
    (w.applyAll file name d p).1.own = (w.verdict file (name, d)).1 ∧
      p.Adds (w.verdict file (name, d)).2 (w.applyAll file name d p).2 := by
  obtain ⟨hown, -, xs, hxs, hxs', -⟩ := w.applyAll_own file name d p ⟨.empty, []⟩
  have hverdict : (w.verdict file (name, d)).2 = xs := hxs'.applications
  exact ⟨hown.symm, hverdict ▸ hxs⟩

/-- A verdict speaks of the annotations on its type. -/
theorem of_mem_verdict {x : QualifiedName × TypeDecl} {a : Application}
    (ha : a ∈ (w.verdict file x).2) : a.file = file ∧ a.type = x.1 := by
  obtain ⟨-, -, xs, -, hxs', hon⟩ := w.applyAll_own file x.1 x.2 ⟨.empty, []⟩ ⟨.empty, []⟩
  have hverdict : (w.verdict file x).2 = xs := hxs'.applications
  exact hon a (hverdict ▸ ha)

end Workshop

/-! ### The listing -/

mutual

/-- **The types that a type of a name declares**, itself before its member types, with their
names. -/
def TypeDecl.listed (name : QualifiedName) : TypeDecl → List (QualifiedName × TypeDecl)
  | ⟨mods, kind, ident, tps, sup, is, cs, members, span⟩ =>
    (name, ⟨mods, kind, ident, tps, sup, is, cs, members, span⟩) :: Member.listed name members

/-- The types that members of a type of the given name declare. -/
def Member.listed (outer : QualifiedName) : List Member → List (QualifiedName × TypeDecl)
  | [] => []
  | .type d :: ms => d.listed (outer.member d.name.name) ++ Member.listed outer ms
  | .field .. :: ms | .method .. :: ms | .constructor .. :: ms | .initializer .. :: ms =>
    Member.listed outer ms

end

/-- The types of a file, with their names. -/
def SourceFile.listed (f : SourceFile) : List (QualifiedName × TypeDecl) :=
  f.unit.types.flatMap fun d => d.listed ⟨f.scope.package, d.name.name⟩

theorem Member.listed_eq (outer : QualifiedName) (ms : List Member) :
    Member.listed outer ms
      = (Member.types ms).flatMap fun d => d.listed (outer.member d.name.name) := by
  induction ms with
  | nil => rfl
  | cons m ms ih =>
    cases m with
    | type d => rw [listed, ih, types_cons_type, List.flatMap_cons]
    | _ => exact ih

theorem TypeDecl.listed_eq (name : QualifiedName) (d : TypeDecl) :
    d.listed name = (name, d)
      :: (Member.types d.members).flatMap fun e => e.listed (name.member e.name.name) := by
  cases d
  rw [listed, Member.listed_eq]

mutual

/-- Types are registered under the names under which they are listed. -/
theorem TypeDecl.map_name_entries (file : Nat) (scope : FileScope) (name : QualifiedName)
    (outer : Option (TypeHash × TypeKind)) : ∀ d : TypeDecl,
    (d.entries file scope name outer).map Entry.name = (d.listed name).map Prod.fst
  | ⟨mods, kind, ident, tps, sup, is, cs, members, span⟩ => by
    rw [TypeDecl.entries, TypeDecl.listed, List.map_cons, List.map_cons,
      Member.map_name_entries file scope name _ members]
    rfl

theorem Member.map_name_entries (file : Nat) (scope : FileScope) (name : QualifiedName)
    (outer : TypeHash × TypeKind) : ∀ ms : List Member,
    (Member.entries file scope name outer ms).map Entry.name = (Member.listed name ms).map Prod.fst
  | [] => rfl
  | .type d :: ms => by
    rw [Member.entries, Member.listed, List.map_append, List.map_append,
      d.map_name_entries file scope _ (some outer),
      Member.map_name_entries file scope name outer ms]
  | .field .. :: ms | .method .. :: ms | .constructor .. :: ms | .initializer .. :: ms =>
    Member.map_name_entries file scope name outer ms

end

theorem SourceFile.map_name_entries (f : SourceFile) (index : Nat) :
    (f.entries index).map Entry.name = f.listed.map Prod.fst := by
  rw [entries, listed, List.map_flatMap, List.map_flatMap]
  exact congrArg (List.flatMap · _) (funext fun d => d.map_name_entries index _ _ none)

/-! ### Processing a type -/

namespace Workshop

variable (w : Workshop) (file : Nat) (name : QualifiedName) (d : TypeDecl) (p p' : Progress)

theorem fst_apply (marker : ExtensionMarker) :
    (w.apply file name d p marker).1 = (w.apply file name d p' marker).1 := by
  rw [apply, apply]
  cases marker.find? d.modifiers <;> rfl

theorem fst_applyAll : (w.applyAll file name d p).1 = (w.applyAll file name d p').1 := by
  rw [applyAll, applyAll]
  induction w.markers generalizing d p p' with
  | nil => rfl
  | cons marker markers ih =>
    rw [List.foldl_cons, List.foldl_cons, ih _ _ (w.apply file name d p' marker).2,
      w.fst_apply file name d p p' marker]

end Workshop

/-- **What becomes of a type** and its member types. -/
def TypeDecl.made (w : Workshop) (file : Nat) (name : QualifiedName) (d : TypeDecl) : TypeDecl :=
  (d.processed w file name ⟨.empty, []⟩).1

section Made

variable (w : Workshop) (file : Nat)

mutual

/-- What has been found before does not show in what becomes of a type. -/
theorem TypeDecl.fst_processed (name : QualifiedName) : ∀ (d : TypeDecl) (p : Progress),
    (d.processed w file name p).1 = d.made w file name
  | ⟨mods, kind, ident, tps, sup, is, cs, members, span⟩ => by
    intro p
    rw [TypeDecl.made, TypeDecl.processed, TypeDecl.processed]
    simp only [Member.fst_processed name members]
    rw [w.fst_applyAll file name _ p]

/-- What becomes of the types among members. -/
theorem Member.fst_processed (outer : QualifiedName) : ∀ (ms : List Member) (p : Progress),
    (Member.processed w file outer p ms).1
      = (Member.types ms).map fun d => d.made w file (outer.member d.name.name)
  | [] => fun _ => rfl
  | .type d :: ms => by
    intro p
    rw [Member.processed, Member.types_cons_type, List.map_cons, ← d.fst_processed _ p,
      ← Member.fst_processed outer ms (d.processed w file (outer.member d.name.name) p).2]
  | .field .. :: ms | .method .. :: ms | .constructor .. :: ms | .initializer .. :: ms =>
    Member.fst_processed outer ms

end

namespace TypeDecl

variable (name : QualifiedName) (d : TypeDecl)

/-- A type is made of what becomes of its own code and of its member types. -/
theorem made_eq : d.made w file name =
    let own := (w.applyAll file name d ⟨.empty, []⟩).1
    let ds := (Member.types d.members).map fun e => e.made w file (name.member e.name.name)
    { own with members := Member.refill own.members ds } := by
  cases d
  rw [made, processed]
  simp only [Member.fst_processed]

/-- **What becomes of the own code of a type** is in the verdict on it. -/
theorem own_made : (d.made w file name).own = (w.verdict file (name, d)).1 := by
  rw [← (w.applyAll_verdict file name d ⟨.empty, []⟩).1, made_eq]
  exact congrArg (fun ms => { (w.applyAll file name d ⟨.empty, []⟩).1 with members := ms })
    (Member.own_refill _ _)

/-- What becomes of the member types of a type. -/
theorem types_made : Member.types (d.made w file name).members
    = (Member.types d.members).map fun e => e.made w file (name.member e.name.name) := by
  rw [made_eq]
  refine Member.types_refill ?_
  rw [List.length_map, w.types_applyAll]

end TypeDecl

/-- What becomes of a listed type. -/
def Workshop.remade (x : QualifiedName × TypeDecl) : QualifiedName × TypeDecl :=
  (x.1, x.2.made w file x.1)

end Made

/-! ### The frame of a type -/

/-- A variable without its initial value. -/
def VarDeclarator.frame (v : VarDeclarator) : VarDeclarator := { v with init := none }

/-- A block without its statements. -/
def Block.frame (b : Block) : Block := ⟨[], b.span⟩

mutual

/-- **The frame of a type**: what is left without annotations and the code of members. -/
def TypeDecl.frame : TypeDecl → TypeDecl
  | ⟨⟨flags, _, s⟩, kind, ident, tps, sup, is, cs, members, span⟩ =>
    ⟨⟨flags, [], s⟩, kind, ident, tps, sup, is, cs, Member.frames members, span⟩

/-- The frames of members. -/
def Member.frames : List Member → List Member
  | [] => []
  | .field m t vs s :: ms => .field m t (vs.map VarDeclarator.frame) s :: Member.frames ms
  | .method m tps t n ps ts d b s :: ms =>
    .method m tps t n ps ts d (b.map Block.frame) s :: Member.frames ms
  | .constructor m tps n ps ts b s :: ms =>
    .constructor m tps n ps ts b.frame s :: Member.frames ms
  | .initializer st b s :: ms => .initializer st b.frame s :: Member.frames ms
  | .type d :: ms => .type d.frame :: Member.frames ms

end

/-- A file with the types replaced by their frames. -/
def SourceFile.frame (f : SourceFile) : SourceFile :=
  { f with unit := { f.unit with types := f.unit.types.map TypeDecl.frame } }

namespace Member

theorem frames_spliced (new : Nat → Option Expr) (ms : List Member) :
    frames (ms.map (·.spliced new)) = frames ms := by
  have hvars : ∀ vs : List VarDeclarator,
      (VarDeclarator.allSpliced new vs).map VarDeclarator.frame = vs.map VarDeclarator.frame := by
    intro vs
    induction vs with
    | nil => rfl
    | cons v vs ih =>
      obtain ⟨n, dims, _ | e, s⟩ := v <;> exact congrArg (_ :: ·) ih
  have hblock : ∀ b : Block, (b.spliced new).frame = b.frame := by
    rintro ⟨_, _⟩
    rfl
  induction ms with
  | nil => rfl
  | cons m ms ih =>
    rw [List.map_cons]
    generalize ms.map (·.spliced new) = ms' at ih ⊢
    cases m with
    | method m tps t n ps ts d b s => cases b <;> simp [spliced, frames, ih, hblock]
    | _ => simp only [spliced, frames, ih, hvars, hblock]

/-- Slots that are refilled with types of the same frames have the same frames. -/
theorem frames_refill {ms : List Member} {ds : List TypeDecl}
    (h : ds.map TypeDecl.frame = (types ms).map TypeDecl.frame) :
    frames (refill ms ds) = frames ms := by
  induction ms generalizing ds with
  | nil => cases ds <;> rfl
  | cons m ms ih =>
    cases m with
    | type d =>
      cases ds with
      | nil => rfl
      | cons e es =>
        obtain ⟨he, hes⟩ := List.cons_eq_cons.mp h
        rw [refill, frames, frames, he, ih hes]
    | _ =>
      rw [types_cons rfl] at h
      cases ds <;> simp [refill, frames, ih h]

end Member

namespace TypeDecl

theorem frame_eq (d : TypeDecl) : d.frame =
    { d with
      modifiers := { d.modifiers with annots := [] }
      members := Member.frames d.members } := by
  obtain ⟨⟨flags, as, s⟩, kind, n, tps, sup, is, cs, ms, span⟩ := d
  rw [frame]

@[simp] theorem name_frame (d : TypeDecl) : d.frame.name = d.name := by rw [frame_eq]

theorem frame_extended (d : TypeDecl) (annot : Annot) (file : Nat) (owner : TypeHash)
    (a : Attribution) : (d.extended annot file owner a).decl.frame = d.frame := by
  have happlied : ∀ ds strip, (d.applied ds strip).frame = d.frame := by
    intro ds strip
    rw [frame_eq, frame_eq, applied, Member.frames_spliced]
  rw [extended]
  split
  · rfl
  · split <;> exact happlied _ _

end TypeDecl

section Frame

variable (w : Workshop) (file : Nat)

theorem Workshop.frame_applyAll (name : QualifiedName) (d : TypeDecl) (p : Progress) :
    (w.applyAll file name d p).1.frame = d.frame := by
  rw [applyAll]
  induction w.markers generalizing d p with
  | nil => rfl
  | cons marker markers ih =>
    rw [List.foldl_cons, ih, apply]
    cases marker.find? d.modifiers with
    | none => rfl
    | some annot => exact d.frame_extended annot file _ _

mutual

/-- **The frame of a type is kept.** -/
theorem TypeDecl.frame_made (name : QualifiedName) : ∀ d : TypeDecl,
    (d.made w file name).frame = d.frame
  | ⟨mods, kind, ident, tps, sup, is, cs, members, span⟩ => by
    have hown := w.frame_applyAll file name ⟨mods, kind, ident, tps, sup, is, cs, members, span⟩
      ⟨.empty, []⟩
    have htypes := w.types_applyAll file name ⟨mods, kind, ident, tps, sup, is, cs, members, span⟩
      ⟨.empty, []⟩
    rw [TypeDecl.made_eq, TypeDecl.frame_eq]
    simp only
    rw [Member.frames_refill, ← TypeDecl.frame_eq, hown]
    rw [htypes]
    exact Member.frame_types_made name members

theorem Member.frame_types_made (outer : QualifiedName) : ∀ ms : List Member,
    ((Member.types ms).map fun d => d.made w file (outer.member d.name.name)).map TypeDecl.frame
      = (Member.types ms).map TypeDecl.frame
  | [] => rfl
  | .type d :: ms => by
    rw [Member.types_cons_type, List.map_cons, List.map_cons, List.map_cons,
      d.frame_made, Member.frame_types_made outer ms]
  | .field .. :: ms | .method .. :: ms | .constructor .. :: ms | .initializer .. :: ms =>
    Member.frame_types_made outer ms

end

@[simp]
theorem TypeDecl.name_made (name : QualifiedName) (d : TypeDecl) :
    (d.made w file name).name = d.name := by
  rw [← TypeDecl.name_frame, d.frame_made, TypeDecl.name_frame]

end Frame

/-! ### Processing and listing -/

section Listed

variable (w : Workshop) (file : Nat)

mutual

/-- **Listing the types of a type and processing can be done in either order.** -/
theorem TypeDecl.listed_made (name : QualifiedName) : ∀ d : TypeDecl,
    (d.made w file name).listed name = (d.listed name).map (w.remade file)
  | ⟨mods, kind, ident, tps, sup, is, cs, members, span⟩ => by
    rw [TypeDecl.listed_eq, TypeDecl.types_made, TypeDecl.listed, List.map_cons,
      Member.listed_types_made name members]
    rfl

theorem Member.listed_types_made (outer : QualifiedName) : ∀ ms : List Member,
    (((Member.types ms).map fun d => d.made w file (outer.member d.name.name)).flatMap fun d =>
      d.listed (outer.member d.name.name)) = (Member.listed outer ms).map (w.remade file)
  | [] => rfl
  | .type d :: ms => by
    rw [Member.types_cons_type, List.map_cons, List.flatMap_cons, TypeDecl.name_made,
      d.listed_made, Member.listed_types_made outer ms, Member.listed, List.map_append]
  | .field .. :: ms | .method .. :: ms | .constructor .. :: ms | .initializer .. :: ms =>
    Member.listed_types_made outer ms

end

mutual

/-- **The annotations found** are those of the verdicts, in the order of the listing. -/
theorem TypeDecl.processed_adds (name : QualifiedName) : ∀ (d : TypeDecl) (p : Progress),
    p.Adds ((d.listed name).flatMap fun x => (w.verdict file x).2) (d.processed w file name p).2
  | ⟨mods, kind, ident, tps, sup, is, cs, members, span⟩ => by
    intro p
    have hown := (w.applyAll_verdict file name
      ⟨mods, kind, ident, tps, sup, is, cs, members, span⟩ p).2
    rw [TypeDecl.listed, List.flatMap_cons, TypeDecl.processed]
    exact hown.append (Member.processed_adds name members _)

theorem Member.processed_adds (outer : QualifiedName) : ∀ (ms : List Member) (p : Progress),
    p.Adds ((Member.listed outer ms).flatMap fun x => (w.verdict file x).2)
      (Member.processed w file outer p ms).2
  | [] => fun p => .nil p
  | .type d :: ms => by
    intro p
    rw [Member.listed, List.flatMap_append, Member.processed]
    exact (d.processed_adds (outer.member d.name.name) p).append (Member.processed_adds outer ms _)
  | .field .. :: ms | .method .. :: ms | .constructor .. :: ms | .initializer .. :: ms =>
    Member.processed_adds outer ms

end

end Listed

/-! ### Files -/

namespace SourceFile

/-- **What becomes of a file.** -/
def made (w : Workshop) (file : Nat) (f : SourceFile) : SourceFile :=
  { f with unit := { f.unit with
      types := f.unit.types.map fun d => d.made w file ⟨f.scope.package, d.name.name⟩ } }

variable (w : Workshop) (file : Nat) (f : SourceFile)

@[simp] theorem scope_made : (f.made w file).scope = f.scope := rfl

theorem frame_made : (f.made w file).frame = f.frame := by
  have htypes : (f.made w file).unit.types.map TypeDecl.frame
      = f.unit.types.map TypeDecl.frame := by
    rw [made, List.map_map]
    exact List.map_congr_left fun d _ => d.frame_made w file _
  rw [frame, frame, htypes]
  rfl

/-- Listing the types of a file and processing can be done in either order. -/
theorem listed_made : (f.made w file).listed = f.listed.map (w.remade file) := by
  rw [listed, listed, List.map_flatMap, scope_made, made, List.flatMap_map]
  refine congrArg (List.flatMap · _) (funext fun d => ?_)
  rw [TypeDecl.name_made, TypeDecl.listed_made]

/-- What is said of the annotations in a file. -/
def applications : List Application := f.listed.flatMap fun x => (w.verdict file x).2

end SourceFile

namespace Workshop

variable (w : Workshop)

theorem processTypes_eq (file : Nat) (package : String) (ds : List TypeDecl) (p : Progress) :
    (w.processTypes file package ds p).1
        = (ds.map fun d => d.made w file ⟨package, d.name.name⟩) ∧
      p.Adds ((ds.flatMap fun d => d.listed ⟨package, d.name.name⟩).flatMap
        fun x => (w.verdict file x).2) (w.processTypes file package ds p).2 := by
  induction ds generalizing p with
  | nil => exact ⟨rfl, .nil p⟩
  | cons d ds ih =>
    obtain ⟨hvalue, hadds⟩ := ih (d.processed w file ⟨package, d.name.name⟩ p).2
    rw [processTypes, List.map_cons, List.flatMap_cons, List.flatMap_append, ← hvalue,
      ← d.fst_processed w file _ p]
    exact ⟨rfl, (d.processed_adds w file _ p).append hadds⟩

/-- **What comes of files**, the first of which has the number `k`. -/
theorem processFiles_eq (k : Nat) (fs : List SourceFile) (p : Progress) :
    (w.processFiles k fs p).1 = ((fs.zipIdx k).map fun x => x.1.made w x.2) ∧
      p.Adds ((fs.zipIdx k).flatMap fun x => x.1.applications w x.2) (w.processFiles k fs p).2 := by
  induction fs generalizing k p with
  | nil => exact ⟨rfl, ⟨(List.append_nil _).symm, (Bool.or_false _).symm⟩⟩
  | cons f fs ih =>
    obtain ⟨htypes, hadds⟩ := w.processTypes_eq k f.scope.package f.unit.types
      ⟨p.diagnostics.setSource (some f.name), p.applications⟩
    obtain ⟨hrest, hadds'⟩ := ih (k + 1) (w.processTypes k f.scope.package f.unit.types
      ⟨p.diagnostics.setSource (some f.name), p.applications⟩).2
    rw [processFiles, List.zipIdx_cons, List.map_cons, List.flatMap_cons, ← hrest,
      SourceFile.made, ← htypes]
    exact ⟨rfl, hadds.setSource.append hadds'⟩

end Workshop

/-! ### Units -/

namespace BuildUnit

/-- The workshop in which the files of a unit are processed. -/
def workshop (u : BuildUnit) : Workshop := ⟨u.options.markers, u.registration.registry, u.files⟩

/-- What comes of a unit, file by file. -/
theorem output_made {u : BuildUnit} {out : BuildOutput} (h : u.output = .ok out) :
    out.files = (u.files.zipIdx.map fun x => x.1.made u.workshop x.2) ∧
      out.applications = u.files.zipIdx.flatMap fun x => x.1.applications u.workshop x.2 := by
  obtain ⟨-, hfiles, -, happlications⟩ := output_of_ok h
  obtain ⟨hmade, hadds⟩ := u.workshop.processFiles_eq 0 u.files ⟨u.reported, []⟩
  exact ⟨hfiles.trans hmade, happlications.trans hadds.applications⟩

theorem getElem?_files_output {u : BuildUnit} {out : BuildOutput} (h : u.output = .ok out)
    (j : Nat) : out.files[j]? = (u.files[j]?).map fun f => f.made u.workshop j := by
  rw [(output_made h).1, List.getElem?_map, List.getElem?_zipIdx, Option.map_map, Nat.zero_add]
  rfl

end BuildUnit

end JavaGraft

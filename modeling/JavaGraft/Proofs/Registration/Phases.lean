import JavaGraft.Proofs.Symbol.Supertypes
import JavaGraft.Registration.Run

/-!
# What registration comes to

Both phases of the registration of files are walks with a state. What they come to is said here
without one.

* The first phase enters the types that the files write (`JavaGraft.SourceFile.entries`), one on top
  of the other. It goes without a fault exactly if their names are new and differ from each other,
  and then nothing is left out (`JavaGraft.Registration.declared_spec`).
* The second phase gives every declared type what was found for it
  (`JavaGraft.Registration.entered_eq_map`), if no two types have the same identity.
-/

namespace JavaGraft

/-! ### The types that files write -/

/-- A type as it is declared, and what is left to be found for it. -/
abbrev Entry := TypeSymbol × Pending

mutual

/-- What a type enters under a name: itself, then its member types. -/
def TypeDecl.entries (file : Nat) (scope : FileScope) (name : QualifiedName)
    (outer : Option (TypeHash × TypeKind)) : TypeDecl → List Entry
  | ⟨mods, kind, ident, tps, sup, is, cs, members, span⟩ =>
    let flags := Declared.nestedFlags (outer.map Prod.snd) kind mods.flags
    let symbol := TypeSymbol.declared name kind flags (tps.map (·.name.name)) (outer.map Prod.fst)
    (symbol, ⟨file, scope, symbol.hash, ⟨mods, kind, ident, tps, sup, is, cs, members, span⟩⟩) ::
      Member.entries file scope name (symbol.hash, kind) members

/-- What the types among the members of a type enter. -/
def Member.entries (file : Nat) (scope : FileScope) (name : QualifiedName)
    (outer : TypeHash × TypeKind) : List Member → List Entry
  | [] => []
  | .type d :: ms =>
    d.entries file scope (name.member d.name.name) (some outer) ++
      Member.entries file scope name outer ms
  | .field .. :: ms | .method .. :: ms | .constructor .. :: ms | .initializer .. :: ms =>
    Member.entries file scope name outer ms

end

/-- What a file enters, as the file of a number. -/
def SourceFile.entries (file : SourceFile) (index : Nat) : List Entry :=
  file.unit.types.flatMap fun d =>
    d.entries index file.scope ⟨file.scope.package, d.name.name⟩ none

/-- The name under which something is entered. -/
def Entry.name (e : Entry) : QualifiedName := e.1.name

/-- What is entered is new: it has the identity of what is left to be found, and nothing was found
yet. -/
structure Entry.IsNew (e : Entry) : Prop where
  hash : e.2.hash = e.1.hash
  superclass : e.1.superclass = none
  interfaces : e.1.interfaces = []
  members : e.1.members = []

mutual

theorem TypeDecl.isNew_entries {file : Nat} {scope : FileScope} {name : QualifiedName}
    {outer : Option (TypeHash × TypeKind)} : ∀ d : TypeDecl,
    ∀ e ∈ d.entries file scope name outer, Entry.IsNew e
  | ⟨mods, kind, ident, tps, sup, is, cs, members, span⟩ => by
    intro e he
    rw [TypeDecl.entries] at he
    rcases List.mem_cons.mp he with rfl | he
    · exact ⟨rfl, rfl, rfl, rfl⟩
    · exact Member.isNew_entries members e he

theorem Member.isNew_entries {file : Nat} {scope : FileScope} {name : QualifiedName}
    {outer : TypeHash × TypeKind} : ∀ ms : List Member,
    ∀ e ∈ Member.entries file scope name outer ms, Entry.IsNew e
  | [] => fun _ he => absurd he List.not_mem_nil
  | .type d :: ms => by
    intro e he
    rw [Member.entries] at he
    rcases List.mem_append.mp he with he | he
    · exact d.isNew_entries e he
    · exact Member.isNew_entries ms e he
  | .field .. :: ms | .method .. :: ms | .constructor .. :: ms | .initializer .. :: ms =>
    Member.isNew_entries ms

end

/-! ### The first phase -/

namespace Declared

/-- The state with entries added, all of them. -/
def add (s : Declared) (es : List Entry) : Declared :=
  ⟨⟨(es.map Prod.fst).reverse ++ s.registry.latestFirst⟩, s.pending ++ es.map Prod.snd, s.faults⟩

/-- Whether the names of entries differ from each other and from those of the types there. -/
def Fresh (s : Declared) (es : List Entry) : Prop :=
  (es.map Entry.name).Nodup ∧ ∀ e ∈ es, ∀ t ∈ s.registry.latestFirst, t.name ≠ e.name

theorem add_nil (s : Declared) : s.add [] = s := by simp [add]

theorem add_append (s : Declared) (es es' : List Entry) :
    s.add (es ++ es') = (s.add es).add es' := by
  simp [add]

theorem fresh_nil (s : Declared) : s.Fresh [] := by simp [Fresh]

/-- Entries are new one after the other if they are new together. -/
theorem fresh_append (s : Declared) (es es' : List Entry) :
    s.Fresh (es ++ es') ↔ s.Fresh es ∧ (s.add es).Fresh es' := by
  simp only [Fresh, add, List.map_append, List.nodup_append, List.mem_append, List.mem_reverse,
    List.mem_map]
  constructor
  · rintro ⟨⟨hes, hes', hne⟩, hnew⟩
    refine ⟨⟨hes, fun e he => hnew e (.inl he)⟩, hes', fun e he t ht => ?_⟩
    rcases ht with ⟨x, hx, rfl⟩ | ht
    · exact hne _ ⟨x, hx, rfl⟩ _ ⟨e, he, rfl⟩
    · exact hnew e (.inr he) t ht
  · rintro ⟨⟨hes, hnew⟩, hes', hnew'⟩
    refine ⟨⟨hes, hes', ?_⟩, fun e he t ht => ?_⟩
    · rintro _ ⟨x, hx, rfl⟩ _ ⟨e, he, rfl⟩
      exact hnew' e he x.1 (.inl ⟨x, hx, rfl⟩)
    · rcases he with he | he
      · exact hnew e he t ht
      · exact hnew' e he t (.inr ht)

/-- **What entering comes to**: either the entries are new and all of them are added, or they are
not and there is a new fault. -/
def Enters (s : Declared) (es : List Entry) (s' : Declared) : Prop :=
  (s.Fresh es ∧ s' = s.add es) ∨ (¬ s.Fresh es ∧ s.faults.length < s'.faults.length)

theorem enters_nil (s : Declared) : Enters s [] s := .inl ⟨s.fresh_nil, s.add_nil.symm⟩

/-- What is entered one after the other is entered together. -/
theorem Enters.append {s s₁ s₂ : Declared} {es es' : List Entry} (h : Enters s es s₁)
    (h' : Enters s₁ es' s₂) : Enters s (es ++ es') s₂ := by
  rcases h with ⟨hfresh, rfl⟩ | ⟨hfresh, hlt⟩
  · rcases h' with ⟨hfresh', rfl⟩ | ⟨hfresh', hlt'⟩
    · exact .inl ⟨(s.fresh_append es es').mpr ⟨hfresh, hfresh'⟩, (s.add_append es es').symm⟩
    · exact .inr ⟨fun h => hfresh' ((s.fresh_append es es').mp h).2, hlt'⟩
  · refine .inr ⟨fun h => hfresh ((s.fresh_append es es').mp h).1, ?_⟩
    rcases h' with ⟨-, rfl⟩ | ⟨-, hlt'⟩
    · exact hlt
    · exact Nat.lt_trans hlt hlt'

/-- A single type is entered if its name is new. -/
theorem fresh_singleton (s : Declared) (e : Entry) :
    s.Fresh [e] ↔ (s.registry.find? e.1.name).isSome = false := by
  rw [Option.isSome_eq_false_iff, Option.isNone_iff_eq_none, Registry.find?, List.find?_eq_none]
  simp [Fresh, Entry.name]

mutual

theorem declare_enters (s : Declared) (file : Nat) (scope : FileScope) (name : QualifiedName)
    (outer : Option (TypeHash × TypeKind)) : ∀ d : TypeDecl,
    Enters s (d.entries file scope name outer) (s.declare file scope name outer d)
  | ⟨mods, kind, ident, tps, sup, is, cs, members, span⟩ => by
    have hone := s.fresh_singleton
    generalize hsymbol : TypeSymbol.declared name kind
      (nestedFlags (outer.map Prod.snd) kind mods.flags) (tps.map (·.name.name))
      (outer.map Prod.fst) = symbol
    rw [declare, TypeDecl.entries]
    simp only [hsymbol, Registry.register]
    -- If the name is taken, the type is left out with all its members and there is a fault.
    cases hknown : (s.registry.find? symbol.name).isSome with
    | true =>
      refine .inr ⟨fun hfresh => ?_, by simp⟩
      have hnew := ((s.fresh_append [_] _).mp hfresh).1
      rw [hone, hknown] at hnew
      exact absurd hnew (by simp)
    | false =>
      have hfirst : Enters s [(symbol, ⟨file, scope, symbol.hash,
          ⟨mods, kind, ident, tps, sup, is, cs, members, span⟩⟩)] _ :=
        .inl ⟨(hone _).mpr hknown, rfl⟩
      exact hfirst.append (declareMembers_enters _ file scope name (symbol.hash, kind) members)

theorem declareMembers_enters (s : Declared) (file : Nat) (scope : FileScope)
    (name : QualifiedName) (outer : TypeHash × TypeKind) : ∀ ms : List Member,
    Enters s (Member.entries file scope name outer ms) (s.declareMembers file scope name outer ms)
  | [] => s.enters_nil
  | .type d :: ms =>
    (declare_enters s file scope (name.member d.name.name) (some outer) d).append
      (declareMembers_enters _ file scope name outer ms)
  | .field .. :: ms | .method .. :: ms | .constructor .. :: ms | .initializer .. :: ms =>
    declareMembers_enters s file scope name outer ms

end

theorem declareFile_enters (s : Declared) (file : SourceFile) (index : Nat) :
    Enters s (file.entries index) (s.declareFile file index) := by
  rw [SourceFile.entries, declareFile]
  induction file.unit.types generalizing s with
  | nil => exact s.enters_nil
  | cons d ds ih =>
    rw [List.flatMap_cons, List.foldl_cons]
    exact (s.declare_enters index file.scope _ none d).append (ih _)

end Declared

namespace Registration

/-- What numbered files enter. -/
def entries (files : List (SourceFile × Nat)) : List Entry :=
  files.flatMap fun (file, index) => file.entries index

theorem isNew_of_mem {files : List (SourceFile × Nat)} {e : Entry} (he : e ∈ entries files) :
    Entry.IsNew e := by
  obtain ⟨f, -, he⟩ := List.mem_flatMap.mp he
  obtain ⟨d, -, he⟩ := List.mem_flatMap.mp he
  exact d.isNew_entries e he

/-- The state after the first phase. -/
def declared (registry : Registry) (files : List (SourceFile × Nat)) : Declared :=
  files.foldl (fun s (file, index) => s.declareFile file index) ⟨registry, [], []⟩

/-- **What the first phase comes to.** -/
theorem declared_spec (registry : Registry) (files : List (SourceFile × Nat)) :
    Declared.Enters ⟨registry, [], []⟩ (entries files) (declared registry files) := by
  rw [entries, declared]
  generalize (⟨registry, [], []⟩ : Declared) = s
  induction files generalizing s with
  | nil => exact s.enters_nil
  | cons f fs ih =>
    rw [List.flatMap_cons, List.foldl_cons]
    exact (s.declareFile_enters f.1 f.2).append (ih _)

/-- **The first phase goes without a fault** exactly if all names are new and differ from each
other. -/
theorem faults_declared (registry : Registry) (files : List (SourceFile × Nat)) :
    (declared registry files).faults = [] ↔
      Declared.Fresh ⟨registry, [], []⟩ (entries files) := by
  rcases declared_spec registry files with ⟨hfresh, heq⟩ | ⟨hfresh, hlt⟩
  · rw [heq]
    exact ⟨fun _ => hfresh, fun _ => rfl⟩
  · refine ⟨fun h => ?_, fun h => absurd h hfresh⟩
    rw [h] at hlt
    exact absurd hlt (by simp)

/-- Without a fault, everything is entered. -/
theorem declared_of_fresh {registry : Registry} {files : List (SourceFile × Nat)}
    (h : Declared.Fresh ⟨registry, [], []⟩ (entries files)) :
    declared registry files = Declared.add ⟨registry, [], []⟩ (entries files) := by
  rcases declared_spec registry files with ⟨-, heq⟩ | ⟨hfresh, -⟩
  · exact heq
  · exact absurd h hfresh

end Registration

/-! ### The second phase -/

namespace Completion

/-- A symbol with what was found for it. -/
def put (c : Completion) (t : TypeSymbol) : TypeSymbol :=
  { t with superclass := c.superclass, interfaces := c.interfaces, members := c.members }

/-- A symbol with what was found for it, if anything was. -/
def fill (done : List Completion) (t : TypeSymbol) : TypeSymbol :=
  (done.find? (·.hash == t.hash)).elim t (·.put t)

/-- Nothing is changed in a symbol for which nothing was found. -/
theorem fill_of_not_mem {done : List Completion} {t : TypeSymbol}
    (h : t.hash ∉ done.map Completion.hash) : fill done t = t := by
  have hnone : done.find? (·.hash == t.hash) = none := by
    rw [List.find?_eq_none]
    intro c hc hhash
    exact h ((beq_iff_eq.mp hhash) ▸ List.mem_map_of_mem hc)
  rw [fill, hnone]
  rfl

/-- What was found first for a symbol is put into it. -/
theorem fill_cons (c : Completion) (done : List Completion) (t : TypeSymbol) :
    fill (c :: done) t = if t.hash = c.hash then c.put t else fill done t := by
  rw [fill, List.find?_cons]
  by_cases h : t.hash = c.hash
  · rw [if_pos h, show (c.hash == t.hash) = true by simp [h]]
    rfl
  · rw [if_neg h, show (c.hash == t.hash) = false by simpa using Ne.symm h, fill]

@[simp] theorem hash_fill (done : List Completion) (t : TypeSymbol) :
    (fill done t).hash = t.hash := by
  rw [fill]
  cases done.find? (·.hash == t.hash) <;> rfl

end Completion

namespace Registry

/-- Types of different identities are changed independently of each other. -/
theorem modify_eq_map {ts : List TypeSymbol} (hd : (ts.map TypeSymbol.hash).Nodup) (h : TypeHash)
    (f : TypeSymbol → TypeSymbol) :
    ts.modify (ts.findIdx (·.hash == h)) f = ts.map fun t => if t.hash = h then f t else t := by
  induction ts with
  | nil => rfl
  | cons t ts ih =>
    rw [List.map_cons, List.nodup_cons] at hd
    obtain ⟨ht, hts⟩ := hd
    rw [List.findIdx_cons, List.map_cons]
    -- If this is the type, no other has its identity and all others stay.
    by_cases hth : t.hash = h
    · have hrest : ts.map (fun t => if t.hash = h then f t else t) = ts := by
        refine (List.map_congr_left fun u hu => ?_).trans (List.map_id ts)
        have huh : u.hash ≠ h := fun huh => ht ((hth.trans huh.symm) ▸ List.mem_map_of_mem hu)
        rw [if_neg huh]
        rfl
      rw [if_pos hth, hrest, show (t.hash == h) = true by simpa using hth]
      rfl
    · rw [if_neg hth, ← ih hts, show (t.hash == h) = false by simpa using hth]
      rfl

end Registry

namespace Registration

/-- **What the second phase comes to.** -/
theorem entered_eq_map (done : List Completion) (r : Registry)
    (hr : (r.latestFirst.map TypeSymbol.hash).Nodup) (hdone : (done.map Completion.hash).Nodup) :
    done.foldl Completion.enter r = ⟨r.latestFirst.map (Completion.fill done)⟩ := by
  induction done generalizing r with
  | nil => exact congrArg Registry.mk (List.map_id r.latestFirst).symm
  | cons c cs ih =>
    obtain ⟨ts⟩ := r
    rw [List.map_cons, List.nodup_cons] at hdone
    obtain ⟨hc, hcs⟩ := hdone
    have henter : Completion.enter ⟨ts⟩ c
        = ⟨ts.map fun t => if t.hash = c.hash then c.put t else t⟩ :=
      congrArg Registry.mk (Registry.modify_eq_map hr c.hash c.put)
    -- Entering one completion keeps identities, so the rest can be entered by induction.
    have hhash : (ts.map fun t => if t.hash = c.hash then c.put t else t).map TypeSymbol.hash
        = ts.map TypeSymbol.hash := by
      rw [List.map_map]
      refine List.map_congr_left fun t _ => ?_
      rw [Function.comp_apply]
      split <;> rfl
    rw [List.foldl_cons, henter, ih _ (by rw [hhash]; exact hr) hcs, List.map_map]
    refine congrArg Registry.mk (List.map_congr_left fun t _ => ?_)
    rw [Function.comp_apply, Completion.fill_cons]
    by_cases ht : t.hash = c.hash
    · rw [if_pos ht, if_pos ht, Completion.fill_of_not_mem]
      exact ht ▸ hc
    · rw [if_neg ht, if_neg ht]

/-! ### Both phases -/

/-- The registry after the first phase, if that goes without a fault. -/
def found (r : Registry) (files : List (SourceFile × Nat)) : Registry :=
  ⟨((entries files).map Prod.fst).reverse ++ r.latestFirst⟩

/-- What is found for the types in the second phase. -/
def completions (r : Registry) (files : List (SourceFile × Nat)) : List Completion :=
  (entries files).map fun e => e.2.completion (found r files)

section Success

variable {r : Registry} {files : List SourceFile}

/-- Without a fault, all names are new. -/
theorem fresh_of_isSuccess (h : (run r files).isSuccess) :
    Declared.Fresh ⟨r, [], []⟩ (entries files.zipIdx) := by
  have hfaults : (declared r files.zipIdx).faults ++ _ = [] := List.isEmpty_iff.mp h
  exact (faults_declared r files.zipIdx).mp (List.append_eq_nil_iff.mp hfaults).1

/-- **What registration comes to.** -/
theorem run_of_fresh (h : Declared.Fresh ⟨r, [], []⟩ (entries files.zipIdx)) :
    (run r files).registry
        = (completions r files.zipIdx).foldl Completion.enter (found r files.zipIdx) ∧
      (run r files).faults = (run r files).registry.cycle?.toList ∧
      (run r files).warnings
        = (entries files.zipIdx).flatMap fun e => e.2.complaints (found r files.zipIdx) := by
  have hdeclared := declared_of_fresh h
  have hrun : run r files =
      let s := declared r files.zipIdx
      let completions := s.pending.map (·.completion s.registry)
      let entered := completions.foldl Completion.enter s.registry
      ⟨entered, s.pending.length, (completions.flatMap (·.members)).length,
        s.faults ++ entered.cycle?.toList, s.pending.flatMap (·.complaints s.registry)⟩ := rfl
  rw [hrun, hdeclared]
  simp only [Declared.add, List.nil_append, List.map_map, List.flatMap_map]
  exact ⟨rfl, trivial, rfl⟩

/-- A change that keeps what is looked at does not show, wherever it is made. -/
theorem map_modify {α β : Type} {f : α → α} {g : α → β} (hg : ∀ x, g (f x) = g x) (xs : List α)
    (i : Nat) : (xs.modify i f).map g = xs.map g := by
  induction xs generalizing i with
  | nil => rw [List.modify_nil]
  | cons x xs ih =>
    cases i with
    | zero => rw [List.modify_zero_cons, List.map_cons, hg, List.map_cons]
    | succ i => rw [List.modify_succ_cons, List.map_cons, ih, List.map_cons]

/-- Entering what was found changes nothing that a completion leaves as it is. -/
theorem map_entered {β : Type} {g : TypeSymbol → β} (hg : ∀ (c : Completion) t, g (c.put t) = g t)
    (done : List Completion) (r : Registry) :
    (done.foldl Completion.enter r).latestFirst.map g = r.latestFirst.map g := by
  induction done generalizing r with
  | nil => rfl
  | cons c cs ih =>
    rw [List.foldl_cons, ih]
    exact map_modify (hg c) _ _

/-- Entering what was found changes no identities. -/
theorem hashes_entered (done : List Completion) (r : Registry) :
    (done.foldl Completion.enter r).latestFirst.map TypeSymbol.hash
      = r.latestFirst.map TypeSymbol.hash := map_entered (fun _ _ => rfl) done r

variable (hfresh : Declared.Fresh ⟨r, [], []⟩ (entries files.zipIdx))
  (hdistinct : (run r files).registry.Distinct)
include hfresh hdistinct

/-- If no two types have the same identity in the end, none had after the first phase. -/
theorem distinct_found : (found r files.zipIdx).Distinct := by
  rw [Registry.Distinct, ← hashes_entered (completions r files.zipIdx), ← (run_of_fresh hfresh).1]
  exact hdistinct

theorem nodup_hash_completions :
    ((completions r files.zipIdx).map Completion.hash).Nodup := by
  have hnodup := distinct_found hfresh hdistinct
  rw [Registry.Distinct, found, List.map_append, List.map_reverse, List.map_map] at hnodup
  have hentries := List.nodup_reverse.mp (List.nodup_append.mp hnodup).1
  have hhash : (completions r files.zipIdx).map Completion.hash
      = (entries files.zipIdx).map (TypeSymbol.hash ∘ Prod.fst) := by
    rw [completions, List.map_map]
    exact List.map_congr_left fun e he => (isNew_of_mem he).hash
  rw [hhash]
  exact hentries

/-- **The registered types**: those found in the first phase, with what was found for them. -/
theorem run_registry : (run r files).registry
    = (found r files.zipIdx).mapped (Completion.fill (completions r files.zipIdx)) := by
  rw [(run_of_fresh hfresh).1]
  exact entered_eq_map _ _ (distinct_found hfresh hdistinct)
    (nodup_hash_completions hfresh hdistinct)

/-- For what a file enters, what is found is what was left to be found for it. -/
theorem fill_entry {e : Entry} (he : e ∈ entries files.zipIdx) :
    Completion.fill (completions r files.zipIdx) e.1
      = (e.2.completion (found r files.zipIdx)).put e.1 := by
  have hmem : e.2.completion (found r files.zipIdx) ∈ completions r files.zipIdx :=
    List.mem_map_of_mem he
  have hfind : (completions r files.zipIdx).find? (·.hash == e.1.hash)
      = some (e.2.completion (found r files.zipIdx)) :=
    Registry.find?_of_mem (nodup_hash_completions hfresh hdistinct) hmem (isNew_of_mem he).hash
  rw [Completion.fill, hfind]
  rfl

/-- A type that a file enters is found by its identity. -/
theorem get?_entry {e : Entry} (he : e ∈ entries files.zipIdx) :
    (found r files.zipIdx).get? e.1.hash = some e.1 :=
  Registry.find?_of_mem (distinct_found hfresh hdistinct)
    (List.mem_append_left _ (List.mem_reverse.mpr (List.mem_map_of_mem he))) rfl

end Success

end Registration

end JavaGraft

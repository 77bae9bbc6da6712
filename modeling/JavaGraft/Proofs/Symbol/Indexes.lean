import JavaGraft.Proofs.Registration.Order
import JavaGraft.Proofs.Symbol.Packages

/-!
# A registry with indexes

A registry is one list of types, and all its answers are read off that list. They can be looked up
instead: here a registry keeps five indexes, and entering a type changes them one after the other,
in place. After any types were entered, some of which may have been refused, both give the same
answers (`JavaGraft.Indexes.Represents.registerAll`).

What they answer is said in terms of the types that were entered with a new name
(`JavaGraft.Indexes.registerAll_spec`).
-/

namespace JavaGraft

instance : Hashable QualifiedName := ⟨fun n => mixHash (hash n.qualifier) (hash n.simple)⟩

/-- **A registry with indexes**: the types by name, the names by identity, the names of the types
that are no members by package and simple name, the known packages, and the names in the order of
declaration. -/
structure Indexes where
  types : Std.HashMap QualifiedName TypeSymbol
  nameOfHash : Std.HashMap TypeHash QualifiedName
  byPackage : Std.HashMap String (Std.HashMap String QualifiedName)
  packages : Std.HashSet String
  order : List QualifiedName

namespace Indexes

/-- No type at all. -/
def empty : Indexes := ⟨∅, ∅, ∅, ∅, []⟩

/-! ### Adding -/

/-- Enters the packages that names make up behind a package. -/
def enterPackages (packages : Std.HashSet String) (path : String) :
    List String → Std.HashSet String
  | [] => packages
  | name :: names =>
    let path := (if path = "" then path else path ++ ".") ++ name
    enterPackages (packages.insert path) path names

/-- Enters a name in its package. -/
def enterInPackage (byPackage : Std.HashMap String (Std.HashMap String QualifiedName))
    (name : QualifiedName) : Std.HashMap String (Std.HashMap String QualifiedName) :=
  byPackage.insert name.qualifier ((byPackage.getD name.qualifier ∅).insert name.simple name)

/-- **Adds a type**, unless its name is taken. What is changed before a fault stays changed. -/
def register (t : TypeSymbol) : EStateM RegistrationFault Indexes Unit := do
  if (← get).types.contains t.name then throw (.duplicateType t.name.text)
  if t.outer.isNone then
    modify fun x => { x with byPackage := enterInPackage x.byPackage t.name }
    modify fun x =>
      { x with packages := enterPackages x.packages "" (packageNames t.name.qualifier) }
  modify fun x => { x with nameOfHash := x.nameOfHash.insert t.hash t.name }
  modify fun x => { x with order := x.order ++ [t.name] }
  modify fun x => { x with types := x.types.insert t.name t }

/-! ### Looking up -/

/-- The type of a name. -/
def find? (x : Indexes) (name : QualifiedName) : Option TypeSymbol := x.types[name]?

/-- The type of an identity. -/
def get? (x : Indexes) (hash : TypeHash) : Option TypeSymbol := x.nameOfHash[hash]?.bind x.find?

/-- The type of a simple name in a package. -/
def inPackage? (x : Indexes) (package simple : String) : Option TypeSymbol :=
  (x.byPackage[package]?.bind (·[simple]?)).bind x.find?

/-- Whether a package or one below it holds a type. -/
def hasPackage (x : Indexes) (package : String) : Bool := x.packages.contains package

/-- The types in the order of their declaration. -/
def allTypes (x : Indexes) : List TypeSymbol := x.order.filterMap x.find?

/-! ### What adding comes to -/

/-- The indexes with a type entered in all of them. -/
def entered (x : Indexes) (t : TypeSymbol) : Indexes where
  types := x.types.insert t.name t
  nameOfHash := x.nameOfHash.insert t.hash t.name
  byPackage := if t.outer.isNone then enterInPackage x.byPackage t.name else x.byPackage
  packages :=
    if t.outer.isNone then enterPackages x.packages "" (packageNames t.name.qualifier)
    else x.packages
  order := x.order ++ [t.name]

/-- **What adding comes to**: either the name is taken and nothing is changed, or the type is
entered in all indexes. -/
theorem run_register (x : Indexes) (t : TypeSymbol) :
    (register t).run x =
      if x.types.contains t.name then .error (.duplicateType t.name.text) x
      else .ok () (x.entered t) := by
  have hcheck : ∀ (c : Prop) [Decidable c] (e : RegistrationFault)
      (k : Unit → EStateM RegistrationFault Indexes Unit),
      (if c then throw e >>= k else k ()).run x = if c then .error e x else (k ()).run x := by
    intro c _ e k
    split <;> rfl
  have hget : ∀ k : Indexes → EStateM RegistrationFault Indexes Unit,
      (get >>= k).run x = (k x).run x := fun _ => rfl
  rw [register, hget, hcheck]
  refine congrArg (ite _ _) ?_
  rw [entered]
  cases t.outer.isNone with
  | true => rfl
  | false => rfl

/-- The packages that are entered behind names which make up one. -/
theorem contains_enterPackages (packages : Std.HashSet String) {done names : List String}
    (hdone : "" ∉ done) (hnames : "" ∉ names) (p : String) :
    (enterPackages packages (joinDots done) names).contains p ↔ packages.contains p ∨
      ∃ first rest, first ≠ [] ∧ names = first ++ rest ∧ p = joinDots (done ++ first) := by
  induction names generalizing packages done with
  | nil =>
    refine ⟨.inl, fun h => h.resolve_right ?_⟩
    rintro ⟨first, rest, hne, hnil, -⟩
    exact hne (List.append_eq_nil_iff.mp hnil.symm).1
  | cons name names ih =>
    obtain ⟨hname, hnames⟩ := not_or.mp (mt List.mem_cons.mpr hnames)
    have hdone' : "" ∉ done ++ [name] := by
      rw [List.mem_append, List.mem_singleton]
      exact not_or.mpr ⟨hdone, hname⟩
    -- each name is put behind those before it, and what they make up together is entered
    rw [enterPackages, ← joinDots_concat hdone, ih _ hdone' hnames, Std.HashSet.contains_insert,
      Bool.or_eq_true, beq_iff_eq]
    constructor
    · rintro ((rfl | hp) | ⟨first, rest, -, rfl, rfl⟩)
      · exact .inr ⟨[name], names, List.cons_ne_nil _ _, rfl, rfl⟩
      · exact .inl hp
      · exact .inr ⟨name :: first, rest, List.cons_ne_nil _ _, rfl, by simp⟩
    · rintro (hp | ⟨first, rest, hne, hsplit, rfl⟩)
      · exact .inl (.inr hp)
      · obtain ⟨x, first, rfl⟩ := List.exists_cons_of_ne_nil hne
        obtain ⟨rfl, rfl⟩ := List.cons.inj hsplit
        by_cases hfirst : first = []
        · exact .inl (.inl (by rw [hfirst]))
        · exact .inr ⟨first, rest, hfirst, rfl, by simp⟩

/-- The packages at and above a package are entered. -/
theorem contains_enterPackages_beginnings (packages : Std.HashSet String) (package p : String) :
    (enterPackages packages "" (packageNames package)).contains p
      = ((Registry.beginnings package).contains p || packages.contains p) := by
  have hnames : "" ∉ packageNames package := by
    rw [packageNames, List.mem_filter]
    exact fun h => absurd rfl (of_decide_eq_true h.2)
  rw [Bool.eq_iff_iff, Bool.or_eq_true, List.contains_iff_mem, Registry.mem_beginnings, or_comm]
  exact @contains_enterPackages packages [] _ List.not_mem_nil hnames p

/-- What is found in the packages after a name was entered. -/
theorem getElem?_enterInPackage
    (byPackage : Std.HashMap String (Std.HashMap String QualifiedName)) (name : QualifiedName)
    (p s : String) : (enterInPackage byPackage name)[p]?.bind (·[s]?)
      = if name = ⟨p, s⟩ then some name else byPackage[p]?.bind (·[s]?) := by
  rw [enterInPackage, Std.HashMap.getElem?_insert]
  by_cases hp : name.qualifier = p
  · rw [if_pos (beq_iff_eq.mpr hp), Option.bind_some, Std.HashMap.getElem?_insert, ← hp]
    by_cases hs : name.simple = s
    · rw [if_pos (beq_iff_eq.mpr hs), if_pos (by rw [← hs])]
    · rw [if_neg (mt beq_iff_eq.mp hs), if_neg fun h => hs (congrArg QualifiedName.simple h),
        Std.HashMap.getD_eq_getD_getElem?]
      cases byPackage[name.qualifier]? with
      | none => exact Std.HashMap.getElem?_empty
      | some names => rfl
  · rw [if_neg (mt beq_iff_eq.mp hp), if_neg fun h => hp (congrArg QualifiedName.qualifier h)]

end Indexes

/-! ### A type more -/

namespace Registry

variable (t : TypeSymbol) (ts : List TypeSymbol)

theorem find?_cons (n : QualifiedName) :
    find? ⟨t :: ts⟩ n = if t.name == n then some t else find? ⟨ts⟩ n := by
  rw [find?, List.find?_cons]
  cases t.name == n <;> rfl

theorem get?_cons (h : TypeHash) :
    get? ⟨t :: ts⟩ h = if t.hash == h then some t else get? ⟨ts⟩ h := by
  rw [get?, List.find?_cons]
  cases t.hash == h <;> rfl

theorem hasPackage_cons (p : String) : hasPackage ⟨t :: ts⟩ p
    = (t.outer.isNone && (beginnings t.name.qualifier).contains p || hasPackage ⟨ts⟩ p) :=
  List.any_cons

variable {t ts} (ht : find? ⟨ts⟩ t.name = none) (p s : String)
include ht

/-- A type with a new name is found in its package, unless it is a member. -/
theorem inPackage?_cons : inPackage? ⟨t :: ts⟩ p s
    = if t.outer.isNone ∧ t.name = ⟨p, s⟩ then some t else inPackage? ⟨ts⟩ p s := by
  rw [inPackage?, inPackage?, find?_cons]
  by_cases hname : t.name = ⟨p, s⟩
  · rw [if_pos (beq_iff_eq.mpr hname), ← hname, ht]
    cases houter : t.outer <;> simp [houter]
  · rw [if_neg (mt beq_iff_eq.mp hname), if_neg fun h => hname h.2]

end Registry

/-! ### Lists and indexes -/

namespace Indexes

/-- **Indexes of a registry**: each index says what the list of types says. -/
structure Represents (x : Indexes) (r : Registry) : Prop where
  names : r.names.Nodup
  types : ∀ n, x.types[n]? = r.find? n
  nameOfHash : ∀ h, x.nameOfHash[h]? = (r.get? h).map TypeSymbol.name
  byPackage : ∀ p s, x.byPackage[p]?.bind (·[s]?) = (r.inPackage? p s).map TypeSymbol.name
  packages : ∀ p, x.packages.contains p = r.hasPackage p
  order : x.order = r.types.map TypeSymbol.name

theorem represents_empty : Represents empty .empty where
  names := List.nodup_nil
  types n := Std.HashMap.getElem?_empty
  nameOfHash h := Std.HashMap.getElem?_empty
  byPackage p s := by
    rw [show empty.byPackage[p]? = none from Std.HashMap.getElem?_empty]
    rfl
  packages p := Std.HashSet.contains_empty
  order := rfl

section Represents

variable {x : Indexes} {r : Registry} (h : Represents x r)
include h

/-- The indexes know the names of the registry. -/
theorem Represents.contains_types (t : TypeSymbol) :
    x.types.contains t.name = (r.find? t.name).isSome := by
  rw [← Std.HashMap.isSome_getElem?_eq_contains, h.types]

/-- **Entering a type with a new name** keeps the indexes in step with the list. -/
theorem Represents.entered {t : TypeSymbol} (ht : r.find? t.name = none) :
    Represents (x.entered t) ⟨t :: r.latestFirst⟩ where
  names := by
    refine Registry.nodup_names_register (r := r) (t := t) ?_ h.names
    rw [Registry.register, ht]
    rfl
  types n := by
    rw [Indexes.entered, Std.HashMap.getElem?_insert, h.types, Registry.find?_cons]
  nameOfHash hash := by
    rw [Indexes.entered, Std.HashMap.getElem?_insert, h.nameOfHash, Registry.get?_cons]
    split <;> rfl
  byPackage p s := by
    rw [show (x.entered t).byPackage = if t.outer.isNone then enterInPackage x.byPackage t.name
      else x.byPackage from rfl, Registry.inPackage?_cons ht]
    cases houter : t.outer.isNone with
    | true =>
      rw [if_pos rfl, getElem?_enterInPackage, h.byPackage]
      by_cases hname : t.name = ⟨p, s⟩
      · rw [if_pos hname, if_pos ⟨rfl, hname⟩, Option.map_some]
      · rw [if_neg hname, if_neg fun h => hname h.2]
    | false =>
      rw [if_neg Bool.false_ne_true, if_neg fun h => Bool.false_ne_true h.1]
      exact h.byPackage p s
  packages p := by
    rw [show (x.entered t).packages = if t.outer.isNone then
      enterPackages x.packages "" (packageNames t.name.qualifier) else x.packages from rfl,
      Registry.hasPackage_cons, ← h.packages]
    cases t.outer.isNone with
    | true => rw [if_pos rfl, contains_enterPackages_beginnings, Bool.true_and]
    | false => rw [if_neg Bool.false_ne_true, Bool.false_and, Bool.false_or]
  order := by
    rw [Indexes.entered, h.order, Registry.types, Registry.types, List.reverse_cons,
      List.map_append]
    rfl

/-- A type of the registry is found by its name. -/
theorem Represents.find?_name {t : TypeSymbol} (ht : t ∈ r.latestFirst) :
    r.find? t.name = some t :=
  Registry.find?_of_mem h.names ht rfl

end Represents

/-- **The same answers** to all questions about types and packages. -/
structure SameAnswers (x : Indexes) (r : Registry) : Prop where
  find? : ∀ n, x.find? n = r.find? n
  get? : ∀ h, x.get? h = r.get? h
  inPackage? : ∀ p s, x.inPackage? p s = r.inPackage? p s
  hasPackage : ∀ p, x.hasPackage p = r.hasPackage p
  allTypes : x.allTypes = r.types

/-- Indexes of a registry answer as it does. -/
theorem Represents.sameAnswers {x : Indexes} {r : Registry} (h : Represents x r) :
    SameAnswers x r := by
  have hfind : x.find? = r.find? := funext h.types
  -- What is found by another key is found again by its name.
  have hagain : ∀ found : Option TypeSymbol, (∀ t ∈ found, t ∈ r.latestFirst) →
      (found.map TypeSymbol.name).bind r.find? = found := by
    intro found hmem
    cases found with
    | none => rfl
    | some t => exact h.find?_name (hmem t rfl)
  refine ⟨h.types, fun hash => ?_, fun p s => ?_, h.packages, ?_⟩
  · rw [get?, h.nameOfHash, hfind]
    exact hagain _ fun t ht => List.mem_of_find?_eq_some ht
  · rw [inPackage?, h.byPackage, hfind]
    refine hagain _ fun t ht => ?_
    have hfound : r.find? ⟨p, s⟩ = some t := (Option.filter_eq_some_iff.mp ht).1
    exact List.mem_of_find?_eq_some hfound
  · rw [allTypes, h.order, hfind, List.filterMap_map]
    refine (List.filterMap_congr fun t ht => ?_).trans List.filterMap_some
    exact h.find?_name (List.mem_reverse.mp ht)

/-! ### Adding types -/

/-- Adds types one after the other, with what is answered to each. -/
def registerAll (x : Indexes) : List TypeSymbol → List (Except RegistrationFault Unit) × Indexes
  | [] => ([], x)
  | t :: ts =>
    match (register t).run x with
    | .ok a y => ((y.registerAll ts).map (.ok a :: ·) id)
    | .error e y => ((y.registerAll ts).map (.error e :: ·) id)

end Indexes

/-- Adds types one after the other, with what is answered to each. -/
def Registry.registerAll (r : Registry) :
    List TypeSymbol → List (Except RegistrationFault Unit) × Registry
  | [] => ([], r)
  | t :: ts =>
    match r.register t with
    | .ok r' => (r'.registerAll ts).map (.ok () :: ·) id
    | .error e => (r.registerAll ts).map (.error e :: ·) id

namespace Indexes

/-- **Adding goes the same way** with a list and with indexes, and they stay in step. -/
theorem Represents.registerAll {x : Indexes} {r : Registry} (h : Represents x r)
    (ts : List TypeSymbol) : (x.registerAll ts).1 = (r.registerAll ts).1 ∧
      Represents (x.registerAll ts).2 (r.registerAll ts).2 := by
  induction ts generalizing x r with
  | nil => exact ⟨rfl, h⟩
  | cons t ts ih =>
    rw [Indexes.registerAll, Registry.registerAll, run_register, h.contains_types,
      Registry.register]
    cases hknown : r.find? t.name with
    | some u =>
      obtain ⟨hanswers, hrest⟩ := ih h
      exact ⟨congrArg _ hanswers, hrest⟩
    | none =>
      obtain ⟨hanswers, hrest⟩ := ih (h.entered hknown)
      exact ⟨congrArg _ hanswers, hrest⟩

end Indexes

/-! ### The types that are there in the end -/

/-- The types whose names come up for the first time. -/
def firstOfName : List TypeSymbol → List TypeSymbol
  | [] => []
  | t :: ts => t :: (firstOfName ts).filter (·.name ≠ t.name)

theorem mem_of_mem_firstOfName {ts : List TypeSymbol} {t : TypeSymbol} (ht : t ∈ firstOfName ts) :
    t ∈ ts := by
  induction ts with
  | nil => exact ht
  | cons u ts ih =>
    rcases List.mem_cons.mp ht with rfl | ht
    · exact List.mem_cons_self
    · exact List.mem_cons_of_mem _ (ih (List.mem_filter.mp ht).1)

/-- **What is added**: the first type of every name that is new. -/
theorem Registry.types_registerAll (r : Registry) (ts : List TypeSymbol) :
    (r.registerAll ts).2.types = r.types ++ (firstOfName ts).filter (·.name ∉ r.names) := by
  induction ts generalizing r with
  | nil => exact (List.append_nil _).symm
  | cons t ts ih =>
    have hmem : t.name ∈ r.names ↔ (r.find? t.name).isSome := by
      rw [names, List.mem_map, find?, List.find?_isSome]
      exact exists_congr fun u => and_congr_right fun _ => beq_iff_eq.symm
    rw [registerAll, register, firstOfName]
    by_cases hknown : t.name ∈ r.names
    · rw [if_pos (hmem.mp hknown), List.filter_cons_of_neg (by simpa using hknown),
        List.filter_filter]
      refine (ih r).trans (congrArg _ (List.filter_congr fun u _ => ?_))
      by_cases hu : u.name = t.name <;> simp [hu, hknown]
    · rw [if_neg (mt hmem.mpr hknown), List.filter_cons_of_pos (by simpa using hknown),
        List.filter_filter]
      refine (ih _).trans ?_
      rw [types, List.reverse_cons, List.append_assoc]
      refine congrArg (r.types ++ t :: ·) (List.filter_congr fun u _ => ?_)
      by_cases hu : u.name = t.name <;> simp [names, hu]

/-! ### What is found -/

namespace Registry

/-- If keys are distinct, the element of a key is found by it, and no other. -/
theorem find?_key_iff {α β : Type} [DecidableEq β] {key : α → β} {xs : List α}
    (hxs : (xs.map key).Nodup) {x : α} {k : β} :
    xs.find? (fun y => key y == k) = some x ↔ x ∈ xs ∧ key x = k := by
  constructor
  · intro hfound
    have hkey := List.find?_some hfound
    exact ⟨List.mem_of_find?_eq_some hfound, beq_iff_eq.mp hkey⟩
  · rintro ⟨hmem, hkey⟩
    exact find?_of_mem hxs hmem hkey

variable {r : Registry}

/-- What is found by package and simple name. -/
theorem inPackage?_eq_some (hr : r.names.Nodup) {p s : String} {t : TypeSymbol} :
    r.inPackage? p s = some t ↔ t ∈ r.latestFirst ∧ t.outer = none ∧ t.name = ⟨p, s⟩ := by
  rw [inPackage?, Option.filter_eq_some_iff, find?, find?_key_iff hr, Option.isNone_iff_eq_none,
    and_assoc, and_comm (a := t.name = _)]

/-- Which packages are known. -/
theorem hasPackage_iff {p : String} :
    r.hasPackage p ↔ ∃ t ∈ r.latestFirst, t.outer = none ∧ IsBeginning p t.name.qualifier := by
  rw [hasPackage, List.any_eq_true]
  refine exists_congr fun t => and_congr_right fun _ => ?_
  rw [Bool.and_eq_true, Option.isNone_iff_eq_none, List.contains_iff_mem, mem_beginnings]

end Registry

/-! ### What the indexes say -/

namespace Indexes

/-- **Indexes that agree with each other**, after types were added in the given order.
* `answers`: they answer as the list of types does.
* `types`: the types are those whose names came up for the first time, in this order.
* `names`: no two of them have the same name.
* `find?`, `get?`: the same types are found by their names and by their identities, if no two names
  have the same identity.
* `inPackage?`: by package and simple name, those are found that are no members.
* `hasPackage`: the packages are those of these types, and those above them.
* `taken`, `new`: a type whose name is taken is refused and changes no index; any other is entered
  in all of them. -/
structure Consistent (added : List TypeSymbol) (x : Indexes) (r : Registry) : Prop where
  answers : SameAnswers x r
  types : x.allTypes = firstOfName added
  names : (x.allTypes.map TypeSymbol.name).Nodup
  find? : ∀ n t, x.find? n = some t ↔ t ∈ x.allTypes ∧ t.name = n
  get? : HashesApart (added.map TypeSymbol.name) →
    ∀ h t, x.get? h = some t ↔ t ∈ x.allTypes ∧ t.hash = h
  inPackage? : ∀ p s t,
    x.inPackage? p s = some t ↔ t ∈ x.allTypes ∧ t.outer = none ∧ t.name = ⟨p, s⟩
  hasPackage : ∀ p, x.hasPackage p ↔
    ∃ t ∈ x.allTypes, t.outer = none ∧ IsBeginning p t.name.qualifier
  taken : ∀ t, (∃ u ∈ x.allTypes, u.name = t.name) →
    (register t).run x = .error (.duplicateType t.name.text) x
  new : ∀ t, (∀ u ∈ x.allTypes, u.name ≠ t.name) → (register t).run x = .ok () (x.entered t)

/-- **Indexes of a registry agree with each other.** -/
theorem Represents.consistent {x : Indexes} {r : Registry} (h : Represents x r)
    {added : List TypeSymbol} (hadded : r.types = firstOfName added) : Consistent added x r := by
  have hanswers := h.sameAnswers
  have hmem : ∀ t, t ∈ x.allTypes ↔ t ∈ r.latestFirst := by
    intro t
    rw [hanswers.allTypes, Registry.types, List.mem_reverse]
  have hknown : ∀ t : TypeSymbol,
      x.types.contains t.name = true ↔ ∃ u ∈ x.allTypes, u.name = t.name := by
    intro t
    rw [h.contains_types, Registry.find?, List.find?_isSome]
    exact exists_congr fun u => and_congr (hmem u).symm beq_iff_eq
  refine ⟨hanswers, hanswers.allTypes.trans hadded, ?_, ?_, ?_, ?_, ?_, ?_, ?_⟩
  · rw [hanswers.allTypes, Registry.types, List.map_reverse]
    exact List.nodup_reverse.mpr h.names
  · intro n t
    rw [hanswers.find?, hmem]
    exact Registry.find?_key_iff h.names
  · intro hapart hash t
    -- names that are told apart by their hashes among those added are so among those kept
    have hsub : r.names ⊆ added.map TypeSymbol.name := by
      refine List.map_subset _ fun u hu => ?_
      rw [← List.mem_reverse, ← Registry.types, hadded] at hu
      exact mem_of_mem_firstOfName hu
    rw [hanswers.get?, hmem]
    exact Registry.find?_key_iff (Registry.distinct_of_names h.names hapart hsub)
  · intro p s t
    rw [hanswers.inPackage?, hmem]
    exact Registry.inPackage?_eq_some h.names
  · intro p
    rw [hanswers.hasPackage, Registry.hasPackage_iff]
    exact exists_congr fun t => and_congr_left fun _ => (hmem t).symm
  · intro t ht
    rw [run_register, if_pos ((hknown t).mpr ht)]
  · intro t ht
    have hnew : ¬ ∃ u ∈ x.allTypes, u.name = t.name := by
      rintro ⟨u, hu, hname⟩
      exact ht u hu hname
    rw [run_register, if_neg (mt (hknown t).mp hnew)]

/-- **Whatever types are added**, in whatever order and however many of them are refused, each call
is answered as by the list of types, and in the end the indexes agree with each other. -/
theorem registerAll_spec (added : List TypeSymbol) :
    (empty.registerAll added).1 = (Registry.empty.registerAll added).1 ∧
      Consistent added (empty.registerAll added).2 (Registry.empty.registerAll added).2 := by
  obtain ⟨hanswers, hrepresents⟩ := represents_empty.registerAll added
  refine ⟨hanswers, hrepresents.consistent ?_⟩
  rw [Registry.types_registerAll]
  exact List.filter_eq_self.mpr fun t _ => decide_eq_true List.not_mem_nil

end Indexes

end JavaGraft

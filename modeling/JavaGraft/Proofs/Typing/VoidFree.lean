import JavaGraft.Proofs.Symbol.Supertypes
import JavaGraft.Typing.Member
import Mathlib.Data.Option.Basic

/-!
# Types of values

No value has the type `void` or is an array of it. What is said here about a type that is found, if
one is found, is that it is neither of these (`JavaGraft.NotVoid`).

In a registry in which no field has such a type (`JavaGraft.Registry.VoidFree`), nothing that
names, fields and operators come to is void. There is one exception, the results of methods.
-/

namespace JavaGraft

/-- The types that typing comes to on its own. -/
theorem TypeHash.known_ne_void : ∀ h ∈ [boolean, int, long, float, double, char, null, object,
    string, classObject], h ≠ void := by decide +kernel

/-- A type, if there is one, that is neither `void` nor an array of it. -/
def NotVoid (t : Option DataType) : Prop := ∀ d ∈ t, d.base ≠ .void

namespace NotVoid

variable {a b t : Option DataType} {d x y : DataType}

theorem of_none : NotVoid none := nofun

theorem of_some (h : d.base ≠ .void) : NotVoid (some d) := by
  intro d' hd
  rwa [← Option.mem_some.mp hd]

theorem known {h : TypeHash} (hh : h ∈ [TypeHash.boolean, .int, .long, .float, .double, .char,
    .null, .object, .string, .classObject]) : NotVoid (some (.simple h)) :=
  of_some (TypeHash.known_ne_void h hh)

theorem map {f : DataType → DataType} (h : NotVoid t) (hf : ∀ d, (f d).base = d.base) :
    NotVoid (t.map f) := by
  intro d hd
  obtain ⟨d', hd', rfl⟩ := Option.map_eq_some_iff.mp hd
  rw [hf]
  exact h d' hd'

theorem bind {α : Type} {o : Option α} {f : α → Option DataType} (hf : ∀ x ∈ o, NotVoid (f x)) :
    NotVoid (o.bind f) := by
  intro d hd
  obtain ⟨x, hx, hd⟩ := Option.bind_eq_some_iff.mp hd
  exact hf x hx d hd

theorem filter {p : DataType → Bool} (h : NotVoid t) : NotVoid (t.filter p) :=
  fun d hd => h d (Option.mem_filter_iff.mp hd).1

/-! ### Arrays and operators -/

theorem elementType (h : NotVoid t) : NotVoid (elementType t) := h.filter.map fun _ => rfl

theorem withDims (n : Nat) (h : NotVoid t) : NotVoid (t.map (·.withDims n)) := h.map fun _ => rfl

/-- What a type is unboxed to is a primitive type of values. -/
theorem unboxed (d : DataType) : NotVoid d.unboxed? := by
  have hprimitive : TypeHash.isPrimitive .void = false := by decide +kernel
  have hboxes : ∀ p ∈ TypeHash.boxes, p.1 ≠ .void := by decide +kernel
  rw [DataType.unboxed?]
  split
  · next h =>
    refine of_some fun hvoid => ?_
    rw [DataType.isPrimitive, hvoid, hprimitive, Bool.and_false] at h
    cases h
  · split
    · exact of_none
    · intro u hu
      obtain ⟨x, hx, rfl⟩ := Option.map_eq_some_iff.mp hu
      obtain ⟨p, hp, rfl⟩ := Option.map_eq_some_iff.mp hx
      exact hboxes p (List.mem_of_find?_eq_some hp)

theorem promoted (d : DataType) : NotVoid d.promoted? := by
  refine bind fun u hu => ?_
  intro d' hd
  obtain ⟨rank, -, rfl⟩ := Option.map_eq_some_iff.mp hd
  split
  · exact TypeHash.known_ne_void .int (by simp)
  · exact unboxed d u hu

theorem promotedWith (hx : x.base ≠ .void) (hy : y.base ≠ .void) : NotVoid (x.promotedWith? y) := by
  unfold DataType.promotedWith?
  cases x.base.rank? with
  | none => exact of_none
  | some m =>
    cases y.base.rank? with
    | none => exact of_none
    | some n =>
      refine of_some ?_
      by_cases hint : max m n ≤ DataType.intRank
      · rw [if_pos hint]
        exact TypeHash.known_ne_void .int (by simp)
      · rw [if_neg hint]
        split
        · exact hx
        · exact hy

theorem unary (op : UnaryOp) (h : NotVoid t) : NotVoid (op.type t) := by
  cases op with
  | not => exact known (by simp)
  | increment | decrement => exact h
  | neg | plus | complement => exact bind fun d _ => promoted d

theorem binary (op : BinaryOp) : NotVoid (op.type a b) := by
  rw [BinaryOp.type]
  split
  · exact known (by simp)
  · split
    · exact known (by simp)
    · refine bind fun x hx => ?_
      obtain ⟨x', -, hx⟩ := Option.bind_eq_some_iff.mp hx
      split
      · exact promoted x
      · refine bind fun y hy => ?_
        obtain ⟨y', -, hy⟩ := Option.bind_eq_some_iff.mp hy
        split
        · exact known (by simp)
        · exact promotedWith (unboxed x' x hx) (unboxed y' y hy)

theorem joinTypes (r : Registry) (hx : x.base ≠ .void) (hy : y.base ≠ .void) :
    (r.joinTypes x y).base ≠ .void := by
  rw [Registry.joinTypes]
  split
  · exact hx
  · split
    · exact hy
    · split
      · next t hnumber =>
        obtain ⟨u, hu, hnumber⟩ := Option.bind_eq_some_iff.mp hnumber
        obtain ⟨v, hv, hnumber⟩ := Option.bind_eq_some_iff.mp hnumber
        exact promotedWith (unboxed x u hu) (unboxed y v hv) t hnumber
      · split
        · exact hy
        · split
          · exact hx
          · exact TypeHash.known_ne_void .object (by simp)

theorem literal (v : Literal) : NotVoid (some v.type) := by
  cases v <;> exact known (by simp)

end NotVoid

/-! ### Registries -/

namespace Registry

/-- **A registry without values of type `void`**: it is the type neither of a field nor of the
elements of an array that a method returns, and no class. -/
structure VoidFree (r : Registry) : Prop where
  types : ∀ t ∈ r.latestFirst, t.hash ≠ .void
  superclasses : ∀ t ∈ r.latestFirst, t.superclass ≠ some .void
  fields : ∀ t ∈ r.latestFirst, ∀ f ∈ t.fields, f.type.base ≠ .void
  results : ∀ t ∈ r.latestFirst, ∀ m ∈ t.methods,
    m.signature.result.base = .void → m.signature.result = .void

/-- Whether some type declares a method of the name that returns nothing. -/
def DeclaresVoid (r : Registry) (name : String) : Prop :=
  ∃ t ∈ r.latestFirst, ∃ m ∈ t.methods, m.name = name ∧ m.signature.result = .void

end Registry

/-! ### Names -/

/-- A place in a type that is not `void`, where a registry without values of type `void` is
known. -/
structure Context.VoidFree (c : Context) : Prop where
  registry : c.registry.VoidFree
  owner : c.owner ≠ some .void

namespace Context.VoidFree

variable {c : Context} (hc : c.VoidFree)
include hc

theorem addTypeVars (names : List String) : (c.addTypeVars names).VoidFree :=
  ⟨hc.registry, hc.owner⟩

theorem find? {name : QualifiedName} {t : TypeSymbol} (ht : c.registry.find? name = some t) :
    t.hash ≠ .void := hc.registry.types t (List.mem_of_find?_eq_some ht)

theorem memberType? {owner h : TypeHash} {name : String} (hh : c.memberType? owner name = some h) :
    h ≠ .void := by
  obtain ⟨t, ht, rfl⟩ := Option.map_eq_some_iff.mp hh
  obtain ⟨u, -, ht⟩ := List.exists_of_findSome?_eq_some ht
  exact hc.find? ht

theorem memberPath? {path : List String} {owner h : TypeHash} (howner : owner ≠ .void)
    (hh : c.memberPath? owner path = some h) : h ≠ .void := by
  induction path generalizing owner with
  | nil =>
    cases hh
    exact howner
  | cons name path ih =>
    obtain ⟨owner', howner', hh⟩ := Option.bind_eq_some_iff.mp hh
    exact ih (hc.memberType? howner') hh

theorem enclosingType? {name : String} {h : TypeHash} (hh : c.enclosingType? name = some h) :
    h ≠ .void := by
  obtain ⟨owner, -, hh⟩ := List.exists_of_findSome?_eq_some hh
  cases hget : c.registry.get? owner with
  | none =>
    rw [hget] at hh
    exact hc.memberType? hh
  | some t =>
    rw [hget] at hh
    split at hh
    · cases hh
      have hhash : t.hash = h := by simpa using List.find?_some hget
      rw [← hhash]
      exact hc.registry.types t (Registry.get?_mem hget)
    · exact hc.memberType? hh

theorem inPackage? {package simple : String} {t : TypeSymbol}
    (ht : c.registry.inPackage? package simple = some t) : t.hash ≠ .void :=
  hc.find? (Option.filter_eq_some_iff.mp ht).1

theorem fileType? {name : String} {h : TypeHash} (hh : c.fileType? name = some h) : h ≠ .void := by
  obtain ⟨t, ht, rfl⟩ := Option.map_eq_some_iff.mp hh
  split at ht
  · exact hc.find? ht
  · rcases (Option.orElse_eq_some _ _ _).mp ht with ht | ⟨-, ht⟩
    · exact hc.inPackage? ht
    · rcases (Option.orElse_eq_some _ _ _).mp ht with ht | ⟨-, ht⟩
      · obtain ⟨above, -, ht⟩ := List.exists_of_findSome?_eq_some ht
        exact hc.find? ht
      · exact hc.inPackage? ht

theorem simpleType? {name : String} {h : TypeHash} (hh : c.simpleType? name = some h) :
    h ≠ .void := by
  rw [Context.simpleType?] at hh
  split at hh
  · cases hh
    exact TypeHash.known_ne_void .object (by simp)
  · rcases (Option.orElse_eq_some _ _ _).mp hh with hh | ⟨-, hh⟩
    · exact hc.enclosingType? hh
    · exact hc.fileType? hh

theorem namedType? {names : List String} {h : TypeHash} (hh : c.namedType? names = some h) :
    h ≠ .void := by
  cases names with
  | nil => cases hh
  | cons first rest =>
    rcases (Option.orElse_eq_some _ _ _).mp hh with hh | ⟨-, hh⟩
    · obtain ⟨owner, howner, hh⟩ := Option.bind_eq_some_iff.mp hh
      exact hc.memberPath? (hc.simpleType? howner) hh
    · obtain ⟨k, -, hh⟩ := List.exists_of_findSome?_eq_some hh
      rw [Context.packageType?] at hh
      split at hh
      · cases hh
      · obtain ⟨t, ht, hh⟩ := Option.bind_eq_some_iff.mp hh
        exact hc.memberPath? (hc.inPackage? ht) hh

theorem base {t : TypeExpr} (ht : t.base ≠ .primitive .void) {h : TypeHash}
    (hh : c.base t = .ok h) : h ≠ .void := by
  have hprimitives : ∀ p ∈ Primitive.all, p ≠ .void → TypeHash.ofPrimitive p ≠ .void := by
    decide +kernel
  rw [Context.base] at hh
  cases hbase : t.base with
  | primitive p =>
    rw [hbase] at hh ht
    cases hh
    exact hprimitives p (by cases p <;> decide) fun hp => ht (hp ▸ rfl)
  | named path =>
    simp only [hbase] at hh
    split at hh
    · next hnamed =>
      cases hh
      exact hc.namedType? hnamed
    · cases hh
  | inferred =>
    rw [hbase] at hh
    cases hh

/-- **The type of the values of a type** is not void, unless that is written. -/
theorem valueType {t : TypeExpr} (ht : t.base ≠ .primitive .void) : NotVoid (c.valueType t) := by
  rw [Context.valueType, Context.type]
  cases hbase : c.base t with
  | error e => exact .of_none
  | ok h => exact .of_some (hc.base ht hbase)

theorem this : NotVoid (c.owner.map .simple) := by
  intro d hd
  obtain ⟨h, hh, rfl⟩ := Option.map_eq_some_iff.mp hd
  rintro rfl
  exact hc.owner hh

theorem superclass? : NotVoid (c.superclass?.map .simple) := by
  intro d hd
  obtain ⟨h, hh, rfl⟩ := Option.map_eq_some_iff.mp hd
  obtain ⟨t, ht, hsuper⟩ := Option.bind_eq_some_iff.mp hh
  obtain ⟨owner, -, ht⟩ := Option.bind_eq_some_iff.mp ht
  rintro rfl
  exact hc.registry.superclasses t (Registry.get?_mem ht) hsuper

theorem fieldNamed? {h : TypeHash} {name : String} {f : FieldSymbol}
    (hf : c.registry.fieldNamed? h name = some f) : f.type.base ≠ .void := by
  obtain ⟨t, ht, hf⟩ := List.exists_of_findSome?_eq_some hf
  exact hc.registry.fields t (Registry.mem_of_mem_supertypes ht) f (List.mem_of_find?_eq_some hf)

theorem fieldType {scope : LocalScope} {e : Expr} {type : Option DataType} {name : String} :
    NotVoid (c.fieldType scope e type name) := by
  have hfield (h : TypeHash) :
      NotVoid ((c.registry.fieldNamed? h name).map FieldSymbol.type) := by
    intro d hd
    obtain ⟨f, hf, rfl⟩ := Option.map_eq_some_iff.mp hd
    exact hc.fieldNamed? hf
  cases type with
  | some t =>
    rw [Context.fieldType]
    split
    · split
      · exact .known (by simp)
      · exact .of_none
    · exact hfield t.base
  | none => exact .bind fun h _ => hfield h

/-- **A call that is void** means a method that is declared so. -/
theorem select {h : TypeHash} {name : String} {args : List (Option DataType)} {d : DataType}
    (hd : c.registry.select (c.registry.methodsNamed h name) args = some d)
    (hvoid : d.base = .void) : d = .void ∧ c.registry.DeclaresVoid name := by
  obtain ⟨s, hs, rfl⟩ := Option.map_eq_some_iff.mp hd
  have hcandidate : s ∈ (c.registry.methodsNamed h name).map MethodSymbol.signature := by
    refine List.filter_sublist.subset (?_ : s ∈ List.filter (·.acceptsArity args.length) _)
    rcases (Option.orElse_eq_some _ _ _).mp hs with hs | ⟨-, hs⟩
    · exact List.mem_of_find?_eq_some hs
    · rcases (Option.orElse_eq_some _ _ _).mp hs with hs | ⟨-, hs⟩
      · exact List.mem_of_find?_eq_some hs
      · exact List.mem_of_head? hs
  obtain ⟨m, hm, rfl⟩ := List.mem_map.mp hcandidate
  obtain ⟨t, ht, hm⟩ := List.mem_flatMap.mp hm
  obtain ⟨hm, hname⟩ := List.mem_filter.mp hm
  have ht := Registry.mem_of_mem_supertypes ht
  have hresult := hc.registry.results t ht m hm hvoid
  exact ⟨hresult, t, ht, m, hm, beq_iff_eq.mp hname, hresult⟩

end Context.VoidFree

end JavaGraft

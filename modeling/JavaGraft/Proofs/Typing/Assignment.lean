import JavaGraft.Proofs.Symbol.Reachability
import JavaGraft.Typing.Overload

/-!
# Assigning arrays

In the language, an array can be assigned to an array of as many dimensions if the elements are of
the same type, or objects of a subtype, and to anything that is an object, or an array of objects of
any kind, of fewer dimensions (`JavaGraft.Registry.ArrayRule`).

The test of an assignment is not quite the rule, because of the root class. It is above every
identity, even those of primitive types, and beside that only the variable of the root class itself
takes arrays of more dimensions (`JavaGraft.Registry.assignsType_array`). So an array of numbers is
taken for an array of objects, and an array of arrays is not. Those are the only differences as long
as no class has the identity of a primitive type (`JavaGraft.Registry.assignsType_array_rule`).
-/

namespace JavaGraft

namespace Registry

variable (r : Registry) {source target : DataType}

/-- **The rule of the language** for an array and the type of a variable. -/
def ArrayRule (source target : DataType) : Prop :=
  target.dims = source.dims ∧ source.base = target.base ∨
    target.dims = source.dims ∧ source.base.primitive? = none ∧ target.base.primitive? = none ∧
      r.Below source.base target.base ∨
    target.dims < source.dims ∧ target.base = .object

/-- The root class is not primitive. -/
theorem primitive?_object : TypeHash.object.primitive? = none := by decide +kernel

/-- **What the test does with an array:** with as many dimensions, it asks whether the base is
below, and otherwise, whether the variable is of the root class. -/
theorem assignsType_array (harray : source.isArray) :
    r.assignsType source target ↔
      target.dims = source.dims ∧ r.Below source.base target.base ∨ target = .object := by
  have hdims : 0 < source.dims := of_decide_eq_true harray
  have hnull : (source == .null) = false :=
    beq_false_of_ne fun heq => by simp [heq, DataType.null, DataType.simple] at hdims
  have hprimitive : source.isPrimitive = false := by
    simp [DataType.isPrimitive, hdims.ne']
  have hunboxed : source.unboxed? = none := by
    simp [DataType.unboxed?, hprimitive, harray]
  rw [assignsType, hnull, hprimitive, hunboxed]
  by_cases hsame : source = target
  · simp [hsame, Below]
  by_cases hroot : target = .object
  · have hobject : DataType.object.isPrimitive = false := by decide +kernel
    simp [hroot, hobject]
  rw [if_neg (by simpa using hsame), if_neg (by simp)]
  -- A variable of a primitive type takes no array, and nothing else is below a primitive type.
  by_cases htarget : target.isPrimitive
  · rw [if_pos htarget]
    have hflat : target.dims = 0 := by
      rw [DataType.isPrimitive, Bool.and_eq_true, beq_iff_eq] at htarget
      exact htarget.1
    simp [hroot, hflat, hdims.ne]
  · rw [if_neg htarget, if_neg (by simp), if_neg (by simpa using hroot)]
    simp [hroot, isSubtype_iff, eq_comm (a := source.dims)]

/-! ### Where the test differs from the rule -/

/-- Against the rule, arrays with primitive and with other elements are taken for each other if one
base is below the other. -/
theorem assignsType_array_beyond (harray : source.isArray) :
    r.assignsType source target ∧ ¬ r.ArrayRule source target ↔
      target.dims = source.dims ∧ source.base ≠ target.base ∧
        r.Below source.base target.base ∧
        ¬ (source.base.primitive? = none ∧ target.base.primitive? = none) := by
  have hdims : 0 < source.dims := of_decide_eq_true harray
  rw [assignsType_array r harray]
  constructor
  · rintro ⟨⟨hsame, hbelow⟩ | rfl, hrule⟩
    · exact ⟨hsame, fun heq => hrule (.inl ⟨hsame, heq⟩), hbelow,
        fun ⟨hs, ht⟩ => hrule (.inr (.inl ⟨hsame, hs, ht, hbelow⟩))⟩
    · exact absurd (.inr (.inr ⟨hdims, rfl⟩)) hrule
  · rintro ⟨hsame, hne, hbelow, hprimitive⟩
    refine ⟨.inl ⟨hsame, hbelow⟩, ?_⟩
    rintro (⟨-, heq⟩ | ⟨-, hs, ht, -⟩ | ⟨hless, -⟩)
    · exact hne heq
    · exact hprimitive ⟨hs, ht⟩
    · omega

/-- Against the rule, no array is taken for an array of the root class of fewer dimensions. -/
theorem assignsType_array_short (harray : source.isArray) :
    r.ArrayRule source target ∧ ¬ r.assignsType source target ↔
      0 < target.dims ∧ target.dims < source.dims ∧ target.base = .object := by
  rw [assignsType_array r harray]
  constructor
  · rintro ⟨⟨hsame, heq⟩ | ⟨hsame, -, -, hbelow⟩ | ⟨hless, hroot⟩, hnot⟩
    · exact absurd (.inl ⟨hsame, .inl heq⟩) hnot
    · exact absurd (.inl ⟨hsame, hbelow⟩) hnot
    · refine ⟨Nat.pos_of_ne_zero fun hflat => hnot (.inr ?_), hless, hroot⟩
      exact congrArg₂ DataType.mk hroot hflat
  · rintro ⟨hpos, hless, hroot⟩
    refine ⟨.inr (.inr ⟨hless, hroot⟩), ?_⟩
    rintro (⟨hsame, -⟩ | rfl)
    · omega
    · exact Nat.lt_irrefl 0 hpos

/-- No class has the identity of a primitive type. -/
def KeepsPrimitives (r : Registry) : Prop := ∀ h, (r.get? h).isSome → h.primitive? = none

/-- If no class has the identity of a primitive type, only the root class is above one. -/
theorem Below.of_primitive {r : Registry} (hkeeps : r.KeepsPrimitives) {h k : TypeHash}
    (hbelow : r.Below h k) (hne : h ≠ k)
    (hprimitive : ¬ (h.primitive? = none ∧ k.primitive? = none)) :
    k = .object ∧ h.primitive? ≠ none := by
  rcases hbelow with rfl | rfl | ⟨hk, n, hclimb⟩
  · exact absurd rfl hne
  · exact ⟨rfl, fun hh => hprimitive ⟨hh, primitive?_object⟩⟩
  · cases hclimb with
    | here => exact absurd rfl hne
    | up link _ =>
      obtain ⟨t, ht, -⟩ := link
      exact absurd ⟨hkeeps h (by rw [ht]; rfl), hkeeps k hk⟩ hprimitive

/-- **The test of an assignment of an array, and the rule of the language.** With as many dimensions
an array is accepted if its base is below, whether its elements are objects or not, and otherwise
only by a variable of the root class. So what is accepted against the rule are arrays with primitive
elements for arrays of as many dimensions of something above, which is the root class if no class
has the identity of a primitive type; and what is refused against the rule are arrays for arrays of
the root class of fewer dimensions. -/
theorem assignsType_array_rule (harray : source.isArray) :
    (r.assignsType source target ↔
      target.dims = source.dims ∧ r.Below source.base target.base ∨ target = .object) ∧
    (r.assignsType source target ∧ ¬ r.ArrayRule source target ↔
      target.dims = source.dims ∧ source.base ≠ target.base ∧
        r.Below source.base target.base ∧
        ¬ (source.base.primitive? = none ∧ target.base.primitive? = none)) ∧
    (r.KeepsPrimitives →
      (r.assignsType source target ∧ ¬ r.ArrayRule source target ↔
        target.dims = source.dims ∧ target.base = .object ∧ source.base.primitive? ≠ none)) ∧
    (r.ArrayRule source target ∧ ¬ r.assignsType source target ↔
      0 < target.dims ∧ target.dims < source.dims ∧ target.base = .object) := by
  refine ⟨assignsType_array r harray, assignsType_array_beyond r harray, fun hkeeps => ?_,
    assignsType_array_short r harray⟩
  rw [assignsType_array_beyond r harray]
  constructor
  · rintro ⟨hsame, hne, hbelow, hprimitive⟩
    exact ⟨hsame, hbelow.of_primitive hkeeps hne hprimitive⟩
  · rintro ⟨hsame, hroot, hprimitive⟩
    refine ⟨hsame, fun heq => hprimitive ?_, hroot ▸ .inr (.inl rfl), fun h => hprimitive h.1⟩
    rw [heq, hroot, primitive?_object]

namespace Sample

/-- The interfaces and the root class keep off the identities of primitive types. -/
theorem ring_keepsPrimitives : ring.KeepsPrimitives := by
  intro h hh
  obtain ⟨t, ht⟩ := Option.isSome_iff_exists.mp hh
  have hall : ∀ t ∈ ring.latestFirst, t.hash.primitive? = none := by decide +kernel
  exact hash_of_get? ht ▸ hall t (get?_mem ht)

end Sample

theorem assignsType_array_rule_ring :
    (⟨.ofName "A", 1⟩ : DataType).isArray ∧ Sample.ring.KeepsPrimitives ∧
      Sample.ring.assignsType ⟨.ofName "A", 1⟩ ⟨.ofName "B", 1⟩ ∧
      ¬ Sample.ring.assignsType ⟨.ofName "A", 2⟩ ⟨.object, 1⟩ := by
  obtain ⟨haccepts, -, -, -⟩ := @assignsType_array_rule Sample.ring ⟨.ofName "A", 1⟩
    ⟨.ofName "B", 1⟩ rfl
  obtain ⟨-, -, -, hrefuses⟩ := @assignsType_array_rule Sample.ring ⟨.ofName "A", 2⟩
    ⟨.object, 1⟩ rfl
  have hlink : Sample.ring.Link (.ofName "A") (.ofName "B") :=
    ⟨Sample.interfaceBelow "A" ["B", "Gone"], by decide +kernel, by decide +kernel⟩
  have hbelow : Sample.ring.Below (.ofName "A") (.ofName "B") :=
    .inr (.inr ⟨by decide +kernel, 1, .up hlink (.here _)⟩)
  exact ⟨rfl, Sample.ring_keepsPrimitives, haccepts.mpr (.inl ⟨rfl, hbelow⟩),
    (hrefuses.mpr ⟨Nat.one_pos, Nat.one_lt_two, rfl⟩).2⟩

/-- **An array of numbers is taken for an array of objects, and one of arrays of texts is not**,
where the rule has it the other way round. -/
theorem assignsType_array_unlike_rule :
    (Sample.ring.assignsType ⟨.int, 1⟩ ⟨.object, 1⟩ ∧
        ¬ Sample.ring.ArrayRule ⟨.int, 1⟩ ⟨.object, 1⟩) ∧
      Sample.ring.ArrayRule ⟨.string, 2⟩ ⟨.object, 1⟩ ∧
        ¬ Sample.ring.assignsType ⟨.string, 2⟩ ⟨.object, 1⟩ := by
  have hint : TypeHash.int ≠ .object ∧ TypeHash.int.primitive? ≠ none := by decide +kernel
  exact ⟨(assignsType_array_beyond Sample.ring rfl).mpr
      ⟨rfl, hint.1, .inr (.inl rfl), fun h => hint.2 h.1⟩,
    (assignsType_array_short Sample.ring rfl).mpr ⟨Nat.one_pos, Nat.one_lt_two, rfl⟩⟩

end Registry

end JavaGraft

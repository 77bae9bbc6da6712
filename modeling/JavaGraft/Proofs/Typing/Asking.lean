import JavaGraft.Typing.Attribution

/-!
# The order of the questions does not matter

Asking for types fills the tables of an `Attribution`, but the answer to a question is the same
whatever has been asked before: it is what is found in the member's table computed afresh
(`JavaGraft.Attribution.typeOf`). As long as all questions are about the same type of the same
file, every table that is kept is the one that would be computed now
(`JavaGraft.Attribution.Serves`), and asking keeps it that way.
-/

namespace JavaGraft

namespace Attribution

/-- **The type of an expression at a site, found afresh.** -/
def typeOf (a : Attribution) (site : Site) (e : Expr) : Option DataType :=
  match e, site.member with
  | .this _, _ => some (.simple site.owner)
  | _, none => none
  | e, some m => (a.context? site).bind fun c => (m.typeTable c).lookup e

/-- What has been asked since `start` has been about a type of a file, so that the tables are those
of its members. -/
structure Serves (start : Attribution) (file : Nat) (owner : TypeHash) (a : Attribution) :
    Prop where
  registry : a.registry = start.registry
  scopes : a.scopes = start.scopes
  tables : ∀ x ∈ a.tables, ∃ c, start.context? ⟨file, owner, none⟩ = some c ∧
    x.2 = x.1.2.typeTable c

/-- Nothing has been asked at the start. -/
theorem serves_start (r : Registry) (files : List SourceFile) (file : Nat) (owner : TypeHash) :
    Serves (start r files) file owner (start r files) where
  registry := rfl
  scopes := rfl
  tables := fun _ hx => absurd hx List.not_mem_nil

section Serves

variable {a₀ a : Attribution} {file : Nat} {owner : TypeHash}

/-- The place of a site depends on the member neither before nor after. -/
theorem Serves.context?_eq (h : Serves a₀ file owner a) (m : Option Member) :
    a.context? ⟨file, owner, m⟩ = a₀.context? ⟨file, owner, none⟩ := by
  simp only [context?, h.registry, h.scopes]

/-- What is found under a key is kept under it. -/
theorem mem_of_lookup {α β : Type} [BEq α] [LawfulBEq α] {xs : List (α × β)} {k : α} {x : β}
    (h : xs.lookup k = some x) : (k, x) ∈ xs := by
  obtain ⟨before, after, rfl, -⟩ := List.lookup_eq_some_iff.mp h
  simp

/-- **Typing a member keeps the tables right.** -/
theorem Serves.ensure (h : Serves a₀ file owner a) (m : Member) :
    Serves a₀ file owner (a.ensure ⟨file, owner, some m⟩ m) := by
  rw [Attribution.ensure]
  split
  · exact h
  · rw [h.context?_eq]
    cases hc : a₀.context? ⟨file, owner, none⟩ with
    | none => exact h
    | some c =>
      refine ⟨h.registry, h.scopes, fun x hx => ?_⟩
      rcases List.mem_append.mp hx with hx | hx
      · exact h.tables x hx
      · rw [List.mem_singleton] at hx
        exact ⟨c, hc, by rw [hx]⟩

/-- Once a member is typed, its table is found, unless there is no such file. -/
theorem Serves.lookup_ensure (h : Serves a₀ file owner a) (m : Member) :
    (a.ensure ⟨file, owner, some m⟩ m).tables.lookup (file, m)
      = (a₀.context? ⟨file, owner, none⟩).map fun c => m.typeTable c := by
  rw [Attribution.ensure]
  split
  · next hm =>
    obtain ⟨t, ht⟩ := Option.isSome_iff_exists.mp hm
    obtain ⟨c, hc, htable⟩ := h.tables _ (mem_of_lookup ht)
    rw [ht, hc]
    exact congrArg some htable
  · next hm =>
    rw [Bool.not_eq_true, Option.isSome_eq_false_iff, Option.isNone_iff_eq_none] at hm
    rw [h.context?_eq]
    cases a₀.context? ⟨file, owner, none⟩ with
    | none => exact hm
    | some c => simp [List.lookup_append, hm]

/-- **The answer does not depend on what has been asked**, and asking keeps the tables right. -/
theorem Serves.resolve (h : Serves a₀ file owner a) (m : Option Member) (e : Expr) :
    (a.resolve ⟨file, owner, m⟩ e).1 = a₀.typeOf ⟨file, owner, m⟩ e ∧
      Serves a₀ file owner (a.resolve ⟨file, owner, m⟩ e).2 := by
  cases m with
  | none => cases e <;> exact ⟨rfl, h⟩
  | some m =>
    have hlookup := h.lookup_ensure m
    have hserves := h.ensure m
    have hcontext : a₀.context? ⟨file, owner, some m⟩ = a₀.context? ⟨file, owner, none⟩ := rfl
    cases e with
    | this s => exact ⟨rfl, h⟩
    | _ =>
      refine ⟨?_, hserves⟩
      simp only [Attribution.resolve, typeOf, hlookup, hcontext]
      cases a₀.context? ⟨file, owner, none⟩ <;> rfl

/-- Asking for several types in a row keeps the tables right as well. -/
theorem Serves.foldl_resolve (h : Serves a₀ file owner a) (m : Option Member) (es : List Expr) :
    Serves a₀ file owner (es.foldl (fun a e => (a.resolve ⟨file, owner, m⟩ e).2) a) := by
  induction es generalizing a with
  | nil => exact h
  | cons e es ih => exact ih (h.resolve m e).2

end Serves

end Attribution

end JavaGraft

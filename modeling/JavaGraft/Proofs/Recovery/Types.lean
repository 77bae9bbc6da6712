import JavaGraft.Grammar.Modifiers
import JavaGraft.Proofs.Recovery.Runs

/-!
# What the rules for types and annotations keep

Each rule keeps the bounds and the braces if the recursive parts do, and if few enough tokens remain
for the depth of the grammar. Eight rounds of depth are there for each token. A rule that starts
with a token has what the next token leaves; a rule that starts with another rule needs more than
that one.
-/

namespace JavaGraft

/-- **The rules of a grammar of depth `n` keep** bounds and braces where few enough tokens are
left. -/
structure Rules.Keep (c : Enclosure) (g : Rules) (n : Nat) : Prop where
  rounds : n ≤ g.rounds + 1
  annot {r : Nat} : 8 * r + 3 ≤ n + 8 → c.Moves r g.annot
  block {r : Nat} : 8 * r + 3 ≤ n + 8 → c.Moves r g.block
  classBody {r : Nat} (name : String) : 8 * r + 3 ≤ n + 8 → c.Moves r (g.classBody name)
  /-- Outside of all types, a declaration may be missing at a closing brace. -/
  typeDecl {r : Nat} (modifiers : Modifiers) : 8 * r + 3 ≤ n + 8 →
    c.RunsFrom (fun s => (∃ e, c.harmless e) → Grammar.startsTypeDecl s.next.kind) r 0 (fun _ => 1)
      (g.typeDecl modifiers)
  type {r : Nat} : 8 * r + 4 ≤ n + 8 → c.Moves r g.type
  expr {r : Nat} (power : Nat) : 8 * r + 5 ≤ n + 8 → c.Moves r (g.expr power)
  element {r : Nat} : 8 * r + 6 ≤ n + 8 → c.Moves r g.element
  stmt {r : Nat} : 8 * r + 6 ≤ n + 8 → c.Moves r g.stmt

namespace Grammar

open Enclosure RunsFrom

variable {c : Enclosure} {g : Rules} {n r : Nat} (h : g.Keep c n)

/-! ### Names -/

theorem runs_nextSegment? : c.Finds r nextSegment? := by
  unfold nextSegment?
  refine get_bind fun s => get_bind fun t => ite (fun hdot => ?_) fun _ => .pure rfl
  have hadvance : c.RunsFrom (fun u => u = t ∧ u = s ∧ True) r 0 (fun _ => 1) Parser.advance :=
    advance fun u hu => by rw [hu.2.1, hdot.1]; rfl
  exact hadvance.discard.bind fun _ => identifier.stays.bind fun _ => .pure rfl

include h

/-- The bound on the rounds of a loop suffices. -/
theorem rounds_suffice (hr : 8 * r ≤ n + 6) : r ≤ g.rounds := by
  have := h.rounds
  omega

theorem runs_path (hr : 8 * r ≤ n + 6) : c.Moves r (path g) := by
  unfold path
  refine identifier.bind fun first => ?_
  refine (collect runs_nextSegment? (rounds_suffice h (by omega))).bind fun others => ?_
  exact (spanFrom _).bind fun _ => .pure rfl

/-! ### Type arguments -/

theorem runs_typeArg (hr : 8 * r ≤ n + 4) : c.Moves r (typeArg g) := by
  unfold typeArg
  refine eat?_bind rfl (fun mark => ?_) ?_
  · refine ifEat rfl ?_ (ifEat rfl ?_ ?_)
    · exact (h.type (by omega)).stays.bind fun _ => (spanFrom _).bind fun _ => .pure rfl
    · exact (h.type (by omega)).stays.bind fun _ => (spanFrom _).bind fun _ => .pure rfl
    · exact (spanFrom _).bind fun _ => .pure rfl
  · exact (h.type (by omega)).anywhere.bind fun _ => .pure rfl

theorem runs_typeArgs (hr : 8 * r ≤ n + 6) : c.Moves r (typeArgs g) := by
  unfold typeArgs
  refine (expect rfl).discard.bind fun _ => ?_
  refine joinNext (.pure rfl) ?_ fun args => ?_
  · exact (sepBy rfl (runs_typeArg h (by omega)) (rounds_suffice h (by omega))).stays.anywhere
  · exact closeAngle.stays.bind fun _ => .pure rfl

theorem runs_typeArgs? (hr : 8 * r ≤ n + 6) : c.Stays r (typeArgs? g) :=
  ifNext (runs_typeArgs h hr).stays.anywhere (.pure rfl)

theorem runs_bounds (hr : 8 * r ≤ n + 6) : c.Stays r (bounds g) :=
  ifEat rfl (sepBy rfl (h.type (by omega)) (rounds_suffice h (by omega))).stays (.pure rfl)

theorem runs_typeParam (hr : 8 * r ≤ n + 6) : c.Moves r (typeParam g) := by
  unfold typeParam
  refine identifier.bind fun name => (runs_bounds h (by omega)).bind fun bounds => ?_
  exact (spanFrom _).bind fun _ => .pure rfl

theorem runs_typeParams (hr : 8 * r ≤ n + 6) : c.Stays r (typeParams g) := by
  unfold typeParams
  refine ifEat rfl ?_ (.pure rfl)
  refine (sepBy rfl (runs_typeParam h (by omega)) (rounds_suffice h (by omega))).stays.bind
    fun params => ?_
  exact closeAngle.stays.bind fun _ => .pure rfl

/-! ### Types -/

theorem runs_namedType (hr : 8 * r ≤ n + 6) : c.Moves r (namedType g) := by
  unfold namedType
  refine iterate (fun found => ?_) (rounds_suffice h (by omega)) _
  refine identifier.bind fun name => (runs_typeArgs? h (by omega)).bind fun args => ?_
  refine get_bind fun s => get_bind fun t => ite (fun hdot => ?_) fun _ => .pure rfl
  have hadvance : c.RunsFrom (fun u => u = t ∧ u = s ∧ True) (r - 1 - 0) 0 (fun _ => 1)
      Parser.advance := advance fun u hu => by rw [hu.2.1, hdot.1]; rfl
  exact hadvance.stays.discard.bind fun _ => .pure rfl

omit h in
theorem isInner_of_primitive {kind : TokenKind} {p : Primitive} (hp : primitiveOf? kind = some p) :
    kind.isInner := by
  unfold primitiveOf? at hp
  split at hp
  · rfl
  · cases hp

theorem runs_plainType (hr : 8 * r ≤ n + 6) : c.Moves r (plainType g) := by
  unfold plainType
  refine peek_bind fun t => ?_
  have hadvance (ht : t.kind.isInner) :
      c.RunsFrom (fun s => s.next = t ∧ True) r 0 (fun _ => 1) Parser.advance :=
    advance fun s hs => by rw [hs.1]; exact ht
  cases hp : primitiveOf? t.kind with
  | some p => exact (hadvance (isInner_of_primitive hp)).discard.bind fun _ => .pure rfl
  | none =>
    refine ite (fun _ => rejectFound rfl nofun) fun hkind => ?_
    refine get_bind fun s => ite (fun _ => ?_) fun _ => ?_
    · have hinner : t.kind.isInner := by rw [not_not.mp hkind]; rfl
      exact ((hadvance hinner).weaken (fun _ hs => hs.2) le_rfl fun _ => le_rfl).discard.bind
        fun _ => .pure rfl
    · refine (runs_namedType h hr).anywhere.bind fun x => (spanFrom _).bind fun _ => ?_
      exact .pure rfl

theorem runs_annot? (hr : 8 * r ≤ n + 5) : c.Finds r (annot? g) := by
  unfold annot?
  refine getting fun s => getting fun t => ite (fun _ => ?_) fun _ => .pure rfl
  exact (h.annot (by omega)).bind fun a => .pure rfl

theorem runs_type (hr : 8 * r ≤ n + 5) : c.Moves r (type g) := by
  unfold type
  refine (collect (runs_annot? h hr) (rounds_suffice h (by omega))).discard.bind fun _ => ?_
  refine (runs_plainType h (by omega)).bind fun plain => dims.bind fun dims => ?_
  exact ite (fun _ => .pure rfl) fun _ => (spanFrom _).bind fun _ => .pure rfl

theorem runs_typesBehind {word : Keyword} (hr : 8 * r ≤ n + 6) :
    c.Stays r (typesBehind g word) :=
  ifEat rfl (sepBy rfl (h.type (by omega)) (rounds_suffice h (by omega))).stays (.pure rfl)

/-! ### Annotations -/

theorem runs_elementList (hr : 8 * r ≤ n + 6) : c.Moves r (elementList g) := by
  unfold elementList
  refine open_bind fun first => ?_
  refine (sepUntil rfl (h.element (by omega)) (rounds_suffice h (by omega))).bind fun items => ?_
  exact close_bind fun last => .pure rfl

theorem runs_element (hr : 8 * r ≤ n + 3) : c.Moves r (element g) := by
  unfold element
  refine peeking fun t => ?_
  split
  · exact (h.annot (by omega)).bind fun _ => .pure rfl
  · exact runs_elementList h (by omega)
  · exact (h.expr _ (by omega)).bind fun _ => .pure rfl

theorem runs_namedArg (hr : 8 * r ≤ n + 6) : c.Moves r (namedArg g) := by
  unfold namedArg
  refine identifier.bind fun name => (expect rfl).stays.discard.bind fun _ => ?_
  exact (h.element (by omega)).stays.bind fun _ => (spanFrom _).bind fun _ => .pure rfl

theorem runs_annotArgs (hr : 8 * r ≤ n + 2) : c.Stays r (annotArgs g) := by
  unfold annotArgs
  refine getting fun s => getting fun t => ite (fun _ => ?_) fun _ => ifNext (.pure rfl) ?_
  · exact (sepBy rfl (runs_namedArg h (by omega)) (rounds_suffice h (by omega))).stays
  · exact (h.element (by omega)).stays.anywhere.bind fun _ => .pure rfl

theorem runs_annot (hr : 8 * r ≤ n + 6) : c.Moves r (annot g) := by
  unfold annot
  refine (expect rfl).bind fun start => (runs_path h (by omega)).stays.bind fun name => ?_
  refine ifEat rfl ?_ ((spanFrom _).bind fun _ => .pure rfl)
  refine (runs_annotArgs h (by omega)).bind fun args => ?_
  exact (expect rfl).stays.discard.bind fun _ => (spanFrom _).bind fun _ => .pure rfl

/-! ### Modifiers -/

omit h in
theorem isInner_of_modifierFlag {t following : Token} {flag : Flags}
    (hflag : modifierFlag? t following = some flag) : t.kind.isInner := by
  unfold modifierFlag? at hflag
  cases hkind : t.kind with
  | sign s => rw [hkind] at hflag; cases hflag
  | endOfSource => rw [hkind] at hflag; cases hflag
  | _ => rfl

theorem runs_modifierStep (found : Flags × List Annot) (hr : 8 * r ≤ n + 5) :
    c.Runs r 0 (Sum.elim (fun _ => 1) fun _ => 0) (modifierStep g found) := by
  unfold modifierStep
  refine (runs_annot? h hr).bind fun a => ?_
  cases a with
  | some a => exact .pure rfl
  | none =>
    refine peek_bind fun t => get_bind fun s => ?_
    cases hflag : modifierFlag? t (s.nth 1) with
    | none => exact .pure rfl
    | some flag =>
      have hadvance : c.RunsFrom (fun u => u = s ∧ u.next = t ∧ True) r 0 (fun _ => 1)
          Parser.advance := advance fun u hu => by rw [hu.2.1]; exact isInner_of_modifierFlag hflag
      refine hadvance.discard.bind fun _ => ite (fun _ => ?_) fun _ => .pure rfl
      exact (record _).bind fun _ => .pure rfl

theorem runs_modifiers (hr : 8 * r ≤ n + 5) : c.Stays r (modifiers g) := by
  unfold modifiers
  refine peeking fun t => ?_
  refine (iterate (fun found => runs_modifierStep h found hr) (rounds_suffice h (by omega)) _).bind
    fun x => getting fun s => .pure rfl

end Grammar

end JavaGraft

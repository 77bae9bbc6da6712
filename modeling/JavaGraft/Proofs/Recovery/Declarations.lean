import JavaGraft.Grammar.Knot
import JavaGraft.Proofs.Recovery.Statements
import JavaGraft.Proofs.Token.Kinds

/-!
# What the rules for declarations keep

With the rules for declarations, all rules of the grammar keep bounds and braces (`keep_grammar`).
Only a declaration outside of all types is no rule of that kind: it may be missing at a closing
brace, and recovery then takes that brace.
-/

namespace JavaGraft

namespace Grammar

open Enclosure RunsFrom

variable {c : Enclosure} {g : Rules} {n r : Nat} (h : g.Keep c n)

include h

/-! ### Members -/

theorem runs_param (hr : 8 * r ≤ n + 4) : c.Moves r (param g) := by
  unfold param
  refine peeking fun t => (runs_modifiers h (by omega)).bind fun modifiers => ?_
  refine (h.type (by omega)).bind fun type => (eat rfl).bind fun varargs => ?_
  refine identifier.stays.bind fun name => dims.bind fun dims => ?_
  exact (spanFrom _).bind fun _ => .pure rfl

theorem runs_params (hr : 8 * r ≤ n + 6) : c.Moves r (params g) := by
  unfold params
  refine (expect rfl).discard.bind fun _ => joinNext (.pure rfl) ?_ fun ps => ?_
  · exact (sepBy rfl (runs_param h (by omega)) (rounds_suffice h (by omega))).stays.anywhere
  · exact (expect rfl).stays.discard.bind fun _ => .pure rfl

theorem runs_initializer (hr : 8 * r ≤ n + 5) : c.Moves r (initializer g) := by
  unfold initializer
  refine peeking fun t => (eat rfl).bind fun isStatic => (h.block (by omega)).bind fun body => ?_
  exact (spanFrom _).bind fun _ => .pure rfl

theorem runs_constructor (modifiers : Modifiers) (typeParams : List TypeParam) (start : Span)
    (hr : 8 * r ≤ n + 6) : c.Moves r (constructor g modifiers typeParams start) := by
  unfold constructor
  refine identifier.bind fun name => (runs_params h (by omega)).stays.bind fun ps => ?_
  refine (runs_typesBehind h (by omega)).bind fun throws => ?_
  exact (h.block (by omega)).stays.bind fun body => (spanFrom _).bind fun _ => .pure rfl

theorem runs_method (modifiers : Modifiers) (typeParams : List TypeParam) (returnType : TypeExpr)
    (start : Span) (hr : 8 * r ≤ n + 6) :
    c.Moves r (method g modifiers typeParams returnType start) := by
  unfold method
  refine identifier.bind fun name => (runs_params h (by omega)).stays.bind fun ps => ?_
  refine dims.bind fun dims => (runs_typesBehind h (by omega)).bind fun throws => ?_
  refine joinEat rfl (h.element (by omega)).stays.wrap (.pure rfl) fun default => ?_
  refine joinEat rfl (.pure rfl) (h.block (by omega)).stays.wrap fun body => ?_
  exact (spanFrom _).bind fun _ => .pure rfl

theorem runs_fields (modifiers : Modifiers) (type : TypeExpr) (start : Span)
    (hr : 8 * r ≤ n + 6) : c.Moves r (fields g modifiers type start) := by
  unfold fields
  refine (runs_varDeclarators h hr).bind fun vars => (expect rfl).stays.discard.bind fun _ => ?_
  exact (spanFrom _).bind fun _ => .pure rfl

theorem runs_typedMember (typeName : String) (modifiers : Modifiers) (start : Span)
    (hr : 8 * r ≤ n + 4) : c.Moves r (typedMember g typeName modifiers start) := by
  unfold typedMember
  refine (runs_typeParams h (by omega)).bind fun typeParams => peeking fun t => getting fun s => ?_
  refine ite (fun _ => runs_constructor h _ _ _ (by omega)) fun _ => ?_
  refine (h.type (by omega)).bind fun type => getting fun s => getting fun u => ?_
  refine ite (fun _ => ?_) fun _ => ?_
  · exact (runs_method h _ _ _ _ (by omega)).stays
  · exact (runs_fields h _ _ _ (by omega)).stays

theorem runs_member (typeName : String) (hr : 8 * r ≤ n + 4) : c.Moves r (member g typeName) := by
  unfold member
  refine peeking fun t => ifEat rfl (.pure rfl) (getting fun s => getting fun u => ?_)
  refine getting fun v => ite (fun _ => ?_) fun _ => ?_
  · exact (runs_initializer h (by omega)).bind fun _ => .pure rfl
  · refine (runs_modifiers h (by omega)).bind fun modifiers => peek_bind fun u => ?_
    refine ite (fun hu => ?_) fun _ => ?_
    · refine RunsFrom.bind ((h.typeDecl modifiers (by omega)).weaken (fun s hs _ => ?_) le_rfl
        fun _ => le_rfl) fun _ => .pure rfl
      rw [hs.1]
      exact hu
    · exact (runs_typedMember h _ _ _ (by omega)).anywhere.bind fun _ => .pure rfl

theorem runs_members (typeName : String) (hr : 8 * r ≤ n + 4) : c.Stays r (members g typeName) :=
  collectBefore (recovering (runs_member h typeName hr).anywhere fun _ hs => hs.2)
    (rounds_suffice h (by omega))

theorem runs_classBody (typeName : String) (hr : 8 * r ≤ n + 6) :
    c.Moves r (classBody g typeName) := by
  unfold classBody
  refine opening ((runs_members h typeName (by omega)).bind fun ms => closing ?_)
  exact .pure rfl

/-! ### Types -/

theorem runs_enumConstant (hr : 8 * r ≤ n + 5) : c.Moves r (enumConstant g) := by
  unfold enumConstant
  have hannot : c.Finds r (do
      if ← Parser.check Sign.atSign then return some (← g.annot) else return none) :=
    ifNext ((h.annot (by omega)).anywhere.bind fun _ => .pure rfl) (.pure rfl)
  refine peeking fun t => (collect hannot (rounds_suffice h (by omega))).bind fun annots => ?_
  refine identifier.bind fun name => ?_
  refine joinNext (runs_arguments h (by omega)).stays.anywhere (.pure rfl) fun args => ?_
  refine ifNext ?_ ((spanFrom _).bind fun _ => .pure rfl)
  refine (h.classBody "" (by omega)).stays.anywhere.bind fun body => ?_
  exact (spanFrom _).bind fun _ => .pure rfl

theorem runs_enumConstants (hr : 8 * r ≤ n + 5) : c.Stays r (enumConstants g) := by
  unfold enumConstants
  refine iterate (fun found => kindAt_bind fun kind => ite (fun _ => .pure rfl) fun _ => ?_)
    (rounds_suffice h (by omega)) _
  refine (runs_enumConstant h hr).anywhere.bind fun constant => ?_
  exact ifEat rfl (.pure rfl) (.pure rfl)

theorem runs_enumBody (typeName : String) (hr : 8 * r ≤ n + 6) :
    c.Moves r (enumBody g typeName) := by
  unfold enumBody
  refine opening ((runs_enumConstants h (by omega)).bind fun constants => ?_)
  refine joinEat rfl (runs_members h typeName (by omega)) (.pure rfl) fun ms => closing ?_
  exact .pure rfl

omit h in
theorem runs_typeKind :
    c.RunsFrom (fun s => (∃ e, c.harmless e) → startsTypeDecl s.next.kind) r 0 (fun _ => 1)
      typeKind := by
  unfold typeKind
  refine get_bind fun s => ?_
  have hadvance (hs : s.next.kind.isInner) : c.RunsFrom
      (fun u => u = s ∧ ((∃ e, c.harmless e) → startsTypeDecl u.next.kind)) r 0 (fun _ => 1)
      Parser.advance := advance fun u hu => by rw [hu.1]; exact hs
  have hreject {α : Type} {take : α → Nat} : c.RunsFrom
      (fun u => u = s ∧ ((∃ e, c.harmless e) → startsTypeDecl u.next.kind)) r 0 take
      (Parser.rejectNext .expectedDeclaration) := by
    refine rejectNext fun u hu hnext span he => ?_
    have hstarts := hu.2 ⟨_, he⟩
    rw [hnext] at hstarts
    cases hstarts
  split
  · next hs => exact (hadvance (by rw [hs]; rfl)).discard.bind fun _ => .pure rfl
  · next hs => exact (hadvance (by rw [hs]; rfl)).discard.bind fun _ => .pure rfl
  · next hs => exact (hadvance (by rw [hs]; rfl)).discard.bind fun _ => .pure rfl
  · next hs =>
    refine ite (fun hsecond => ?_) fun _ => hreject
    exact advance_twice (fun u hu => by rw [hu.1, hs, hsecond]; exact ⟨rfl, rfl⟩) (.pure rfl)
  · exact hreject

theorem runs_supertypes (kind : TypeKind) (hr : 8 * r ≤ n + 6) : c.Stays r (supertypes g kind) := by
  cases kind with
  | classType =>
    refine joinEat rfl (h.type (by omega)).stays.wrap (.pure rfl) fun superclass => ?_
    exact (runs_typesBehind h (by omega)).bind fun _ => .pure rfl
  | interfaceType => exact (runs_typesBehind h hr).bind fun _ => .pure rfl
  | enumType => exact (runs_typesBehind h hr).bind fun _ => .pure rfl
  | annotType => exact .pure rfl

theorem runs_typeDecl (modifiers : Modifiers) (hr : 8 * r ≤ n + 6) :
    c.RunsFrom (fun s => (∃ e, c.harmless e) → startsTypeDecl s.next.kind) r 0 (fun _ => 1)
      (typeDecl g modifiers) := by
  unfold typeDecl
  refine peek_bind fun t => ?_
  refine (runs_typeKind.weaken (fun _ hs => hs.2) le_rfl fun _ => le_rfl).bind fun kind => ?_
  refine identifier.stays.bind fun name => (runs_typeParams h (by omega)).bind fun typeParams => ?_
  refine (runs_supertypes h kind (by omega)).bind fun supertypes => ?_
  refine ite (fun _ => ?_) fun _ => ?_
  · refine (runs_enumBody h _ (by omega)).stays.bind fun body => ?_
    exact (spanFrom _).bind fun _ => .pure rfl
  · refine (h.classBody _ (by omega)).stays.bind fun ms => ?_
    exact (spanFrom _).bind fun _ => .pure rfl

/-! ### Source files -/

theorem runs_package (hr : 8 * r ≤ n + 6) : c.Moves r (package g) := by
  unfold package
  refine (expect rfl).discard.bind fun _ => (runs_path h (by omega)).stays.bind fun name => ?_
  exact (expect rfl).stays.discard.bind fun _ => .pure rfl

theorem runs_importSegments (hr : 8 * r ≤ n + 6) : c.Moves r (importSegments g) := by
  unfold importSegments
  refine identifier.bind fun first => ?_
  refine iterate (fun found => ifEat rfl (ifEat rfl (.pure rfl) ?_) (.pure rfl))
    (rounds_suffice h (by omega)) _
  exact identifier.stays.anywhere.bind fun _ => .pure rfl

theorem runs_importDecl (hr : 8 * r ≤ n + 6) : c.Moves r (importDecl g) := by
  unfold importDecl
  refine (expect rfl).bind fun start => (eat rfl).bind fun isStatic => peeking fun t => ?_
  refine (runs_importSegments h (by omega)).stays.bind fun segments => ?_
  refine (spanFrom _).bind fun span => ?_
  exact (expect rfl).stays.discard.bind fun _ => (spanFrom _).bind fun _ => .pure rfl

/-- Nothing is said about braces here. -/
theorem runs_topLevel (hc : ∀ e, ¬c.harmless e) (hr : 8 * r ≤ n + 5) : c.Moves r (topLevel g) := by
  unfold topLevel
  refine ifEat rfl (.pure rfl) ((runs_modifiers h hr).anywhere.bind fun modifiers => ?_)
  refine RunsFrom.bind ((h.typeDecl modifiers (by omega)).weaken ?_ le_rfl fun _ => le_rfl)
    fun _ => .pure rfl
  exact fun s _ ⟨e, he⟩ => (hc e he).elim

theorem runs_topLevels (hc : ∀ e, ¬c.harmless e) (hr : 8 * r ≤ n + 5) :
    c.Stays r (Parser.collectWhile g.rounds (return !(← Parser.atEnd))
      (Parser.recovering (topLevel g))) :=
  collectWhile (fun s => !decide (s.next.kind = .endOfSource)) (fun _ => rfl)
    (recovering (runs_topLevel h hc hr).anywhere fun s hs => by simpa using hs)
    (rounds_suffice h (by omega))

theorem runs_sourceUnit (hc : ∀ e, ¬c.harmless e) (hr : 8 * r ≤ n + 5) :
    c.Stays r (sourceUnit g) := by
  unfold sourceUnit
  refine peeking fun t => joinNext ?_ (.pure rfl) fun name => ?_
  · exact (recovering (runs_package h (by omega)).wrap.anywhere fun s hs => by
      rw [hs.1]; exact nofun).stays
  · refine RunsFrom.bind (collectWhile (fun s => s.next.kind = Keyword.kwImport) (fun _ => rfl)
      (recovering (runs_importDecl h (by omega)).wrap.anywhere fun s hs => ?_)
      (rounds_suffice h (by omega))) fun imports => ?_
    · rw [of_decide_eq_true hs]
      exact nofun
    · refine (runs_topLevels h hc (by omega)).bind fun types => ?_
      exact (spanFrom _).bind fun _ => .pure rfl

end Grammar

/-! ### All rules -/

variable {c : Enclosure}

theorem Rules.Keep.over {g : Rules} {n : Nat} (h : g.Keep c n) : (g.over n).Keep c (n + 1) where
  rounds := le_rfl
  annot hr := Grammar.runs_annot h (by omega)
  block hr := Grammar.runs_block h (by omega)
  classBody name hr := Grammar.runs_classBody h name (by omega)
  typeDecl modifiers hr := Grammar.runs_typeDecl h modifiers (by omega)
  type hr := Grammar.runs_type h (by omega)
  expr power hr := Grammar.runs_expr h power (by omega)
  element hr := Grammar.runs_element h (by omega)
  stmt hr := Grammar.runs_stmt h (by omega)

/-- **All rules keep** bounds and braces, at every depth. -/
theorem keep_grammar (c : Enclosure) (n : Nat) : (grammar n).Keep c n := by
  have hnone {α : Type} {start : ParserState → Prop} {take : α → Nat} {p : Parser α} {r k : Nat}
      (hr : 8 * r + (k + 1) ≤ 0 + 8) : c.RunsFrom start r 0 take p :=
    fun s _ _ hs => absurd hs (by omega)
  induction n with
  | zero =>
    exact ⟨Nat.zero_le _, hnone, hnone, fun _ => hnone, fun _ => hnone, hnone, fun _ => hnone,
      hnone, hnone⟩
  | succ n ih => exact ih.over

/-- An enclosure in which no error is harmless, so that nothing is said about braces. -/
def Enclosure.none : Enclosure := ⟨[], [], fun _ => False, False.elim, False.elim⟩

/-- **No source exhausts the parser**: the bounds on depth and rounds that go with its length
suffice, whatever errors are in it. -/
theorem sourceUnit_not_exhausted (source : List Char) (n : Nat) (s : ParserState) :
    Grammar.sourceUnit (grammar (ParserState.ofSource source n).depth) (.ofSource source n)
      ≠ .error .exhausted s := by
  intro hrun
  have hkeep := keep_grammar .none (ParserState.ofSource source n).depth
  have h := Grammar.runs_sourceUnit (r := (ParserState.ofSource source n).remaining + 1) hkeep
    (fun _ => id) (by rw [ParserState.depth]; omega) _ trivial (areText_tokenize source).finish
    (Nat.lt_succ_self _)
  rw [hrun] at h
  exact h

end JavaGraft

import JavaGraft.Grammar.Modifiers
import JavaGraft.Proofs.Course.Closing

/-!
# What the rules for types and annotations gather

Each rule gathers the extents of its result if the recursive parts do: they are sound, they stand
behind the place where the rule started, and the numbers of their calls were handed out by it.

Modifiers need not take a token. What is known then of the place behind them is what the rule for
the declaration of a type has to know about them (`JavaGraft.Modifiers.Lead`).
-/

namespace JavaGraft

open Course

/-- What modifiers lead to, which were read from a token on when a node was being read that starts
at a base. -/
structure Modifiers.Lead (source : List Char) (base : Span) (t : Token) (m : Modifiers)
    (s : ParserState) : Prop where
  liesIn : t.span.LiesIn source
  offset_le : base.offset ≤ t.span.offset
  stop_le : base.stop ≤ t.span.stop
  past : s.Past t.span .loose
  present : m.span ≠ .absent
  offset : m.span.offset = t.span.offset
  stop : ¬m.span.isEmpty → t.span.stop ≤ m.span.stop
  next : m.span.isEmpty → s.next.span = t.span

/-- Modifiers that are there are one node. -/
theorem Modifiers.extents_of_present {m : Modifiers} (h : m.span ≠ .absent) :
    m.extents = [.node m.span none (Annot.extents m.annots)] := by
  obtain ⟨flags, annots, span⟩ := m
  rw [Modifiers.extents, if_neg h]

/-- **The rules of a grammar gather** the extents of their results. -/
structure Rules.Gathers (source : List Char) (g : Rules) : Prop where
  annot : Moves source g.annot fun a => [a.extent]
  block : Moves source g.block fun b => [b.extent]
  classBody (name : String) : Moves source (g.classBody name) fun ms => ms.map Member.extent
  typeDecl (base : Span) (t : Token) (modifiers : Modifiers) :
    GathersFrom source (modifiers.Lead source base t) base .loose modifiers.extents
      (g.typeDecl modifiers) .tight fun d => [d.extent]
  type : Moves source g.type fun t => [t.extent]
  expr (power : Nat) : Moves source (g.expr power) fun e => [e.extent]
  element : Moves source g.element fun v => [v.extent]
  stmt : Moves source g.stmt fun a => [a.extent]

namespace Grammar

variable {source : List Char} {g : Rules} (h : g.Gathers source)

/-! ### Names -/

theorem gathers_nextSegment? :
    Stays source nextSegment? fun i => i.toList.map Ident.extent := by
  unfold nextSegment?
  intro base e
  refine .getting fun s => .getting fun t => .ite (fun _ => ?_) fun _ => .pure rfl
  exact advance.skip fun _ => identifier.stays.bind fun _ => .pure rfl

theorem gathers_path : Moves source (path g) fun p => [p.extent] := by
  unfold path
  refine identifier.lead (fun _ => rfl) fun first => ?_
  exact (collect gathers_nextSegment?).bind fun others => .close fun _ => rfl

include h

/-! ### Type arguments -/

theorem gathers_typeArg : Moves source (typeArg g) fun a => [a.extent] := by
  unfold typeArg
  intro base e
  refine .eat?_lead rfl (fun mark => ?_) ?_
  · refine .ifEat rfl ?_ (.ifEat rfl ?_ ?_)
    · exact h.type.bind fun _ => .close fun _ => rfl
    · exact h.type.bind fun _ => .close fun _ => rfl
    · exact .close fun _ => rfl
  · exact h.type.anywhere.bind fun _ => .pure rfl

theorem gathers_typeArgs : Moves source (typeArgs g) fun as => as.map TypeArg.extent := by
  unfold typeArgs
  intro base e
  refine (expect rfl).discard.skip fun _ => .joinNext
    (fun as => as.map TypeArg.extent) (fun _ _ => .pure rfl) ?_ fun args => ?_
  · exact (sepBy rfl (gathers_typeArg h)).stays.anywhere
  · exact closeAngle.skip fun _ => .pure rfl

theorem gathers_typeArgs? : Stays source (typeArgs? g) fun as => as.map TypeArg.extent :=
  fun _ _ => .ifNext ((gathers_typeArgs h).stays.anywhere _ _) (.pure rfl)

theorem gathers_bounds : Stays source (bounds g) fun ts => ts.map TypeExpr.extent :=
  fun _ _ => .ifEat rfl ((sepBy rfl h.type).stays _ _).loosen (.pure rfl)

theorem gathers_typeParam : Moves source (typeParam g) fun p => [p.extent] := by
  unfold typeParam
  refine identifier.lead (fun _ => rfl) fun name => (gathers_bounds h).bind fun bounds => ?_
  exact .close fun _ => rfl

theorem gathers_typeParams : Stays source (typeParams g) fun ps => ps.map TypeParam.extent := by
  unfold typeParams
  refine fun _ _ => .ifEat rfl ?_ (.pure rfl)
  refine ((sepBy rfl (gathers_typeParam h)).bind fun params => ?_).loosen
  exact closeAngle.skip fun _ => .pure rfl

/-! ### Types -/

theorem gathers_namedType : Moves source (namedType g) fun x =>
    x.1.map Ident.extent ++ x.2.map TypeArg.extent := by
  unfold namedType
  intro base e
  refine iterate (fun found => found.reverse.map Ident.extent) (fun found => ?_)
    (fun found => ?_) g.rounds []
  all_goals
    refine identifier.bind fun name => (gathers_typeArgs? h).bind fun args => ?_
    refine .getting fun s => .getting fun t => .ite (fun _ => ?_) fun _ => .pure (by simp)
    refine advance.skip fun _ => ?_
    exact GathersFrom.drop (.pure (by simp)) (List.sublist_append_left _ _)

theorem gathers_plainType : Moves source (plainType g) fun t => [t.extent] := by
  unfold plainType
  refine .of_peek fun t => ?_
  cases hp : primitiveOf? t.kind with
  | some p =>
    have ht : t.kind.hasText := by
      cases hkind : t.kind <;> first | rfl | rw [hkind] at hp; cases hp
    exact (MovesFrom.known (fun _ hs => hs.1) ht).bind fun _ => .pure rfl
  | none =>
    refine .ite (fun _ => .rejectNext fun _ _ => nofun) fun hkind => ?_
    refine .get_bind fun s => .ite (fun _ => ?_) fun _ => ?_
    · have ht : t.kind.hasText := by rw [not_not.mp hkind]; rfl
      exact (MovesFrom.known (fun _ hs => hs.2.1) ht).bind fun _ => .pure rfl
    · refine (gathers_namedType h).anywhere.bind fun x => ?_
      exact .close_both (List.nil_append _) fun span => by
        simp [TypeExpr.extent, TypeBase.extents, Path.extent, TypeArg.extents_eq_map]

/-- A choice by whether an annotation follows. -/
theorem gathers_ifAnnot {α : Type} {start : ParserState → Prop} {base : Span} {e e' : Edge}
    {acc : List Extent} {ext : α → List Extent} {f : Option Annot → Parser α}
    (hp : ∀ a, Gathers source base .tight (acc ++ [a.extent]) (f (some a)) e' ext)
    (hq : GathersFrom source (fun s => ¬(s.next.kind = Sign.atSign ∧
      (s.nth 1).kind ≠ Keyword.kwInterface) ∧ start s) base e acc (f none) e' ext) :
    GathersFrom source start base e acc (annot? g >>= f) e' ext := by
  intro s hfinish
  by_cases hs : s.next.kind = Sign.atSign ∧ (s.nth 1).kind ≠ Keyword.kwInterface
  · have hrun : (annot? g >>= f) s = (g.annot >>= fun a => f (some a)) s := by
      rw [annot?, bind_assoc, Parser.bind_ok (Parser.get_eq s), bind_assoc,
        Parser.bind_ok (Parser.get_eq s), if_pos hs, bind_assoc]
      simp only [pure_bind]
    rw [hrun]
    exact (h.annot.anywhere.bind hp) s hfinish
  · have hrun : (annot? g >>= f) s = f none s := by
      rw [annot?, bind_assoc, Parser.bind_ok (Parser.get_eq s), bind_assoc,
        Parser.bind_ok (Parser.get_eq s), if_neg hs, pure_bind]
    rw [hrun]
    exact ⟨(hq s hfinish).1, fun hstart => (hq s hfinish).2 ⟨hs, hstart⟩⟩

theorem gathers_annot? : Stays source (annot? g) fun a => a.toList.map Annot.extent := by
  intro base e
  have hrun : Gathers source base e [] (annot? g >>= pure) e
      fun a => a.toList.map Annot.extent :=
    gathers_ifAnnot h (fun _ => GathersFrom.loosen (.pure rfl)) (.pure rfl)
  rwa [bind_pure] at hrun

theorem gathers_type : Moves source (type g) fun t => [t.extent] := by
  unfold type
  have htype : Moves source (do
      let plain ← plainType g
      let n ← Parser.dims
      if n = 0 then return plain
      else return { plain with dims := n, span := ← Parser.spanFrom plain.span })
      fun t => [t.extent] := by
    refine (gathers_plainType h).lead TypeExpr.span_extent fun plain => dims.skip fun n => ?_
    refine .ite (fun _ => .pure rfl) fun _ => ?_
    obtain ⟨b, args, n, span⟩ := plain
    exact .close_wider fun _ => rfl
  exact fun _ _ => (collect (gathers_annot? h)).discard.skip fun _ => htype _ _

theorem gathers_typesBehind {word : Keyword} :
    Stays source (typesBehind g word) fun ts => ts.map TypeExpr.extent :=
  fun _ _ => .ifEat rfl ((sepBy rfl h.type).stays _ _).loosen (.pure rfl)

/-! ### Annotations -/

theorem gathers_elementList : Moves source (elementList g) fun v => [v.extent] := by
  unfold elementList
  refine (expect rfl).lead_skip (fun _ => rfl) fun first => ?_
  refine (sepUntil rfl h.element).bind fun items => .close_by (expect rfl) fun last => ?_
  simp [Element.extent, Element.extents_eq_map]

theorem gathers_element : Moves source (element g) fun v => [v.extent] := by
  unfold element
  refine fun _ _ => .peeking fun t => ?_
  split
  · exact h.annot.bind fun _ => .pure rfl
  · exact gathers_elementList h _ _
  · exact (h.expr _).bind fun _ => .pure rfl

theorem gathers_namedArg : Moves source (namedArg g) fun a => [a.extent] := by
  unfold namedArg
  refine identifier.lead (fun _ => rfl) fun name => (expect rfl).discard.skip fun _ => ?_
  exact h.element.bind fun _ => .close fun _ => rfl

theorem gathers_annotArgs : Stays source (annotArgs g) fun as => as.map AnnotArg.extent := by
  unfold annotArgs
  refine fun _ _ => .getting fun s => .getting fun t => .ite (fun _ => ?_) fun _ =>
    .ifNext (.pure rfl) ?_
  · exact (sepBy rfl (gathers_namedArg h)).stays _ _
  · refine h.element.stays.anywhere.bind fun v => .wrapped ?_
    simp [AnnotArg.extent]

theorem gathers_annot : Moves source (annot g) fun a => [a.extent] := by
  unfold annot
  refine (expect rfl).lead_skip (fun _ => rfl) fun start => gathers_path.bind fun name => ?_
  have hclose (args : List AnnotArg) : Gathers source start.span .tight
      ([] ++ [name.extent] ++ args.map AnnotArg.extent)
      (do return ⟨name, args, ← Parser.spanFrom start.span⟩ : Parser Annot) .tight
      fun a => [a.extent] :=
    .close fun span => by simp [Annot.extent, AnnotArg.extents_eq_map]
  refine .ifEat rfl ?_ (hclose []).anywhere
  refine (gathers_annotArgs h).bind fun args => (expect rfl).discard.skip fun _ => ?_
  exact hclose args

/-! ### Modifiers -/

omit h in
theorem hasText_of_modifierFlag {t following : Token} {flag : Flags}
    (hflag : modifierFlag? t following = some flag) : t.kind.hasText := by
  cases hkind : t.kind with
  | endOfSource => rw [modifierFlag?, hkind] at hflag; cases hflag
  | _ => rfl

/-- Whether a modifier or an annotation comes next. -/
def startsModifier (s : ParserState) : Prop :=
  (s.next.kind = Sign.atSign ∧ (s.nth 1).kind ≠ Keyword.kwInterface) ∨
    modifierFlag? s.next (s.nth 1) ≠ none

/-- Where a modifier comes, a token is taken. -/
theorem gathers_modifierStep {start : ParserState → Prop} {base : Span} {e e' : Edge}
    (hedge : ∀ s, start s → ¬startsModifier s → e' = e) (found : Flags × List Annot) :
    GathersFrom source start base e (found.2.reverse.map Annot.extent) (modifierStep g found) e'
      (Sum.elim (fun found => found.2.reverse.map Annot.extent)
        fun found => found.2.map Annot.extent) := by
  unfold modifierStep
  refine gathers_ifAnnot h (fun a => GathersFrom.loosen (.pure (by simp))) ?_
  refine .peek_bind fun t => .get_bind fun s => ?_
  cases hflag : modifierFlag? t (s.nth 1) with
  | none =>
    refine fun u _ => ⟨.refl u, fun hu _ hnoted _ hheld => ⟨hnoted, ?_⟩⟩
    have hnone : ¬startsModifier u := by
      rintro (hannot | hword)
      · exact hu.2.2.1 hannot
      · exact hword (by rw [hu.2.1, hu.1]; exact hflag)
    rw [hedge u hu.2.2.2 hnone]
    exact hheld
  | some flag =>
    -- a flag that is there already is an error at its token
    have hadvance : MovesFrom source (fun u => u = s ∧ u.next = t ∧ ¬(u.next.kind = Sign.atSign ∧
        (u.nth 1).kind ≠ Keyword.kwInterface) ∧ start u) (discard Parser.advance)
        fun _ => [.leaf t.span] := .known (fun u hu => hu.2.1) (hasText_of_modifierFlag hflag)
    have hlast : Gathers source base .tight (found.2.reverse.map Annot.extent ++ [.leaf t.span])
        (pure (.inl (found.1 ||| flag, found.2)) :
          Parser ((Flags × List Annot) ⊕ (Flags × List Annot))) e'
        (Sum.elim (fun found => found.2.reverse.map Annot.extent)
          fun found => found.2.map Annot.extent) :=
      GathersFrom.loosen (GathersFrom.drop (.pure rfl) (List.sublist_append_left _ _))
    refine hadvance.bind fun _ => .ite (fun _ => ?_) fun _ => hlast
    refine .recording (fun _ _ hheld => ⟨?_, nofun⟩) hlast
    exact (hheld.sound _ (List.mem_append_right _ (List.mem_singleton.mpr rfl))).liesIn

theorem gathers_modifierSteps {start : ParserState → Prop} {base : Span} {e e' : Edge}
    (hedge : ∀ s, start s → ¬startsModifier s → e' = e) (rounds : Nat) :
    GathersFrom source start base e [] (Parser.iterate (modifierStep g) rounds (.none, [])) e'
      fun found => found.2.map Annot.extent := by
  cases rounds with
  | zero => exact .exhausted
  | succ rounds =>
    have hagain (found : Flags × List Annot) : Gathers source base e'
        (found.2.reverse.map Annot.extent) (modifierStep g found) e'
        (Sum.elim (fun found => found.2.reverse.map Annot.extent)
          fun found => found.2.map Annot.extent) :=
      gathers_modifierStep h (fun _ _ _ => rfl) found
    rw [Parser.iterate]
    refine (gathers_modifierStep h hedge (.none, [])).seq fun r => ?_
    cases r with
    | inl found => exact loop _ hagain rounds found
    | inr found => exact .pure rfl

omit h in
/-- The span of modifiers, read from a span on up to a state. -/
def modifierSpan (start : Span) (s : ParserState) : Span :=
  if !s.consumed.isEmpty && start.offset ≤ s.previous.span.offset then
    start.merge s.previous.span
  else start.atStart

omit h in
theorem modifierSpan_of_past {start : Span} {s : ParserState} (h : s.Past start .tight) :
    modifierSpan start s = start.merge s.previous.span ∧ start.offset ≤ s.previous.span.offset ∧
      s.previous ∈ s.consumed := by
  obtain ⟨t, ts, hconsumed, hoffset, -⟩ := h
  have hprevious : s.previous = t := by rw [ParserState.previous, hconsumed]; rfl
  rw [modifierSpan, hprevious, hconsumed, if_pos (by simpa using hoffset)]
  exact ⟨rfl, hoffset, List.mem_cons_self⟩

omit h in
theorem modifierSpan_of_next {s : ParserState} (hs : s.Regular source) :
    modifierSpan s.next.span s = s.next.span.atStart := by
  refine if_neg fun h => ?_
  cases hconsumed : s.consumed with
  | nil => simp [hconsumed] at h
  | cons t ts =>
    have hmem : t ∈ s.consumed := by rw [hconsumed]; exact List.mem_cons_self
    have hlt := (hs.fits t (ParserState.mem_tokens_of_consumed hmem)).offset_lt_stop
    have hle := hs.stop_le_next hmem
    simp only [ParserState.previous, hconsumed, List.headD_cons, List.isEmpty_cons, Bool.not_false,
      Bool.true_and, decide_eq_true_eq] at h
    omega

omit h in
/-- How modifiers are put together. -/
theorem modifiers_ok {s s' : ParserState} {m : Modifiers} (hrun : modifiers g s = .ok m s') :
    ∃ found, Parser.iterate (modifierStep g) g.rounds (.none, []) s = .ok found s' ∧
      m = ⟨found.1, found.2, modifierSpan s.next.span s'⟩ := by
  rw [modifiers, Parser.bind_ok (Parser.peek_eq s)] at hrun
  cases hsteps : Parser.iterate (modifierStep g) g.rounds (.none, []) s with
  | error err u => rw [Parser.bind_error hsteps] at hrun; cases hrun
  | ok found u =>
    rw [Parser.bind_ok hsteps] at hrun
    cases hrun
    exact ⟨found, rfl, rfl⟩

/-- Modifiers that are there. -/
theorem gathers_modifiers_some :
    MovesFrom source startsModifier (modifiers g) Modifiers.extents := by
  unfold modifiers
  refine .of_peek fun t => ?_
  have hsteps : GathersFrom source (fun s => s.next = t ∧ startsModifier s) t.span .loose []
      (Parser.iterate (modifierStep g) g.rounds (.none, [])) .tight
      fun found => found.2.map Annot.extent :=
    gathers_modifierSteps h (fun s hs hnone => absurd hs.2 hnone) _
  refine hsteps.seq fun found s _ => ⟨.refl s, fun _ hs hnoted first hheld => ⟨hnoted, ?_⟩⟩
  have hgroup := Held.group [] (by simpa using hheld) hs
  have hextents : Modifiers.extents ⟨found.1, found.2, modifierSpan t.span s⟩ =
      [.node (t.span.merge s.previous.span) none (found.2.map Annot.extent)] := by
    have hne : t.span.merge s.previous.span ≠ .absent := (hheld.span_spec hs).1.ne_absent
    rw [(modifierSpan_of_past hheld.past).1, Modifiers.extents_of_present hne,
      Annot.extents_eq_map]
  exact hextents ▸ hgroup

omit h in
/-- Modifiers that are not there. -/
theorem modifiers_none {s : ParserState} (hnone : ¬startsModifier s) :
    modifiers g s = .error .exhausted s ∨
      modifiers g s = .ok ⟨.none, [], modifierSpan s.next.span s⟩ s := by
  have hannot : ¬(s.next.kind = Sign.atSign ∧ (s.nth 1).kind ≠ Keyword.kwInterface) :=
    fun h => hnone (.inl h)
  have hword : modifierFlag? s.next (s.nth 1) = none := not_not.mp fun h => hnone (.inr h)
  have hstep : modifierStep g (.none, []) s = .ok (.inr (.none, [])) s := by
    have hlook : annot? g s = .ok none s := by
      rw [annot?, Parser.bind_ok (Parser.get_eq s), Parser.bind_ok (Parser.get_eq s), if_neg hannot]
      rfl
    rw [modifierStep, Parser.bind_ok hlook]
    dsimp only
    rw [Parser.bind_ok (Parser.peek_eq s), Parser.bind_ok (Parser.get_eq s), hword]
    rfl
  rw [modifiers, Parser.bind_ok (Parser.peek_eq s)]
  cases g.rounds with
  | zero => exact .inl rfl
  | succ rounds => exact .inr (by rw [Parser.bind_ok (Parser.iterate_inr hstep)]; rfl)

theorem gathers_modifiers {start : ParserState → Prop} {base : Span} {e : Edge} :
    GathersFrom source start base e [] (modifiers g) .loose Modifiers.extents := by
  intro s hfinish
  have hsome : GathersFrom source startsModifier base e [] (modifiers g) .loose
      Modifiers.extents := (gathers_modifiers_some h base e).loosen
  by_cases hstarts : startsModifier s
  · exact ⟨(hsome s hfinish).1, fun _ => (hsome s hfinish).2 hstarts⟩
  · refine ⟨(hsome s hfinish).1, fun _ hs hnoted first hheld => ?_⟩
    rcases modifiers_none (g := g) hstarts with hrun | hrun
    · rw [hrun]
      trivial
    · -- the span is empty and stands before the next token
      have hnext : s.next.span.atStart.LiesIn source := hs.liesIn_next.atStart
      have hextents : Modifiers.extents ⟨.none, [], modifierSpan s.next.span s⟩ =
          [.leaf s.next.span.atStart] := by
        rw [modifierSpan_of_next hs, Modifiers.extents_of_present hnext.ne_absent, Annot.extents]
      rw [hrun]
      refine ⟨hnoted, hextents ▸ Held.node [] (hheld.loosen hs) hnext ?_ ?_ nofun nofun⟩
      · exact (hheld.past.loose hs).1
      · exact le_rfl

/-- What modifiers lead to. -/
theorem lead_modifiers {base : Span} {first : Nat} {e : Edge} {s s' : ParserState} {m : Modifiers}
    (hs : s.Regular source) (hnoted : s.Noted source) (hheld : Held source base first e s [])
    (hrun : modifiers g s = .ok m s') : m.Lead source base s.next s' := by
  have hsome := gathers_modifiers_some h s.next.span .loose s hs.finish
  have hleads : s.Leads s' := by
    have hleads := hsome.1
    rw [hrun] at hleads
    exact hleads
  have hpast : s'.Past s.next.span .loose :=
    ParserState.Leads.past hleads hs (e := .loose) ⟨le_rfl, le_rfl⟩
  obtain ⟨hoffset_le, hstop_le⟩ := hheld.past.loose hs
  by_cases hstarts : startsModifier s
  · have hends := hsome.2 hstarts hs hnoted s.nextCall (.nil_next hs)
    rw [hrun] at hends
    obtain ⟨found, -, rfl⟩ := modifiers_ok hrun
    obtain ⟨hspan, hoffset, hmem⟩ := modifierSpan_of_past hends.2.past
    have hprevious := (hs.leads hleads).fits _ (ParserState.mem_tokens_of_consumed hmem)
    have hmerge : (s.next.span.merge s'.previous.span).offset = s.next.span.offset := by
      rw [Span.offset_merge, min_eq_left hoffset]
    refine ⟨hs.liesIn_next, hoffset_le, hstop_le, hpast, ?_, ?_, fun _ => ?_, fun hempty => ?_⟩
    · rw [hspan]
      exact (hs.liesIn_next.merge hprevious.liesIn).ne_absent
    · rw [hspan, hmerge]
    · rw [hspan]
      exact (Span.contains_merge_left _ _).2
    · -- the last token consumed is part of it
      have hlt := hprevious.offset_lt_stop
      have hstop := (Span.contains_merge_right s.next.span s'.previous.span).2
      simp only [hspan, Span.isEmpty, beq_iff_eq] at hempty
      simp only [Span.stop, hempty] at hstop hlt
      omega
  · rcases modifiers_none (g := g) hstarts with h | h
    · rw [h] at hrun
      cases hrun
    · rw [h] at hrun
      cases hrun
      rw [modifierSpan_of_next hs]
      exact ⟨hs.liesIn_next, hoffset_le, hstop_le, hpast, hs.liesIn_next.atStart.ne_absent, rfl,
        fun h => absurd rfl h, fun _ => rfl⟩

/-- **Behind modifiers**, which are read from a token on. -/
theorem gathers_behindModifiers {α : Type} {start : ParserState → Prop} {base : Span} {e e' : Edge}
    {t : Token} {ext : α → List Extent} {f : Modifiers → Parser α}
    (ht : ∀ s, start s → s.next = t)
    (hf : ∀ m : Modifiers, GathersFrom source (m.Lead source base t) base .loose m.extents (f m) e'
      ext) :
    GathersFrom source start base e [] (modifiers g >>= f) e' ext := by
  refine (gathers_modifiers h).seq_when (fun s first m s' hstart hs hnoted hheld hrun => ?_) hf
  rw [← ht s hstart]
  exact lead_modifiers h hs hnoted hheld hrun

end Grammar

end JavaGraft

import JavaGraft.Proofs.Course.Declarations
import JavaGraft.Proofs.Exchange.Exchanging

/-!
# Exchanging what follows types and modifiers
-/

namespace JavaGraft

open JavaGraft.Grammar

/-- A parser that does not succeed. -/
def Parser.Fails {α : Type} (p : Parser α) (s : ParserState) : Prop := ∀ a t, p s ≠ .ok a t

theorem Parser.Fails.bind {α β : Type} {p : Parser β} {f : β → Parser α} {s : ParserState}
    (h : p.Fails s) : (p >>= f).Fails s := by
  intro a t hrun
  obtain ⟨b, u, hrun, -⟩ := Parser.exists_of_bind_ok hrun
  exact h b u hrun

theorem Parser.Fails.sepBy {α : Type} {item : Parser α} {s : ParserState} (h : item.Fails s)
    (rounds : Nat) (separator : TokenKind) : (Parser.sepBy rounds separator item).Fails s := by
  cases rounds with
  | zero => exact fun _ _ hrun => nomatch hrun
  | succ rounds => exact h.bind.bind

/-- An expression that does not end with a name or with parentheses, which before an arrow would be
the parameters of a lambda. -/
def Expr.isClosed : Expr → Bool
  | .name _ | .paren _ _ => false
  | .unary _ e _ | .cast _ e _ | .lambda _ e _ => e.isClosed
  | .binary _ _ e _ | .assign _ _ e _ | .conditional _ _ e _ => e.isClosed
  | _ => true

/-- Whether an arrow is exchanged. -/
def Exchange.hasArrow (c : Exchange) : Bool :=
  Token.firstKind c.rest = Sign.arrow || Token.firstKind c.rest' = Sign.arrow

theorem Exchange.hasArrow_ofEnd {ts : List Token} (h : (Token.firstKind ts).isEnd) :
    (ofEnd ts h).hasArrow = decide (Token.firstKind ts = Sign.arrow) := rfl

/-- The expressions that may stand before what is exchanged, with so much room. -/
def Exchange.allows (c : Exchange) (room : Nat) (e : Expr) : Bool :=
  1 ≤ room || !c.hasArrow || e.isClosed

/-- **A grammar of which every part carries over.** -/
structure Rules.Carry (c : Exchange) (g : Rules) : Prop where
  expr : ∀ room power, c.Carries room 0 1 (Parser.only (c.allows room) (g.expr power))
  type : c.Carries 0 0 1 g.type
  annot : c.Carries 0 0 1 g.annot
  element : c.Carries 1 0 1 g.element
  block : c.Carries 0 0 1 g.block
  stmt : c.Carries 0 0 1 g.stmt
  classBody : ∀ name, c.Carries 0 0 1 (g.classBody name)
  typeDecl : ∀ m, c.Carries 0 0 1 (g.typeDecl m)
  gathers : g.Gathers []
  /-- Nothing starts with the word `default`. -/
  refuses : ∀ s : ParserState, s.next.kind = Keyword.kwDefault →
    (∀ power, (g.expr power).Fails s) ∧ g.type.Fails s

/-- With room behind it, any expression may stand there. -/
theorem Rules.Carry.inner {c : Exchange} {g : Rules} (h : g.Carry c) (power : Nat) :
    c.Carries 1 0 1 (g.expr power) :=
  .of_only (fun _ => rfl) (h.expr 1 power)

namespace Grammar

open Exchange Exchange.CarriesFrom

variable {c : Exchange} {g : Rules} {room : Nat}

/-! ### Names -/

theorem carries_nextSegment? : c.Carries room 0 0 nextSegment? := by
  unfold nextSegment?
  refine chooseTwice
    (P := fun s t => s.next.kind = Sign.dot ∧ (t.nth 1).kind = .identifier)
    (fun s t x y _ hfinish hx => ?_) ?_ .pure
  · exact hx.sign_and_iff (Q := fun s => (s.nth 1).kind = .identifier) hfinish rfl
      fun hne => hx.second_iff hfinish rfl hne
  · refine (advance fun s hs => by rw [hs.1.1]; rfl).discard.bind fun _ => ?_
    exact identifier.stays.bind fun _ => .pure

theorem carries_path : c.Carries room 0 1 (path g) := by
  unfold path
  refine identifier.bind fun first => (collect carries_nextSegment? _).bind fun others => ?_
  exact (spanFrom _).bind fun _ => .pure

/-! ### Type arguments -/

variable (h : g.Carry c)

include h

theorem carries_typeArg : c.Carries room 0 0 (typeArg g) := by
  unfold typeArg
  refine eat?_bind rfl (.inl rfl) (fun mark => ?_) ?_
  · refine ifEat rfl (.inl rfl) ?_ (ifEat rfl (.inl rfl) ?_ ?_)
    · exact h.type.stays.bind fun _ => (spanFrom _).bind fun _ => .pure
    · exact h.type.stays.bind fun _ => (spanFrom _).bind fun _ => .pure
    · exact (spanFrom _).bind fun _ => .pure
  · exact h.type.stays.anywhere.bind fun _ => .pure

theorem carries_typeArgs : c.Carries room 0 2 (typeArgs g) := by
  unfold typeArgs
  refine (expect rfl).discard.bind fun _ => ?_
  refine joinNext (.inr (.inr le_rfl)) .pure ?_ (fun args => closeAngle.bind fun _ => .pure)
    (.inr (.inl ⟨le_rfl, le_rfl⟩))
  exact (sepBy rfl (.inr le_rfl) (carries_typeArg h) (Nat.zero_le _) _).anywhere

theorem carries_typeArgs? : c.Carries room 0 0 (typeArgs? g) :=
  ifNext (.inl rfl) (carries_typeArgs h).stays.anywhere .pure

theorem carries_bounds : c.Carries room 0 0 (bounds g) :=
  ifEat rfl (.inl rfl) (sepBy rfl (.inl rfl) h.type.stays (Nat.zero_le _) _) .pure

theorem carries_typeParam : c.Carries room 0 1 (typeParam g) := by
  unfold typeParam
  refine identifier.bind fun name => (carries_bounds h).bind fun bounds => ?_
  exact (spanFrom _).bind fun _ => .pure

theorem carries_typeParams : c.Carries room 0 0 (typeParams g) := by
  unfold typeParams
  have hparams : c.Carries room 0 1 (do
      let params ← Parser.sepBy g.rounds Sign.comma (typeParam g)
      Parser.closeAngle
      return params) :=
    (sepBy rfl (.inr le_rfl) (carries_typeParam h).stays (Nat.zero_le _) _).bindIn
      (fun params => closeAngle.bind fun _ => .pure) (.inr (.inl ⟨le_rfl, le_rfl⟩))
  exact ifEat rfl (.inl rfl) hparams.stays .pure

/-! ### Types -/

theorem carries_namedType : c.Carries room 0 1 (namedType g) := by
  refine iterate (fun found => identifier.bind fun name => ?_) _ _
  refine (carries_typeArgs? h).bind fun args => chooseTwice
    (P := fun s t => s.next.kind = Sign.dot ∧ (t.nth 1).kind = .identifier)
    (fun s t x y _ hfinish hx => ?_) ?_ .pure
  · exact hx.sign_and_iff (Q := fun s => (s.nth 1).kind = .identifier) hfinish rfl
      fun hne => hx.second_iff hfinish rfl hne
  · exact (advance fun s hs => by rw [hs.1.1]; rfl).discard.stays.bind fun _ => .pure

omit h in
theorem isLevel_of_primitive {kind : TokenKind} {p : Primitive}
    (hp : primitiveOf? kind = some p) : kind.isLevel := by
  unfold primitiveOf? at hp
  split at hp
  · rfl
  · cases hp

theorem carries_plainType : c.Carries room 0 1 (plainType g) := by
  unfold plainType
  refine peek_bind (fun t => ?_) (.inr le_rfl)
  have hadvance (ht : t.kind.isLevel) :
      c.CarriesFrom (fun s => s.next = t ∧ True) 0 0 1 Parser.advance :=
    advance fun s hs => by rw [hs.1]; exact ht
  cases hprimitive : primitiveOf? t.kind with
  | some p => exact (hadvance (isLevel_of_primitive hprimitive)).discard.bind fun _ => .pure
  | none =>
    refine ite (fun _ => .rejectNext) fun hname => chooseGet
      (P := fun s => t.text = "var" ∧ (s.nth 1).kind = .identifier)
      (fun s u x y _ hfinish hx => ?_) ?_ ?_
    · exact and_congr_right fun _ => hx.second_iff hfinish rfl (hx.ne_nil (.inr le_rfl))
    · have hlevel : t.kind.isLevel := by rw [not_not.mp hname]; rfl
      exact ((hadvance hlevel).weaken (fun _ hs => hs.2) le_rfl le_rfl).discard.bind fun _ => .pure
    · exact (carries_namedType h).anywhere.bind fun x => (spanFrom _).bind fun _ => .pure

theorem carries_annot? : c.Carries room 0 0 (annot? g) := by
  unfold annot?
  refine chooseTwice
    (P := fun s t => s.next.kind = Sign.atSign ∧ (t.nth 1).kind ≠ Keyword.kwInterface)
    (fun s t x y _ hfinish hx => ?_) ?_ .pure
  · exact hx.sign_and_iff (Q := fun s => (s.nth 1).kind ≠ Keyword.kwInterface) hfinish rfl
      fun hne => not_congr (hx.second_iff hfinish rfl hne)
  · exact h.annot.stays.anywhere.bind fun _ => .pure

theorem carries_type : c.Carries room 0 1 (type g) := by
  unfold type
  refine (collect (carries_annot? h) _).discard.bind fun _ => ?_
  refine (carries_plainType h).bind fun plain => dims.bind fun n => ?_
  exact ite (fun _ => .pure) fun _ => (spanFrom _).bind fun _ => .pure

theorem carries_typesBehind {word : Keyword} : c.Carries 1 0 0 (typesBehind g word) :=
  ifEat rfl (.inl rfl) (sepBy rfl (.inr le_rfl) h.type.stays (Nat.zero_le _) _) .pure

/-! ### Annotations -/

theorem carries_elementList : c.Carries room 0 2 (elementList g) := by
  unfold elementList
  refine (expect rfl).bind fun first => ?_
  refine (sepUntil rfl h.element.stays le_rfl le_rfl _).bindIn (fun items => ?_)
    (.inr (.inl ⟨le_rfl, le_rfl⟩))
  exact (expect rfl).bind fun last => .pure

theorem carries_element : c.Carries 1 0 1 (element g) := by
  unfold element
  refine peek_bind (fun t => ?_) (.inr le_rfl)
  split
  · exact h.annot.anywhere.bind fun _ => .pure
  · exact (carries_elementList h).taking (Nat.le_succ 1) |>.anywhere
  · exact (h.inner _).anywhere.bindIn (fun _ => .pure) (.inl le_rfl)

theorem carries_namedArg : c.Carries 1 0 1 (namedArg g) := by
  unfold namedArg
  refine identifier.bind fun name => (expect rfl).stays.discard.bind fun _ => ?_
  exact h.element.stays.bindIn (fun _ => (spanFrom _).bind fun _ => .pure) (.inl le_rfl)

theorem carries_annotArgs : c.Carries 1 0 0 (annotArgs g) := by
  unfold annotArgs
  refine chooseTwice
    (P := fun s t => s.next.kind = .identifier ∧ (t.nth 1).kind = Sign.assign)
    (fun s t x y _ hfinish hx => ?_) ?_ (ifNext (.inl rfl) .pure ?_)
  · have hne := hx.ne_nil (.inl le_rfl)
    rw [hx.next_eq hne, hx.second_iff hfinish rfl hne]
  · exact (sepBy rfl (.inr le_rfl) (carries_namedArg h).stays le_rfl _).anywhere
  · exact h.element.stays.anywhere.bindIn (fun _ => .pure) (.inl le_rfl)

theorem carries_annot : c.Carries room 0 1 (annot g) := by
  unfold annot
  refine (expect rfl).bind fun start => carries_path.stays.bind fun name => ?_
  refine ifOpen ?_ ((spanFrom _).bind fun _ => .pure)
  refine (carries_annotArgs h).bindIn (fun args => closing ?_) (.inr (.inr le_rfl))
  exact (spanFrom _).bind fun _ => .pure

/-! ### Modifiers -/

omit h in
/-- Of what follows a modifier, only a parenthesis behind `synchronized` matters, and what stands
behind `default`. -/
theorem modifierFlag?_congr {t u v : Token} (hword : t.kind ≠ Keyword.kwDefault)
    (hopen : u.kind = Sign.lparen ↔ v.kind = Sign.lparen) :
    modifierFlag? t u = modifierFlag? t v := by
  unfold modifierFlag?
  split
  · next hkind => exact absurd hkind hword
  · simp only [ne_eq, hopen]
  · rfl

omit h in
theorem isLevel_of_modifierFlag {t following : Token} {flag : Flags}
    (hflag : modifierFlag? t following = some flag) : t.kind.isLevel ∧ t.weight = 1 := by
  rw [Token.weight]
  unfold modifierFlag? at hflag
  cases hkind : t.kind with
  | sign s => rw [hkind] at hflag; cases hflag
  | endOfSource => rw [hkind] at hflag; cases hflag
  | invalid => rw [hkind] at hflag; cases hflag
  | _ => exact ⟨rfl, rfl⟩

omit h in
/-- Takes a modifier of which the flag is known. -/
def takeModifier (found : Flags × List Annot) (t : Token) (flag : Flags) :
    Parser ((Flags × List Annot) ⊕ (Flags × List Annot)) := do
  discard Parser.advance
  if found.1.contains flag then Parser.record ⟨.duplicateModifier t.text, t.span⟩
  return .inl (found.1 ||| flag, found.2)

omit h in
/-- Takes a modifier, if one follows. -/
def modifier? (found : Flags × List Annot) :
    Parser ((Flags × List Annot) ⊕ (Flags × List Annot)) := do
  let t ← Parser.peek
  match modifierFlag? t ((← get).nth 1) with
  | none => return .inr (found.1, found.2.reverse)
  | some flag => takeModifier found t flag

omit h in
theorem modifierStep_eq (found : Flags × List Annot) : modifierStep g found = annot? g >>=
    fun a => a.elim (modifier? found) fun a => return .inl (found.1, a :: found.2) := by
  rw [modifierStep]
  congr 1
  funext a
  cases a <;> rfl

omit h in
theorem modifier?_eq (found : Flags × List Annot) (s : ParserState) :
    modifier? found s = match modifierFlag? s.next (s.nth 1) with
      | none => .ok (.inr (found.1, found.2.reverse)) s
      | some flag => takeModifier found s.next flag s := by
  rw [modifier?, Parser.bind_ok (Parser.peek_eq s), Parser.bind_ok (Parser.get_eq s)]
  cases modifierFlag? s.next (s.nth 1) <;> rfl

omit h in
theorem carries_takeModifier (found : Flags × List Annot) (t : Token) (flag : Flags) :
    c.CarriesFrom (fun s => s.next.kind.isLevel) room 0 1 (takeModifier found t flag) := by
  have hrecord (e : ParseError) : c.Carries 0 0 0 (Parser.record e) := record e
  unfold takeModifier
  refine (advance fun _ hs => hs).discard.bind fun _ => ?_
  exact ite (fun _ => (hrecord _).bind fun _ => .pure) fun _ => .pure

omit h in
/-- A modifier that is taken is followed by something that is not exchanged, and where none is
taken, that is not for what follows the word `default`. -/
theorem recasts_modifier? {found : Flags × List Annot} {s t : ParserState}
    {r : (Flags × List Annot) ⊕ (Flags × List Annot)} (hfinish : s.finish.kind = .endOfSource)
    (hconsumed : s.consumed ≠ []) (hrun : modifier? found s = .ok r t) :
    s.Leads t ∧ ((r.isRight → t.next.kind ≠ Keyword.kwDefault) →
      c.Recasts 1 0 0 (modifier? found) s r t) := by
  rw [modifier?_eq] at hrun
  cases hflag : modifierFlag? s.next (s.nth 1) with
  | some flag =>
    rw [hflag] at hrun
    obtain ⟨hlevel, hweight⟩ := isLevel_of_modifierFlag hflag
    obtain ⟨hleads, hrecasts⟩ :=
      carries_takeModifier found s.next flag s r t hlevel hfinish hconsumed hrun
    refine ⟨hleads, fun _ herrors y hy hroom => ?_⟩
    -- two tokens tell whether a modifier comes, and neither is exchanged
    obtain ⟨x, hx, hrun'⟩ := hrecasts herrors y hy hroom
    refine ⟨x, ⟨hx.before, hy, (Nat.le_succ _).trans hx.weight, hx.passes, hroom⟩, ?_⟩
    rw [modifier?_eq, hx.next_eq (hx.ne_nil (.inl le_rfl)),
      hx.nth_eq (hx.one_lt hweight (.inl ⟨le_rfl, le_rfl⟩)), hflag]
    exact hrun'
  | none =>
    rw [hflag] at hrun
    cases hrun
    refine ⟨.refl s, fun hword _ y hy hroom => ?_⟩
    have hx : c.Stretch 1 0 0 s s y y := ⟨hy, hy, le_rfl, .refl y, hroom⟩
    have hsecond : _ ↔ (s.nth 1).kind = Sign.lparen := hx.second_iff hfinish rfl hroom
    refine ⟨y, hx, ?_⟩
    rw [modifier?_eq, hx.next_eq hroom, modifierFlag?_congr (hword rfl) hsecond, hflag]

theorem recasts_modifierStep {found : Flags × List Annot} {s t : ParserState}
    {r : (Flags × List Annot) ⊕ (Flags × List Annot)} (hfinish : s.finish.kind = .endOfSource)
    (hconsumed : s.consumed ≠ []) (hrun : modifierStep g found s = .ok r t) :
    s.Leads t ∧ ((r.isRight → t.next.kind ≠ Keyword.kwDefault) →
      c.Recasts 1 0 0 (modifierStep g found) s r t) := by
  rw [modifierStep_eq] at hrun ⊢
  obtain ⟨mark, u, hannot, hrun⟩ := Parser.exists_of_bind_ok hrun
  obtain ⟨hleads, hrecasts⟩ :=
    (carries_annot? h : c.Carries 0 0 0 (annot? g)) s mark u trivial hfinish hconsumed hannot
  obtain ⟨hfinish', hconsumed'⟩ := hleads.goesOn hfinish hconsumed
  have hlater : u.Leads t ∧ ((r.isRight → t.next.kind ≠ Keyword.kwDefault) → c.Recasts 1 0 0
      (mark.elim (modifier? found) fun a => return .inl (found.1, a :: found.2)) u r t) := by
    cases mark with
    | some a =>
      have hpure : c.Carries 1 0 0 (return Sum.inl (found.1, a :: found.2) :
        Parser ((Flags × List Annot) ⊕ (Flags × List Annot))) := .pure
      obtain ⟨hleads, hrecasts⟩ := hpure u r t trivial hfinish' hconsumed' hrun
      exact ⟨hleads, fun _ => hrecasts⟩
    | none => exact recasts_modifier? hfinish' hconsumed' hrun
  refine ⟨hleads.trans hlater.1, fun hword => ?_⟩
  exact hrecasts.bindIn (hlater.2 hword) hleads hlater.1 (.inl (Nat.zero_le _)) le_rfl

theorem recasts_modifiers {rounds : Nat} {found a : Flags × List Annot} {s t : ParserState}
    (hfinish : s.finish.kind = .endOfSource) (hconsumed : s.consumed ≠ [])
    (hrun : Parser.iterate (modifierStep g) rounds found s = .ok a t) :
    s.Leads t ∧ (t.next.kind ≠ Keyword.kwDefault →
      c.Recasts 1 0 0 (Parser.iterate (modifierStep g) rounds found) s a t) := by
  induction rounds generalizing found s with
  | zero => cases hrun
  | succ rounds ih =>
    rw [Parser.iterate] at hrun ⊢
    obtain ⟨r, u, hstep, hrun⟩ := Parser.exists_of_bind_ok hrun
    obtain ⟨hleads, hrecasts⟩ := recasts_modifierStep h hfinish hconsumed hstep
    obtain ⟨hfinish', hconsumed'⟩ := hleads.goesOn hfinish hconsumed
    cases r with
    | inl found =>
      obtain ⟨hleads', hrecasts'⟩ := ih hfinish' hconsumed' hrun
      refine ⟨hleads.trans hleads', fun hword => ?_⟩
      have hrecasts := hrecasts fun hright => absurd hright Bool.false_ne_true
      exact hrecasts.bindIn (hrecasts' hword) hleads hleads' (.inl le_rfl) le_rfl
    | inr found =>
      have hpure : c.Carries 1 0 0 (return found : Parser (Flags × List Annot)) := .pure
      obtain ⟨hleads', hrecasts'⟩ := hpure u a t trivial hfinish' hconsumed' hrun
      cases hrun
      refine ⟨hleads, fun hword => ?_⟩
      exact (hrecasts fun _ => hword).bindIn hrecasts' hleads hleads' (.inl le_rfl) le_rfl

omit h in
/-- Modifiers as they are returned. -/
def withSpan (start : Span) (found : Flags × List Annot) : Parser Modifiers := do
  let s ← get
  let span :=
    if !s.consumed.isEmpty && start.offset ≤ s.previous.span.offset then
      start.merge s.previous.span
    else start.atStart
  return ⟨found.1, found.2, span⟩

omit h in
theorem modifiers_eq : modifiers g = Parser.peek >>= fun t =>
    Parser.iterate (modifierStep g) g.rounds (.none, []) >>= withSpan t.span := rfl

omit h in
theorem carries_withSpan (start : Span) (found : Flags × List Annot) :
    c.Carries room 0 0 (withSpan start found) := by
  refine looksBack fun s hs => ⟨⟨found.1, found.2,
    if !s.consumed.isEmpty && start.offset ≤ s.previous.span.offset then
      start.merge s.previous.span
    else start.atStart⟩, fun ts => ?_⟩
  rw [withSpan, Parser.bind_ok (Parser.get_eq _), previous_having hs]
  rfl

/-- **Behind modifiers** comes something that does not start with the word `default`. -/
theorem modifiers_bind {α : Type} {start : ParserState → Prop} {opened take : Nat}
    {f : Modifiers → Parser α} (hf : ∀ m, c.Carries room opened take (f m))
    (hsome : 1 ≤ room ∨ 1 ≤ take)
    (hfails : ∀ m (s : ParserState), s.next.kind = .keyword .kwDefault → (f m).Fails s) :
    c.CarriesFrom start room opened take (modifiers g >>= f) := by
  rw [modifiers_eq]
  simp only [bind_assoc]
  refine peeking (fun t => ?_) hsome
  intro s a t' hs hfinish hconsumed hrun
  obtain ⟨found, u, hfound, hrun⟩ := Parser.exists_of_bind_ok hrun
  obtain ⟨hleads, hrecasts⟩ := recasts_modifiers h hfinish hconsumed hfound
  obtain ⟨hfinish', hconsumed'⟩ := hleads.goesOn hfinish hconsumed
  have hbehind : c.Carries room opened take (withSpan t.span found >>= f) :=
    (carries_withSpan _ _).bind hf
  obtain ⟨hleads', hrecasts'⟩ := hbehind u a t' trivial hfinish' hconsumed' hrun
  refine ⟨hleads.trans hleads', (hrecasts fun hword => ?_).bindIn hrecasts' hleads hleads' ?_ ?_⟩
  · obtain ⟨m, v, hspan, hrun⟩ := Parser.exists_of_bind_ok hrun
    cases hspan
    exact hfails _ _ hword a t' hrun
  · exact hsome.imp_right fun htake => .inl ⟨le_rfl, htake⟩
  · omega

end Grammar

end JavaGraft

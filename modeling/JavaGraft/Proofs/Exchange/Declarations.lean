import JavaGraft.Proofs.Exchange.Statements

/-!
# Exchanging what follows declarations
-/

namespace JavaGraft

namespace Grammar

open Exchange Exchange.CarriesFrom

variable {c : Exchange} {g : Rules} {room : Nat} (h : g.Carry c)

include h

/-! ### Members -/

theorem carries_param : c.Carries room 0 2 (param g) := by
  unfold param
  refine peeking (fun t => modifiers_bind h (fun modifiers => ?_) (.inr (Nat.le_succ 1)) ?_)
    (.inr (Nat.le_succ 1))
  · refine h.type.bind fun type => (eat rfl rfl).bind fun varargs => ?_
    exact identifier.bind fun name => dims.bind fun dims => (spanFrom _).bind fun _ => .pure
  · exact fun modifiers s hs => (h.refuses s hs).2.bind

theorem carries_params : c.Carries room 0 2 (params g) := by
  unfold params
  have hparams : c.Carries 1 0 0 (Parser.sepBy g.rounds Sign.comma (param g)) :=
    sepBy rfl (.inr le_rfl) (carries_param h).stays (Nat.zero_le 1) _
  refine opening (joinNext (.inl rfl) .pure hparams.anywhere (fun ps => ?_) (.inr (.inr le_rfl)))
  exact closing .pure

theorem carries_initializer : c.Carries room 0 1 (initializer g) := by
  unfold initializer
  refine peeking (fun t => (eat rfl rfl).bind fun isStatic => h.block.bind fun body => ?_)
    (.inr le_rfl)
  exact (spanFrom _).bind fun _ => .pure

theorem carries_constructor (modifiers : Modifiers) (typeParams : List TypeParam) (start : Span) :
    c.Carries room 0 1 (constructor g modifiers typeParams start) := by
  unfold constructor
  refine CarriesFrom.taking (show c.CarriesFrom _ room 0 2 _ from ?_) (Nat.le_succ 1)
  refine identifier.bind fun name => (carries_params h).stays.bind fun ps => ?_
  refine (carries_typesBehind h).bindIn (fun throws => ?_) (.inr (.inl ⟨le_rfl, le_rfl⟩))
  exact h.block.bind fun body => (spanFrom _).bind fun _ => .pure

theorem carries_method (modifiers : Modifiers) (typeParams : List TypeParam)
    (returnType : TypeExpr) (start : Span) :
    c.Carries room 0 1 (method g modifiers typeParams returnType start) := by
  unfold method
  have hdefault : c.Carries 1 0 0 (some <$> g.element) := (h.element.map some).stays
  refine CarriesFrom.taking (show c.CarriesFrom _ room 0 2 _ from ?_) (Nat.le_succ 1)
  refine identifier.bind fun name => (carries_params h).stays.bind fun ps => ?_
  refine dims.bind fun dims => ?_
  refine (carries_typesBehind h).bindIn (fun throws => ?_) (.inr (.inl ⟨le_rfl, le_rfl⟩))
  refine joinEat rfl (.inl rfl) hdefault .pure (fun default => ?_) (.inr (.inl ⟨le_rfl, le_rfl⟩))
  refine ifEat rfl (.inl rfl) ((spanFrom _).bind fun _ => .pure) ?_
  exact (h.block.map some).anywhere.bind fun body => (spanFrom _).bind fun _ => .pure

theorem carries_fields (modifiers : Modifiers) (type : TypeExpr) (start : Span) :
    c.Carries room 0 1 (fields g modifiers type start) := by
  unfold fields
  refine (carries_varDeclarators h).stays.bindIn (fun vars => ?_) (.inr (.inl ⟨le_rfl, le_rfl⟩))
  exact (expect rfl).discard.bind fun _ => (spanFrom _).bind fun _ => .pure

theorem carries_typedMember (typeName : String) (modifiers : Modifiers) (start : Span) :
    c.Carries room 0 1 (typedMember g typeName modifiers start) := by
  unfold typedMember
  refine (carries_typeParams h).bind fun typeParams => peek_bind (fun t => ?_) (.inr le_rfl)
  refine chooseGet (P := fun s => t.kind = .identifier ∧ typeName ≠ "" ∧ t.text = typeName ∧
    (s.nth 1).kind = Sign.lparen) (fun s u x y _ hfinish hx => ?_) ?_ ?_
  · exact and_congr_right fun _ => and_congr_right fun _ => and_congr_right fun _ =>
      hx.second_iff hfinish rfl (hx.ne_nil (.inr le_rfl))
  · exact (carries_constructor h _ _ _).anywhere
  · refine CarriesFrom.taking (show c.CarriesFrom _ room 0 2 _ from ?_) (Nat.le_succ 1)
    refine h.type.anywhere.bind fun type => chooseTwice
      (P := fun s t => s.next.kind = .identifier ∧ (t.nth 1).kind = Sign.lparen)
      (fun s u x y _ hfinish hx => ?_) ?_ ?_
    · have hne := hx.ne_nil (.inr le_rfl)
      rw [hx.next_eq hne, hx.second_iff hfinish rfl hne]
    · exact (carries_method h _ _ _ _).anywhere
    · exact (carries_fields h _ _ _).anywhere

theorem typedMember_fails (typeName : String) (modifiers : Modifiers) (start : Span)
    {s : ParserState} (hs : s.next.kind = Keyword.kwDefault) :
    (typedMember g typeName modifiers start).Fails s := by
  intro a t hrun
  have hparams : typeParams g s = .ok [] s := by
    rw [typeParams, Parser.bind_ok (Parser.eat_no (by rw [hs]; exact nofun))]
    rfl
  rw [typedMember, Parser.bind_ok hparams, Parser.bind_ok (Parser.peek_eq s),
    Parser.bind_ok (Parser.get_eq s), if_neg fun hname => by
      rw [hs] at hname
      exact absurd hname.1 nofun] at hrun
  exact (h.refuses s hs).2.bind a t hrun

omit h in
/-- A member behind its modifiers. -/
def memberRest (g : Rules) (typeName : String) (start : Span) (modifiers : Modifiers) :
    Parser (Option Member) := do
  if startsTypeDecl (← Parser.peek).kind then return some (.type (← g.typeDecl modifiers))
  else return some (← typedMember g typeName modifiers start)

theorem carries_memberRest (typeName : String) (start : Span) (modifiers : Modifiers) :
    c.Carries room 0 1 (memberRest g typeName start modifiers) := by
  unfold memberRest
  refine peek_bind (fun u => ite (fun _ => ?_) fun _ => ?_) (.inr le_rfl)
  · exact (h.typeDecl modifiers).anywhere.bind fun _ => .pure
  · exact (carries_typedMember h _ _ _).anywhere.bind fun _ => .pure

theorem memberRest_fails (typeName : String) (start : Span) (modifiers : Modifiers)
    {s : ParserState} (hs : s.next.kind = Keyword.kwDefault) :
    (memberRest g typeName start modifiers).Fails s := by
  intro a t hrun
  rw [memberRest, Parser.bind_ok (Parser.peek_eq s), if_neg (by rw [hs]; exact nofun)] at hrun
  exact (typedMember_fails h typeName modifiers start hs).bind a t hrun

theorem carries_member (typeName : String) : c.Carries room 0 1 (member g typeName) := by
  unfold member
  refine peeking (fun t => ifEat rfl (.inl rfl) .pure ?_) (.inr le_rfl)
  refine choose (P := fun s => s.next.kind = Sign.lbrace ∨
      (s.next.kind = Keyword.kwStatic ∧ (s.nth 1).kind = Sign.lbrace))
    (p := initializer g >>= fun m => return some m)
    (q := modifiers g >>= memberRest g typeName t.span)
    (fun s => ?_) (fun s u a hs hfinish _ x y hx => ?_)
    ((carries_initializer h).anywhere.bind fun _ => .pure) ?_
  · simp only [Parser.bind_ok (Parser.get_eq s)]
    split <;> rfl
  · have hne := hx.ne_nil (.inr le_rfl)
    rw [hx.next_eq hne, hx.second_iff hfinish rfl hne]
  · exact modifiers_bind h (carries_memberRest h typeName t.span) (.inr le_rfl)
      fun m s hs => memberRest_fails h typeName t.span m hs

theorem carries_members (typeName : String) : c.Carries 1 0 0 (members g typeName) := by
  unfold members
  refine collectBefore le_rfl (recovering (carries_member h typeName).stays fun s hfinish => ?_) _
  exact (gathers_member h.gathers typeName s.next.span .loose s hfinish).1

theorem carries_classBody (typeName : String) : c.Carries room 0 2 (classBody g typeName) := by
  unfold classBody
  refine (expect rfl).discard.bind fun _ => (carries_members h typeName).bindIn (fun ms => ?_)
    (.inr (.inl ⟨le_rfl, le_rfl⟩))
  exact (expect rfl).discard.bind fun _ => .pure

/-! ### Types -/

theorem carries_enumConstant : c.Carries room 0 1 (enumConstant g) := by
  unfold enumConstant
  have hannot : c.Carries 0 0 0 (do
      if ← Parser.check Sign.atSign then return some (← g.annot) else return none) :=
    ifNext (.inl rfl) (h.annot.stays.anywhere.bind fun _ => .pure) .pure
  have hargs : c.Carries 0 0 0 (arguments g) := (carries_arguments h).stays
  refine peeking (fun t => (collect hannot _).bind fun annots => identifier.bind fun name => ?_)
    (.inr le_rfl)
  refine joinNext (.inl rfl) hargs.anywhere .pure (fun args => ?_) (.inl (Nat.zero_le _))
  refine ifNext (.inl rfl) ?_ ((spanFrom _).bind fun _ => .pure)
  exact (h.classBody "").stays.anywhere.bind fun body => (spanFrom _).bind fun _ => .pure

theorem carries_enumConstants : c.Carries 1 0 0 (enumConstants g) := by
  unfold enumConstants
  refine iterate (fun found => choose (P := fun s => s.next.kind = Sign.semicolon ∨
      s.next.kind = Sign.rbrace ∨ s.next.kind = .endOfSource)
    (p := return .inr found.reverse) (q := enumConstant g >>= fun constant => do
      if ← Parser.eat Sign.comma then return .inl (constant :: found)
      else return .inr (constant :: found).reverse) (fun s => ?_)
    (fun s t a _ _ _ x y hx => ?_) .pure ?_) _ _
  · rw [Parser.kindAt, bind_assoc, Parser.bind_ok (Parser.get_eq s), pure_bind]
    exact apply_ite (fun p : Parser (List EnumConstant ⊕ List EnumConstant) => p s) _ _ _
  · rw [hx.next_eq (hx.ne_nil (.inl le_rfl))]
  · exact (carries_enumConstant h).stays.anywhere.bind fun constant =>
      ifEat rfl (.inr (.inl le_rfl)) .pure .pure

theorem carries_enumBody (typeName : String) : c.Carries room 0 2 (enumBody g typeName) := by
  unfold enumBody
  refine (expect rfl).discard.bind fun _ => (carries_enumConstants h).bindIn (fun constants => ?_)
    (.inr (.inl ⟨le_rfl, le_rfl⟩))
  refine joinEat rfl (.inl rfl) (carries_members h typeName) .pure (fun ms => ?_)
    (.inr (.inl ⟨le_rfl, le_rfl⟩))
  exact (expect rfl).discard.bind fun _ => .pure

omit h in
/-- The words that declare a type, by whether `interface` follows the next token. -/
def typeKindBefore (isInterface : Bool) : Parser TypeKind := do
  match (← Parser.peek).kind with
  | .keyword .kwClass => discard Parser.advance; return .classType
  | .keyword .kwInterface => discard Parser.advance; return .interfaceType
  | .keyword .kwEnum => discard Parser.advance; return .enumType
  | .sign .atSign =>
    if isInterface then
      discard Parser.advance
      discard Parser.advance
      return .annotType
    else Parser.rejectNext .expectedDeclaration
  | _ => Parser.rejectNext .expectedDeclaration

omit h in
theorem carries_typeKind : c.Carries room 0 1 typeKind := by
  refine lookGuarded (fun s => decide ((s.nth 1).kind = Keyword.kwInterface))
    (f := typeKindBefore) (fun s => ?_) fun b => ?_
  · by_cases hword : (s.nth 1).kind = Keyword.kwInterface
    · rw [decide_eq_true hword]
      simp only [typeKind, Parser.bind_ok (Parser.get_eq s), if_pos hword]
      rfl
    · rw [decide_eq_false hword]
      simp only [typeKind, Parser.bind_ok (Parser.get_eq s), if_neg hword]
      rfl
  refine guard (peek_bind (fun t => ?_) (.inr le_rfl)) fun s u a x y hsees _ hfinish _ hx => ?_
  · have hadvance (ht : t.kind.isLevel) : c.CarriesFrom (fun s => s.next = t ∧
        decide ((s.nth 1).kind = Keyword.kwInterface) = b ∧ True) 0 0 1 Parser.advance :=
      advance fun s hs => by rw [hs.1]; exact ht
    split
    · next ht => exact (hadvance (by rw [ht]; rfl)).discard.bind fun _ => .pure
    · next ht => exact (hadvance (by rw [ht]; rfl)).discard.bind fun _ => .pure
    · next ht => exact (hadvance (by rw [ht]; rfl)).discard.bind fun _ => .pure
    · next ht =>
      refine ite (fun hb => ?_) fun _ => .rejectNext
      refine advance_twice (fun s hs => ?_) .pure
      rw [hs.1, ht, of_decide_eq_true (hs.2.1.trans hb)]
      exact ⟨rfl, rfl⟩
    · exact .rejectNext
  · rw [← hsees]
    exact decide_eq_decide.mpr (hx.second_iff hfinish rfl (hx.ne_nil (.inr le_rfl)))

theorem carries_supertypes (kind : TypeKind) : c.Carries 1 0 0 (supertypes g kind) := by
  have htype : c.Carries 0 0 0 (some <$> g.type) := (h.type.map some).stays
  cases kind with
  | classType =>
    refine joinEat rfl (.inl rfl) htype .pure (fun superclass => ?_) (.inl (Nat.zero_le _))
    exact (carries_typesBehind h).bindIn (fun _ => .pure) (.inl le_rfl)
  | interfaceType => exact (carries_typesBehind h).bindIn (fun _ => .pure) (.inl le_rfl)
  | enumType => exact (carries_typesBehind h).bindIn (fun _ => .pure) (.inl le_rfl)
  | annotType => exact .pure

theorem carries_typeDecl (modifiers : Modifiers) : c.Carries room 0 2 (typeDecl g modifiers) := by
  unfold typeDecl
  refine peeking (fun t => carries_typeKind.bind fun kind => identifier.stays.bind fun name => ?_)
    (.inr (Nat.le_succ 1))
  refine (carries_typeParams h).bind fun typeParams => ?_
  refine (carries_supertypes h kind).bindIn (fun supertypes => ?_) (.inr (.inl ⟨le_rfl, le_rfl⟩))
  refine ite (fun _ => ?_) fun _ => ?_
  · exact ((carries_enumBody h _).taking (Nat.le_succ 1)).bind fun body =>
      (spanFrom _).bind fun _ => .pure
  · exact (h.classBody _).bind fun ms => (spanFrom _).bind fun _ => .pure

/-! ### The word `default` -/

omit h in
theorem annot?_before {s : ParserState} (hs : s.next.kind ≠ Sign.atSign) :
    annot? g s = .ok none s := by
  rw [annot?, Parser.bind_ok (Parser.get_eq s), Parser.bind_ok (Parser.get_eq s),
    if_neg fun hat => hs hat.1]
  rfl

omit h in
theorem type_fails {s : ParserState} (hs : s.next.kind = Keyword.kwDefault) :
    (type g).Fails s := by
  have hannot : annot? g s = .ok none s := annot?_before (by rw [hs]; exact nofun)
  have hplain : (plainType g).Fails s := by
    intro a t hrun
    rw [plainType, Parser.bind_ok (Parser.peek_eq s), hs] at hrun
    cases hrun
  intro a t hrun
  rw [type] at hrun
  cases hrounds : g.rounds with
  | zero =>
    rw [hrounds] at hrun
    cases hrun
  | succ rounds =>
    have hcollect : Parser.collect g.rounds (annot? g) s = .ok [] s := by
      rw [hrounds, Parser.collect, Parser.iterate]
      simp only [bind_assoc, Parser.bind_ok hannot]
      rfl
    rw [Parser.bind_ok (Parser.discard_ok hcollect)] at hrun
    exact hplain.bind a t hrun

omit h in
theorem expr_fails (power : Nat) {s : ParserState} (hs : s.next.kind = Keyword.kwDefault) :
    (expr g power).Fails s := by
  refine Parser.Fails.bind fun e t hrun => ?_
  rw [operand, Parser.bind_ok (Parser.peek_eq s), hs] at hrun
  cases hrun

end Grammar

/-! ### All rules -/

variable {c : Exchange}

theorem Rules.Carry.over {g : Rules} (h : g.Carry c) (n : Nat) : (g.over n).Carry c where
  expr _ power := Grammar.carries_expr h power
  type := Grammar.carries_type h
  annot := Grammar.carries_annot h
  element := Grammar.carries_element h
  block := (Grammar.carries_block h).taking (Nat.le_succ 1)
  stmt := Grammar.carries_stmt h
  classBody name := (Grammar.carries_classBody h name).taking (Nat.le_succ 1)
  typeDecl m := (Grammar.carries_typeDecl h m).taking (Nat.le_succ 1)
  gathers := h.gathers.over n
  refuses _ hs := ⟨fun power => Grammar.expr_fails power hs, Grammar.type_fails hs⟩

/-- **All rules carry over** what they read, at every depth. -/
theorem carry_grammar (c : Exchange) (n : Nat) : (grammar n).Carry c := by
  have hnone {α : Type} {start : ParserState → Prop} {room opened take : Nat} :
      c.CarriesFrom start room opened take (throw .exhausted : Parser α) :=
    Exchange.CarriesFrom.exhausted
  induction n with
  | zero =>
    refine ⟨fun room power => hnone.only, hnone, hnone, hnone, hnone, hnone, fun _ => hnone,
      fun _ => hnone, gathers_grammar [] 0, fun _ _ => ⟨fun _ _ _ => nofun, fun _ _ => nofun⟩⟩
  | succ n ih => exact ih.over n

end JavaGraft

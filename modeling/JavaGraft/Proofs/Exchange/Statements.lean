import JavaGraft.Proofs.Exchange.Expressions

/-!
# Exchanging what follows statements
-/

namespace JavaGraft

open JavaGraft.Grammar

/-! ### Looking for declarations -/

namespace Lookahead

variable {x us rest rest' : List Token} {p : Token}

theorem isTypeStart_append (hne : x ≠ []) (rest : List Token) :
    isTypeStart (x ++ rest) = isTypeStart x := by
  obtain ⟨t, x, rfl⟩ := List.exists_cons_of_ne_nil hne
  rfl

theorem isVarDecl_of_closes (h : ClosesTo 1 x us) (rest rest' : List Token) :
    isVarDecl (x ++ rest') = isVarDecl (x ++ rest) := by
  have hne : x ≠ [] := by
    rintro rfl
    exact ClosesTo.not_nil h
  simp only [isVarDecl, isTypeStart_append hne]
  rcases skipType_of_closes h with hnone | ⟨p, vs, -, hvs, hsome⟩
  · rw [hnone, hnone]
  · have hvs : vs ≠ [] := by
      rintro rfl
      exact List.cons_ne_nil _ _ (List.suffix_nil.mp hvs)
    simp only [hsome, Option.any_some, startsWith_append hvs]

theorem isVarDecl_of_stop (hp : IsStop p) (h : p :: us <:+ x) (rest rest' : List Token) :
    isVarDecl (x ++ rest') = isVarDecl (x ++ rest) := by
  have hne {vs : List Token} (hvs : p :: us <:+ vs) : vs ≠ [] := by
    rintro rfl
    exact List.cons_ne_nil _ _ (List.suffix_nil.mp hvs)
  simp only [isVarDecl, isTypeStart_append (hne h)]
  by_cases hstarts : isTypeStart x
  · have hannot : startsWith Sign.atSign x = false := by
      obtain ⟨t, x, rfl⟩ := List.exists_cons_of_ne_nil (hne h)
      refine decide_eq_false fun hat => ?_
      rw [isTypeStart, List.head?_cons, Option.any_some, hat] at hstarts
      cases hstarts
    rcases skipType_of_stop hp h hannot with hnone | ⟨vs, hvs, hsome⟩
    · rw [hnone, hnone]
    · simp only [hsome, Option.any_some, startsWith_append (hne hvs)]
  · rw [eq_false_of_ne_true hstarts, Bool.false_and, Bool.false_and]

theorem isElementLoop_of_closes (h : ClosesTo 1 x us) (hus : us ≠ []) (rest rest' : List Token) :
    isElementLoop (x ++ rest') = isElementLoop (x ++ rest) := by
  simp only [isElementLoop]
  rcases skipType_of_closes h with hnone | ⟨p, vs, -, hvs, hsome⟩
  · rw [hnone, hnone]
  · simp only [hsome, Option.any_some]
    rcases exists_of_suffix hvs with rfl | ⟨q, ws, rfl, hws⟩
    · simp only [List.cons_append, List.drop_one, List.tail_cons, startsWith_append hus]
    · have hne : ws ≠ [] := by
        rintro rfl
        exact List.cons_ne_nil _ _ (List.suffix_nil.mp hws)
      simp only [List.cons_append, List.drop_one, List.tail_cons, startsWith_append hne]

end Lookahead

namespace Exchange.Stretch

variable {c : Exchange} {room opened take : Nat} {s t : ParserState} {x y : List Token}
  (h : c.Stretch room opened take s t x y)

include h

/-- A token that comes next where a run ends was ahead where it started, unless angles were taken
off it. -/
theorem suffix_of_next (kind : TokenKind) (hleads : s.Leads t)
    (hfinish : t.finish.kind = .endOfSource) (hkind : kind.isTelling) (hnext : t.next.kind = kind)
    (hgreater : kind ≠ Sign.greater) (hshr : kind ≠ Sign.shr) :
    ∃ p us, p.kind = kind ∧ p :: us <:+ x := by
  cases y with
  | nil =>
    rw [ParserState.kind_next hfinish, h.after] at hnext
    exact absurd hnext (firstKind_ne hkind).1
  | cons p us =>
    have hp : p.kind = kind := ParserState.next_of_ahead h.after ▸ hnext
    refine ⟨p, us, hp, ?_⟩
    rcases hleads.suffix with ⟨before, hbefore⟩ | ⟨u, ts, hahead, -, hangle⟩
    · rw [h.before, h.after, ← List.append_assoc] at hbefore
      exact ⟨before, List.append_cancel_right hbefore⟩
    · rw [h.after] at hahead
      obtain ⟨rfl, -⟩ := List.cons_eq_cons.mp hahead
      rcases hangle with hangle | hangle
      · exact absurd (hp.symm.trans hangle) hgreater
      · exact absurd (hp.symm.trans hangle) hshr

end Exchange.Stretch

namespace Grammar

open Exchange Exchange.CarriesFrom

variable {c : Exchange} {g : Rules} {room : Nat} (h : g.Carry c)

include h

/-! ### Variables -/

theorem carries_varDeclarator : c.Carries 1 0 1 (varDeclarator g) := by
  unfold varDeclarator
  have hinit : c.Carries 1 0 0 (do
      if ← Parser.check Sign.lbrace then arrayInit g else g.expr 0) :=
    ifNext (.inl rfl) (carries_arrayInit h).stays.anywhere (h.inner 0).stays.anywhere
  refine identifier.bind fun name => dims.bind fun dims => ifEat rfl (.inl rfl) ?_ ?_
  · have hrest (init : Option Expr) : c.Carries 1 0 0 (do
        return VarDeclarator.mk name dims init (← Parser.spanFrom name.span)) :=
      (spanFrom _).bind fun _ => .pure
    have hsome := (hinit.map some).bindIn hrest (.inl le_rfl)
    rwa [map_bind, bind_assoc] at hsome
  · exact (spanFrom _).bind fun _ => .pure

theorem carries_varDeclarators : c.Carries 1 0 1 (varDeclarators g) :=
  sepBy rfl (.inr le_rfl) (carries_varDeclarator h) le_rfl _

theorem carries_openLocalVar (modifiers : Modifiers) (start : Span) :
    c.Carries 1 0 2 (openLocalVar g modifiers start) := by
  unfold openLocalVar
  refine h.type.bind fun type => (carries_varDeclarators h).bindIn (fun vars => ?_) (.inl le_rfl)
  exact (spanFrom _).bind fun _ => .pure

theorem carries_localVar (modifiers : Modifiers) (start : Span) :
    c.Carries room 0 3 (localVar g modifiers start) := by
  unfold localVar
  refine h.type.bind fun type => (carries_varDeclarators h).bindIn (fun vars => ?_)
    (.inr (.inl ⟨le_rfl, le_rfl⟩))
  exact (expect rfl).discard.bind fun _ => (spanFrom _).bind fun _ => .pure

theorem localVar_fails (modifiers : Modifiers) (start : Span) {s : ParserState}
    (hs : s.next.kind = Keyword.kwDefault) : (localVar g modifiers start).Fails s :=
  (h.refuses s hs).2.bind

theorem carries_declaration : c.Carries room 0 1 (declaration g) := by
  unfold declaration
  refine peeking (fun t => modifiers_bind h (fun modifiers => ?_) (.inr le_rfl) ?_) (.inr le_rfl)
  · refine peek_bind (fun u => ite (fun _ => ?_) fun _ => ?_) (.inr le_rfl)
    · exact (h.typeDecl modifiers).anywhere.bind fun _ => .pure
    · exact ((carries_localVar h _ _).taking (by omega)).anywhere
  · intro modifiers s hs
    have hstarts : startsTypeDecl s.next.kind = false := by rw [hs]; rfl
    intro a u hrun
    rw [Parser.bind_ok (Parser.peek_eq s), if_neg (by rw [hstarts]; exact Bool.false_ne_true)]
      at hrun
    exact localVar_fails h modifiers t.span hs a u hrun

/-! ### Simple statements -/

theorem carries_condition : c.Carries room 0 3 (condition g) := by
  unfold condition
  refine opening ((h.inner 0).bindIn (fun e => closing .pure) (.inr (.inr le_rfl)))

theorem carries_returning : c.Carries room 0 2 (returning g) := by
  unfold returning
  refine (expect rfl).bind fun start => joinNext (.inl rfl) .pure
    ((h.inner 0).map some).stays.anywhere (fun value => ?_) (.inr (.inl ⟨le_rfl, le_rfl⟩))
  exact (expect rfl).discard.bind fun _ => (spanFrom _).bind fun _ => .pure

omit h in
theorem carries_jump (build : Option Ident → Span → Stmt) :
    c.CarriesFrom (fun s => s.next.kind.isLevel) room 0 1 (jump build) := by
  have hadvance : c.CarriesFrom (fun s => s.next.kind.isLevel) 0 0 1 Parser.advance :=
    advance fun _ hs => hs
  unfold jump
  refine hadvance.bind fun start => (eat? rfl rfl).bind fun label => ?_
  exact (expect rfl).stays.discard.bind fun _ => (spanFrom _).bind fun _ => .pure

theorem carries_throwing : c.Carries room 0 2 (throwing g) := by
  unfold throwing
  refine (expect rfl).bind fun start => (h.inner 0).stays.bindIn (fun e => ?_)
    (.inr (.inl ⟨le_rfl, le_rfl⟩))
  exact (expect rfl).discard.bind fun _ => (spanFrom _).bind fun _ => .pure

theorem carries_assertion : c.Carries room 0 2 (assertion g) := by
  unfold assertion
  have hmessage : c.Carries 1 0 0 (some <$> g.expr 0) := ((h.inner 0).map some).stays
  refine (expect rfl).bind fun start => (h.inner 0).stays.bindIn (fun e => ?_)
    (.inr (.inl ⟨le_rfl, le_rfl⟩))
  refine joinEat rfl (.inr (.inr le_rfl)) hmessage .pure (fun message => ?_)
    (.inr (.inl ⟨le_rfl, le_rfl⟩))
  exact (expect rfl).discard.bind fun _ => (spanFrom _).bind fun _ => .pure

/-! ### Statements with bodies -/

theorem carries_recovered : c.Carries 0 0 0 (Parser.recovering (some <$> g.stmt)) := by
  have hgathers : Course.Moves [] (some <$> g.stmt) fun a => a.toList.map Stmt.extent :=
    h.gathers.stmt.map fun _ => rfl
  refine recovering (h.stmt.map some).stays fun s hfinish => ?_
  exact (hgathers s.next.span .loose s hfinish).1

theorem carries_block : c.Carries room 0 2 (block g) := by
  unfold block
  have hstmts : c.Carries 1 0 0 (Parser.collectWhile g.rounds (Parser.before Sign.rbrace)
      (Parser.recovering (some <$> g.stmt))) :=
    collectBefore le_rfl ((carries_recovered h).weaken (fun _ => id) (Nat.zero_le _) le_rfl) _
  refine (expect rfl).bind fun first => hstmts.bindIn (fun stmts => ?_)
    (.inr (.inl ⟨le_rfl, le_rfl⟩))
  exact (expect rfl).bind fun last => .pure

theorem carries_ifStmt : c.Carries room 0 1 (ifStmt g) := by
  unfold ifStmt
  refine (expect rfl).bind fun start => (carries_condition h).stays.bind fun e => ?_
  refine h.stmt.stays.bind fun yes => ifEat rfl (.inl rfl) ?_ ?_
  · exact h.stmt.stays.bind fun no => (spanFrom _).bind fun _ => .pure
  · exact (spanFrom _).bind fun _ => .pure

theorem carries_whileStmt : c.Carries room 0 1 (whileStmt g) := by
  unfold whileStmt
  refine (expect rfl).bind fun start => (carries_condition h).stays.bind fun e => ?_
  exact h.stmt.stays.bind fun body => (spanFrom _).bind fun _ => .pure

theorem carries_doStmt : c.Carries room 0 1 (doStmt g) := by
  unfold doStmt
  refine (expect rfl).bind fun start => h.stmt.stays.bind fun body => ?_
  refine (expect rfl).stays.discard.bind fun _ => (carries_condition h).stays.bind fun e => ?_
  exact (expect rfl).stays.discard.bind fun _ => (spanFrom _).bind fun _ => .pure

/-! ### Loops -/

omit h in
/-- A loop over elements up to its body. -/
def forEachHead (g : Rules) : Parser (TypeExpr × Ident × Expr) := do
  let type ← g.type
  let name ← Parser.identifier
  discard (Parser.expect Sign.colon)
  let iterable ← g.expr 0
  discard (Parser.expect Sign.rparen)
  return (type, name, iterable)

omit h in
theorem forEach_eq (modifiers : Modifiers) (start : Span) : forEach g modifiers start =
    forEachHead g >>= fun x => g.stmt >>= fun body => do
      return .forEach modifiers x.1 x.2.1 x.2.2 body (← Parser.spanFrom start) := by
  simp only [forEach, forEachHead, bind_assoc, pure_bind]

theorem carries_forEachHead : c.Carries room 1 1 (forEachHead g) := by
  unfold forEachHead
  refine h.type.bind fun type => identifier.stays.bind fun name => ?_
  refine (expect rfl).stays.discard.bind fun _ => ?_
  exact (h.inner 0).stays.bindIn (fun iterable => closing .pure) (.inr (.inr le_rfl))

theorem carries_forInit (declares : Bool) (modifiers : Modifiers) (start : Span) :
    c.Carries 1 0 0 (forInit g declares modifiers start) := by
  unfold forInit
  refine ite (fun _ => ?_) fun _ => ifNext (.inl rfl) .pure ?_
  · exact (carries_openLocalVar h modifiers start).stays.bindIn (fun _ => .pure) (.inl le_rfl)
  · have hexprs : c.Carries 1 0 0 (Parser.sepBy g.rounds Sign.comma (g.expr 0)) :=
      sepBy rfl (.inr le_rfl) (h.inner 0).stays le_rfl _
    exact hexprs.anywhere.bindIn (fun es => .pure) (.inl le_rfl)

omit h in
/-- A counting loop up to its body. -/
def forLoopHead (g : Rules) (declares : Bool) (modifiers : Modifiers) (initStart : Span) :
    Parser (List Stmt × Option Expr × List Expr) := do
  let init ← forInit g declares modifiers initStart
  discard (Parser.expect Sign.semicolon)
  let e ← if ← Parser.check Sign.semicolon then pure none else some <$> g.expr 0
  discard (Parser.expect Sign.semicolon)
  let updates ← if ← Parser.check Sign.rparen then pure [] else
    Parser.sepBy g.rounds Sign.comma (g.expr 0)
  discard (Parser.expect Sign.rparen)
  return (init, e, updates)

omit h in
theorem forLoop_eq (declares : Bool) (modifiers : Modifiers) (initStart start : Span) :
    forLoop g declares modifiers initStart start =
      forLoopHead g declares modifiers initStart >>= fun x => g.stmt >>= fun body => do
        return .forLoop x.1 x.2.1 x.2.2 body (← Parser.spanFrom start) := by
  have hite {α β : Type} {P : Prop} [Decidable P] (p q : Parser α) (f : α → Parser β) :
      (if P then p else q) >>= f = if P then p >>= f else q >>= f := apply_ite (· >>= f) P p q
  simp only [forLoop, forLoopHead, bind_assoc, pure_bind, hite]

theorem carries_forLoopHead (declares : Bool) (modifiers : Modifiers) (initStart : Span) :
    c.Carries room 1 1 (forLoopHead g declares modifiers initStart) := by
  unfold forLoopHead
  have hexprs : c.Carries 1 0 0 (Parser.sepBy g.rounds Sign.comma (g.expr 0)) :=
    sepBy rfl (.inr le_rfl) (h.inner 0).stays le_rfl _
  refine (carries_forInit h declares modifiers initStart).bindIn (fun init => ?_)
    (.inr (.inl ⟨le_rfl, le_rfl⟩))
  refine (expect rfl).discard.bind fun _ => joinNext (.inl rfl) .pure
    ((h.inner 0).map some).stays.anywhere (fun e => ?_) (.inr (.inr le_rfl))
  refine (expect rfl).stays.discard.bind fun _ => joinNext (.inl rfl) .pure hexprs.anywhere
    (fun updates => closing .pure) (.inr (.inr le_rfl))

omit h in
/-- A loop behind its parenthesis and modifiers. -/
def forRest (g : Rules) (modifiers : Modifiers) (initStart start : Span) : Parser Stmt := do
  let ts := (← get).ahead
  let declares := !modifiers.flags.isEmpty || !modifiers.annots.isEmpty || Lookahead.isVarDecl ts
  if declares && Lookahead.isElementLoop ts then forEach g modifiers start
  else forLoop g declares modifiers initStart start

theorem carries_forRest (modifiers : Modifiers) (initStart start : Span) :
    c.Carries room 1 1 (forRest g modifiers initStart start) := by
  unfold forRest
  let declares (b : Bool) : Bool := !modifiers.flags.isEmpty || !modifiers.annots.isEmpty || b
  refine lookGuarded
    (fun s => (Lookahead.isVarDecl s.ahead, Lookahead.isElementLoop s.ahead))
    (f := fun b => if declares b.1 && b.2 then forEach g modifiers start
      else forLoop g (declares b.1) modifiers initStart start) (fun s => ?_) fun b => ?_
  · rw [Parser.bind_ok (Parser.get_eq s)]
  · have hsettled {s u : ParserState} {x z : List Token} (hx : c.Stretch 1 1 1 s u x z) :
        (Lookahead.isVarDecl (x ++ c.rest'), Lookahead.isElementLoop (x ++ c.rest'))
          = (Lookahead.isVarDecl s.ahead, Lookahead.isElementLoop s.ahead) := by
      -- the parenthesis is closed before the body
      obtain ⟨us, hus, hcloses⟩ := hx.passes.closes rfl le_rfl
      have hne : us ≠ [] := by
        rintro rfl
        exact hx.room (List.length_eq_zero_iff.mp (Nat.le_zero.mp hus.length_le))
      rw [hx.before, Lookahead.isVarDecl_of_closes hcloses c.rest,
        Lookahead.isElementLoop_of_closes hcloses hne c.rest]
    refine CarriesFrom.taking (show c.CarriesFrom _ room 1 2 _ from ?_) (Nat.le_succ 1)
    split
    · rw [forEach_eq]
      refine (carries_forEachHead h).anywhere.guardSeq (fun x => ?_) (.inr (.inl ⟨le_rfl, le_rfl⟩))
        (Nat.add_zero 1) fun s u t a b x z hsees _ _ _ _ hx => (hsettled hx).trans hsees
      exact h.stmt.bind fun body => (spanFrom _).bind fun _ => .pure
    · rw [forLoop_eq]
      refine (carries_forLoopHead h _ _ _).anywhere.guardSeq (fun x => ?_)
        (.inr (.inl ⟨le_rfl, le_rfl⟩)) (Nat.add_zero 1)
        fun s u t a b x z hsees _ _ _ _ hx => (hsettled hx).trans hsees
      exact h.stmt.bind fun body => (spanFrom _).bind fun _ => .pure

/-- Neither loop goes on with the word `default`. -/
theorem forRest_fails (modifiers : Modifiers) (initStart start : Span) {s : ParserState}
    (hs : s.next.kind = Keyword.kwDefault) : (forRest g modifiers initStart start).Fails s := by
  obtain ⟨hexpr, htype⟩ := h.refuses s hs
  have hinit (declares : Bool) : (forInit g declares modifiers initStart).Fails s := by
    unfold forInit
    split
    · exact htype.bind.bind
    · intro a t hrun
      rw [Parser.bind_ok (Parser.check_eq _ s), hs] at hrun
      exact ((hexpr 0).sepBy _ _).bind a t hrun
  intro a t hrun
  rw [forRest, Parser.bind_ok (Parser.get_eq s)] at hrun
  split at hrun
  · exact htype.bind a t hrun
  · exact (hinit _).bind a t hrun

theorem carries_forStmt : c.Carries room 0 1 (forStmt g) := by
  unfold forStmt
  refine CarriesFrom.taking (show c.CarriesFrom _ room 0 3 _ from ?_) (Nat.le_add_left 1 2)
  refine (expect rfl).bind fun start => opening (peeking (fun t => ?_) (.inr le_rfl))
  refine modifiers_bind h (fun modifiers => carries_forRest h _ _ _) (.inr le_rfl) ?_
  exact fun modifiers s hs => forRest_fails h modifiers t.span start.span hs

/-! ### Handlers -/

omit h in
/-- A resource behind its modifiers. -/
def resourceRest (g : Rules) (start : Span) (modifiers : Modifiers) : Parser Stmt := do
  if !modifiers.flags.isEmpty || Lookahead.isVarDecl (← get).ahead then
    openLocalVar g modifiers start
  else
    let e ← g.expr 0
    return .expr e e.span

theorem carries_resourceRest (start : Span) (modifiers : Modifiers) :
    c.Carries 2 0 1 (resourceRest g start modifiers) := by
  unfold resourceRest
  refine lookGuarded (fun s => Lookahead.isVarDecl s.ahead)
    (f := fun b => if !modifiers.flags.isEmpty || b then openLocalVar g modifiers start
      else g.expr 0 >>= fun e => return .expr e e.span) (fun s => ?_) fun b => ?_
  · rw [Parser.bind_ok (Parser.get_eq s)]
  · have hsettled {s u : ParserState} {x z : List Token} (hx : c.Stretch 2 0 1 s u x z) :
        Lookahead.isVarDecl (x ++ c.rest') = Lookahead.isVarDecl s.ahead := by
      obtain ⟨y, hy⟩ := hx.room
      obtain ⟨us, -, hcloses⟩ := (hx.passes.trans hy).closes (show 0 + 1 = 0 + 1 from rfl) le_rfl
      rw [hx.before, Lookahead.isVarDecl_of_closes hcloses c.rest]
    refine guard (.ite (fun _ => ?_) fun _ => ?_)
      fun s u a x z hsees _ _ _ hx => (hsettled hx).trans hsees
    · exact (carries_openLocalVar h _ _).weaken (fun _ _ => trivial) (Nat.le_succ 1) (Nat.le_succ 1)
    · exact (h.inner 0).anywhere.bindIn (fun e => .pure) (.inl (Nat.le_succ 1))

theorem carries_resource : c.Carries 2 0 1 (resource g) := by
  unfold resource
  refine peeking (fun t => modifiers_bind h (carries_resourceRest h t.span) (.inr le_rfl) ?_)
    (.inr le_rfl)
  intro modifiers s hs a u hrun
  obtain ⟨hexpr, htype⟩ := h.refuses s hs
  rw [Parser.bind_ok (Parser.get_eq s)] at hrun
  split at hrun
  · exact htype.bind a u hrun
  · exact (hexpr 0).bind a u hrun

theorem carries_catchClause? : c.Carries room 0 0 (catchClause? g) := by
  unfold catchClause?
  have htypes : c.Carries 1 0 1 (Parser.sepBy g.rounds Sign.pipe g.type) :=
    sepBy rfl (.inr le_rfl) h.type (Nat.zero_le _) _
  refine eat?_bind rfl (.inl rfl) (fun t => CarriesFrom.stays
    (show c.Carries room 0 2 _ from opening ?_)) .pure
  refine modifiers_bind h (fun modifiers => ?_) (.inr le_rfl) fun modifiers s hs => ?_
  · refine htypes.bindIn (fun types => ?_) (.inr (.inr le_rfl))
    refine identifier.stays.bind fun name => closing ?_
    exact h.block.stays.bind fun body => (spanFrom _).bind fun _ => .pure
  · exact ((h.refuses s hs).2.sepBy _ _).bind

theorem carries_tryRest (start : Span) (resources : List Stmt) :
    c.Carries room 0 0 (tryRest g start resources) := by
  unfold tryRest
  have hfinish : c.Carries 0 0 0 (some <$> g.block) := (h.block.map some).stays
  refine h.block.stays.bind fun body => (collect (carries_catchClause? h) _).bind fun catches => ?_
  refine joinEat rfl (.inl rfl) hfinish .pure (fun finish => ?_) (.inl (Nat.zero_le _))
  exact ite (fun _ => .rejectNext) fun _ => (spanFrom _).bind fun _ => .pure

theorem carries_tryStmt : c.Carries room 0 1 (tryStmt g) := by
  rw [tryStmt_eq]
  have hresources : c.Carries 2 0 0
      (Parser.sepUntil g.rounds Sign.semicolon Sign.rparen (resource g)) :=
    sepUntil rfl (carries_resource h).stays le_rfl (Nat.le_succ 1) _
  refine (expect rfl).bind fun start => ifOpen ?_ (carries_tryRest h start.span []).anywhere
  refine hresources.bindIn (fun resources => closing ?_) (.inr (.inr le_rfl))
  exact carries_tryRest h start.span resources

/-! ### Switches -/

theorem carries_caseLabel : c.Carries 1 0 1 (caseLabel g) := by
  unfold caseLabel
  refine chooseTwice (P := fun s t => t.next.kind = .identifier ∧ ((s.nth 1).kind = Sign.arrow ∨
    (s.nth 1).kind = Sign.comma ∨ (s.nth 1).kind = Sign.colon)) ?_ ?_ ?_
  · intro s t x y _ hfinish hx
    rw [hx.next_eq (hx.ne_nil (.inl le_rfl))]
    refine and_congr_right fun hname => ?_
    rw [hx.nth_eq (hx.one_lt (weight_of_identifier hname) (.inl ⟨le_rfl, le_rfl⟩))]
  · exact identifier.anywhere.bind fun _ => .pure
  · exact (h.inner _).anywhere

theorem carries_caseLabels : c.Carries 1 0 1 (caseLabels g) := by
  unfold caseLabels
  refine ifEat rfl (.inl rfl) .pure ((expect rfl).anywhere.discard.bind fun _ => ?_)
  exact (sepBy rfl (.inr le_rfl) (carries_caseLabel h) le_rfl _).stays

theorem carries_caseBody : c.Carries 1 0 0
    (Parser.collectWhile g.rounds caseGoesOn (Parser.recovering (some <$> g.stmt))) :=
  collectWhile (fun kind => kind ≠ Keyword.kwCase && kind ≠ Keyword.kwDefault &&
    kind ≠ Sign.rbrace && kind ≠ .endOfSource) (fun _ => rfl) le_rfl
    ((carries_recovered h).weaken (fun _ => id) (Nat.zero_le 1) le_rfl) _

theorem carries_switchCase : c.Carries 1 0 1 (switchCase g) := by
  unfold switchCase
  refine peeking (fun t => (carries_caseLabels h).bindIn (fun labels => ?_) (.inl le_rfl))
    (.inr le_rfl)
  refine ifEat rfl (.inr (.inl le_rfl)) ?_ ?_
  · exact h.stmt.stays.bind fun body => (spanFrom _).bind fun _ => .pure
  · refine (expect rfl).stays.anywhere.discard.bind fun _ => ?_
    exact (carries_caseBody h).bindIn (fun body => (spanFrom _).bind fun _ => .pure) (.inl le_rfl)

theorem carries_switch : c.Carries room 0 2 (switch g) := by
  unfold switch
  have hcases : c.Carries 1 0 0 (Parser.collectWhile g.rounds (Parser.before Sign.rbrace)
      (some <$> switchCase g)) := collectBefore le_rfl ((carries_switchCase h).map some).stays _
  refine (expect rfl).bind fun start => (carries_condition h).stays.bind fun e => ?_
  refine (expect rfl).stays.discard.bind fun _ => hcases.bindIn (fun cases => ?_)
    (.inr (.inl ⟨le_rfl, le_rfl⟩))
  exact (expect rfl).discard.bind fun _ => (spanFrom _).bind fun _ => .pure

theorem carries_synchronizedStmt : c.Carries room 0 1 (synchronizedStmt g) := by
  unfold synchronizedStmt
  refine (expect rfl).bind fun start => (carries_condition h).stays.bind fun e => ?_
  exact h.block.stays.bind fun body => (spanFrom _).bind fun _ => .pure

theorem carries_labeled : c.Carries room 0 2 (labeled g) := by
  unfold labeled
  refine identifier.bind fun label => (expect rfl).discard.bind fun _ => ?_
  exact h.stmt.stays.bind fun body => (spanFrom _).bind fun _ => .pure

/-! ### All statements -/

omit h in
/-- A type and variables. -/
def openVars (g : Rules) : Parser (TypeExpr × List VarDeclarator) := do
  let type ← g.type
  let vars ← varDeclarators g
  return (type, vars)

omit h in
/-- The end of a statement. -/
def endStmt (start : Span) (build : Span → Stmt) : Parser Stmt := do
  discard (Parser.expect Sign.semicolon)
  return build (← Parser.spanFrom start)

omit h in
theorem localVar_eq (modifiers : Modifiers) (start : Span) : localVar g modifiers start =
    openVars g >>= fun x => endStmt start (.localVar modifiers x.1 x.2) := by
  simp only [localVar, openVars, endStmt, bind_assoc, pure_bind]

omit h in
theorem exprStmt_eq : exprStmt g =
    Parser.peek >>= fun t => g.expr 0 >>= fun e => endStmt t.span (.expr e) := rfl

omit h in
theorem carries_endStmt (start : Span) (build : Span → Stmt) :
    c.Carries room 0 1 (endStmt start build) := by
  unfold endStmt
  exact (expect rfl).discard.bind fun _ => (spanFrom _).bind fun _ => .pure

omit h in
theorem next_of_endStmt {start : Span} {build : Span → Stmt} {s t : ParserState} {a : Stmt}
    (hrun : endStmt start build s = .ok a t) : s.next.kind = Sign.semicolon := by
  by_contra hnext
  obtain ⟨e, he⟩ := Parser.expect_no hnext
  rw [endStmt, Parser.bind_error (Parser.discard_error he)] at hrun
  cases hrun

omit h in
/-- What ends with a semicolon is told apart by the tokens before it. -/
theorem isVarDecl_having {opened take : Nat} {s u t : ParserState} {a : Stmt} {x z : List Token}
    {start : Span} {build : Span → Stmt} (hx : c.Stretch room opened take s u x z)
    (hleads : s.Leads u) (hfinish : s.finish.kind = .endOfSource)
    (hrun : endStmt start build u = .ok a t) :
    Lookahead.isVarDecl (x ++ c.rest') = Lookahead.isVarDecl s.ahead := by
  obtain ⟨p, us, hp, hsuffix⟩ := hx.suffix_of_next Sign.semicolon hleads
    (hleads.onward.finish ▸ hfinish) rfl (next_of_endStmt hrun) nofun nofun
  have hstop : Lookahead.IsStop p := by
    rw [Lookahead.IsStop, hp]
    rfl
  rw [hx.before, Lookahead.isVarDecl_of_stop hstop hsuffix c.rest]

omit h in
theorem varOrExpr_eq : varOrExpr g = Parser.peek >>= fun t => get >>= fun s =>
    if Lookahead.isVarDecl s.ahead then localVar g .absent t.span else exprStmt g := rfl

theorem carries_varOrExpr : c.Carries room 0 2 (varOrExpr g) := by
  rw [varOrExpr_eq]
  refine peeking (fun t => ?_) (.inr (Nat.le_succ 1))
  refine lookGuarded (fun s => Lookahead.isVarDecl s.ahead)
    (f := fun b => if b then localVar g .absent t.span else exprStmt g) (fun s => ?_) fun b => ?_
  · rw [Parser.bind_ok (Parser.get_eq s)]
  · cases b with
    | true =>
      rw [if_pos rfl, localVar_eq]
      have hvars : c.Carries 1 0 1 (openVars g) :=
        h.type.bind fun type =>
          (carries_varDeclarators h).stays.bindIn (fun _ => .pure) (.inl le_rfl)
      exact hvars.anywhere.guardSeq (fun x => carries_endStmt _ _) (.inr (.inl ⟨le_rfl, le_rfl⟩))
        rfl fun s u v a b x z hsees _ hfinish hleads hrun hx =>
          (isVarDecl_having hx hleads hfinish hrun).trans hsees
    | false =>
      rw [if_neg Bool.false_ne_true, exprStmt_eq, Parser.guarded_peek]
      refine peeking (fun t => ?_) (.inr (Nat.le_succ 1))
      exact (h.inner 0).anywhere.guardSeq (fun e => carries_endStmt _ _)
        (.inr (.inl ⟨le_rfl, le_rfl⟩)) rfl fun s u v a b x z hsees _ hfinish hleads hrun hx =>
          (isVarDecl_having hx hleads hfinish hrun).trans hsees

theorem carries_wordStmt (word : Keyword) :
    c.CarriesFrom (fun s => s.next.kind = .keyword word) room 0 1 (wordStmt g word) := by
  have hjump (build : Option Ident → Span → Stmt) :
      c.CarriesFrom (fun s => s.next.kind = .keyword word) room 0 1 (jump build) :=
    (carries_jump build).weaken (fun s hs => by rw [hs]; rfl) le_rfl le_rfl
  unfold wordStmt
  split
  · exact (carries_ifStmt h).anywhere
  · exact (carries_whileStmt h).anywhere
  · exact (carries_doStmt h).anywhere
  · exact (carries_forStmt h).anywhere
  · exact ((carries_returning h).taking (Nat.le_succ 1)).anywhere
  · exact hjump _
  · exact hjump _
  · exact ((carries_throwing h).taking (Nat.le_succ 1)).anywhere
  · exact (carries_tryStmt h).anywhere
  · exact ((carries_switch h).taking (Nat.le_succ 1)).anywhere
  · exact ifSecond rfl (.inr le_rfl) (carries_synchronizedStmt h).anywhere
      ((carries_varOrExpr h).taking (Nat.le_succ 1)).anywhere
  · exact ((carries_assertion h).taking (Nat.le_succ 1)).anywhere
  all_goals
    first
    | exact (carries_declaration h).anywhere
    | exact ((carries_varOrExpr h).taking (Nat.le_succ 1)).anywhere

theorem carries_stmt : c.Carries room 0 1 (stmt g) := by
  unfold stmt
  refine peek_bind (fun t => ?_) (.inr le_rfl)
  have hadvance (ht : t.kind.isLevel) : c.CarriesFrom (fun s => s.next = t ∧ True) 0 0 1
      Parser.advance := advance fun s hs => by rw [hs.1]; exact ht
  split
  · exact h.block.anywhere.bind fun _ => .pure
  · next ht => exact (hadvance (by rw [ht]; rfl)).bind fun _ => .pure
  · exact (carries_declaration h).anywhere
  · next ht =>
    refine CarriesFrom.taking (show c.CarriesFrom _ room 0 2 _ from ?_) (Nat.le_succ 1)
    refine ifNth (fun s u x y hs _ hx => ?_) (carries_labeled h).anywhere
      (carries_varOrExpr h).anywhere
    have hname : s.next.kind = .identifier := hs.1 ▸ ht
    rw [hx.nth_eq (hx.one_lt (weight_of_identifier hname) (.inr le_rfl))]
  · next word ht =>
    exact (carries_wordStmt h word).weaken (fun s hs => by rw [hs.1, ht]) le_rfl le_rfl
  · exact ((carries_varOrExpr h).taking (Nat.le_succ 1)).anywhere

end Grammar

end JavaGraft

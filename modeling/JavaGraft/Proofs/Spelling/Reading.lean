import JavaGraft.Proofs.Course.Units
import JavaGraft.Proofs.Spelling.Phrases

/-!
# What is read of a type is spelled

Whatever the parser of types reads, it reads pieces that spell its result
(`JavaGraft.readsAs_grammar`): the tokens that are left are those behind the pieces. The one
exception is the word `var` before a name, which no type arguments and no text that is only a type
can contain.

With it goes what is known of the types within the result. Each of them was read in this way from a
state that the source leads to, and its span reaches from the token that was next there to the last
one that was consumed (`JavaGraft.TypeExpr.ReadIn`).
-/

namespace JavaGraft

open Grammar

/-! ### The types within a type -/

mutual

/-- A type and all types within it. -/
def TypeExpr.nodes : TypeExpr → List TypeExpr
  | ⟨base, args, dims, span⟩ => ⟨base, args, dims, span⟩ :: TypeArg.allNodes args

/-- The types within type arguments. -/
def TypeArg.allNodes : List TypeArg → List TypeExpr
  | [] => []
  | .type t :: rest | .upper t _ :: rest | .lower t _ :: rest => t.nodes ++ TypeArg.allNodes rest
  | .wildcard _ :: rest => TypeArg.allNodes rest

end

/-- All types within a phrase. -/
def TypePhrase.nodes : TypePhrase → List TypeExpr
  | type t | plain t => t.nodes
  | segments _ args | angles args | list args => TypeArg.allNodes args
  | arg a => TypeArg.allNodes [a]

variable {A : List Token → List Token → Prop} {source : List Char}

/-- What can stand behind a type: the end, a comma or a closing angle. -/
def TokenKind.endsType (kind : TokenKind) : Bool :=
  kind = .endOfSource || kind = .sign .comma || (Parser.dropAngle? kind).isSome

/-- **A type that was read from a source**, without the annotations before it, from one state to
another one, and where it stands. -/
structure TypeExpr.ReadFrom (A : List Token → List Token → Prop) (source : List Char)
    (t : TypeExpr) (s s' : ParserState) : Prop where
  start : (ParserState.ofSource source 0).Leads s
  leads : s.Leads s'
  spelled : ∃ ps, Spells (.plain t) ps ∧ TypePiece.Take A ps s.ahead s'.ahead
  offset : t.span.offset = s.next.span.offset
  stop : t.span.stop = s'.reached
  behind : s'.next.kind.endsType

/-- **A type that was read from a source.** -/
def TypeExpr.ReadIn (A : List Token → List Token → Prop) (source : List Char) (t : TypeExpr) :
    Prop :=
  ∃ s s', t.ReadFrom A source s s'

/-! ### Single pieces -/

namespace ParserState

variable {s s' : ParserState} {kind : TokenKind}

/-- The next token, if it is of a kind. -/
theorem takes_token (hs : s.Regular source) (h : s.next.kind = kind) (hkind : kind.hasText) :
    (TypePiece.token kind).Takes A s.ahead s.advance.ahead :=
  ⟨s.next, ahead_eq (h ▸ TokenKind.ne_endOfSource hkind) hs.finish, h⟩

/-- The next token, if it is an identifier. -/
theorem takes_name (hs : s.Regular source) (h : s.next.kind = .identifier) :
    (TypePiece.name s.next.text).Takes A s.ahead s.advance.ahead :=
  ⟨s.next, ahead_eq (h ▸ TokenKind.ne_endOfSource rfl) hs.finish, h, rfl⟩

/-- Taking one closing angle leaves what is behind it. -/
theorem closeAngle_closed? (hfinish : s.finish.kind = .endOfSource) :
    (Token.closed? s.ahead = none ∧ ∃ e, Parser.closeAngle s = .error e s) ∨
      ∃ s', Parser.closeAngle s = .ok () s' ∧ Token.closed? s.ahead = some s'.ahead ∧
        s'.finish = s.finish ∧ s'.errors = s.errors := by
  rw [Course.closeAngle_eq]
  cases hahead : s.ahead with
  | nil =>
    rw [next_of_ahead_nil hahead, hfinish]
    exact .inl ⟨rfl, _, rfl⟩
  | cons t ts =>
    rw [next_of_ahead hahead, Token.closed?]
    rcases Parser.dropAngle? t.kind with _ | _ | rest
    · exact .inl ⟨rfl, _, rfl⟩
    · exact .inr ⟨_, rfl, by rw [ahead_advance hahead], by rw [advance, hahead],
        s.errors_advance⟩
    · exact .inr ⟨_, rfl, rfl, rfl, rfl⟩

/-- One closing angle. -/
theorem takes_close (hs : s.Regular source) (h : Parser.closeAngle s = .ok () s') :
    TypePiece.close.Takes A s.ahead s'.ahead := by
  rcases closeAngle_closed? hs.finish with ⟨-, e, hrun⟩ | ⟨s₁, hrun, hclosed, -⟩
  · rw [hrun] at h
    cases h
  · rw [hrun] at h
    cases h
    exact hclosed

/-- Pairs of brackets. -/
theorem take_brackets (s : ParserState) (n : Nat) (consumed ts : List Token) :
    ∃ m, (Parser.dims.count s n consumed ts).1 = min (n + m) DataType.maxDims ∧
      (m = 0 → (Parser.dims.count s n consumed ts).2 = { s with consumed, ahead := ts }) ∧
      TypePiece.Take A (TypePiece.brackets m) ts (Parser.dims.count s n consumed ts).2.ahead := by
  fun_induction Parser.dims.count s n consumed ts with
  | case1 n consumed t u ts h ih =>
    obtain ⟨m, hcount, -, htake⟩ := ih
    refine ⟨m + 1, by rw [hcount, Nat.add_assoc, Nat.add_comm 1],
      fun h => absurd h m.succ_ne_zero, ?_⟩
    exact TypePiece.take_cons ⟨t, rfl, h.1⟩ (TypePiece.take_cons ⟨u, rfl, h.2⟩ htake)
  | case2 n consumed t u ts h => exact ⟨0, rfl, fun _ => rfl, TypePiece.take_nil⟩
  | case3 n consumed ts hshort => exact ⟨0, rfl, fun _ => rfl, TypePiece.take_nil⟩

end ParserState

theorem Parser.dims_eq (s : ParserState) : dims s =
    .ok (dims.count s 0 s.consumed s.ahead).1 (dims.count s 0 s.consumed s.ahead).2 := rfl

/-- Where no bracket comes next, none is taken. -/
theorem Parser.count_of_ne {s : ParserState} (h : s.next.kind ≠ Sign.lbracket) :
    dims.count s 0 s.consumed s.ahead = (0, s) := by
  obtain ⟨consumed, ahead, finish, errors, nextCall⟩ := s
  rcases ahead with _ | ⟨t, _ | ⟨u, us⟩⟩
  · rfl
  · rfl
  · exact if_neg fun hopen => h hopen.1

/-! ### Rules -/

/-- One segment of a named type, and whether another one follows. -/
def Grammar.typeSegment (g : Rules) (found : List Ident) :
    Parser (List Ident ⊕ (List Ident × List TypeArg)) := do
  let name ← Parser.identifier
  let args ← typeArgs? g
  if (← get).next.kind = Sign.dot ∧ ((← get).nth 1).kind = .identifier then
    discard Parser.advance
    return .inl (name :: found)
  else return .inr ((name :: found).reverse, args)

theorem Grammar.namedType_eq (g : Rules) :
    namedType g = Parser.iterate (typeSegment g) g.rounds [] := rfl

/-- A type behind the annotations before it. -/
def Grammar.bracketed (g : Rules) : Parser TypeExpr := do
  let plain ← plainType g
  let n ← Parser.dims
  if n = 0 then return plain
  else return { plain with dims := n, span := ← Parser.spanFrom plain.span }

/-- **What a parser reads is spelled**, wherever the source leads to, if it meets no errors: the
pieces that it takes spell its result, and the types within it were read, provided that a type may
end there. Otherwise a name comes next. -/
def ReadsAs (A : List Token → List Token → Prop) (source : List Char) {α : Type} (p : Parser α)
    (phrase : α → TypePhrase) : Prop :=
  ∀ s a s', (ParserState.ofSource source 0).Leads s → p s = .ok a s' → s'.errors = [] →
    s'.next.kind = .identifier ∨
      ((∃ ps, Spells (phrase a) ps ∧ TypePiece.Take A ps s.ahead s'.ahead) ∧
        (s'.next.kind.endsType → ∀ t ∈ (phrase a).nodes, t.ReadIn A source))

/-- A type without brackets, read from one place to another one. It is spelled with any brackets
behind it, and its span goes from the first token to the last one consumed. -/
structure TypeExpr.ReadPlain (A : List Token → List Token → Prop) (source : List Char)
    (t : TypeExpr) (s s' : ParserState) : Prop where
  spelled : ∃ ps, (∀ n span, Spells (.plain { t with dims := min n DataType.maxDims, span })
    (ps ++ TypePiece.brackets n)) ∧ TypePiece.Take A ps s.ahead s'.ahead
  dims : t.dims = 0
  offset : t.span.offset = s.next.span.offset
  stop : t.span.stop = s'.reached
  past : s'.Past s.next.span .tight
  args : ∀ u ∈ TypeArg.allNodes t.args, u.ReadIn A source

/-- One more item, if there is one. -/
def Parser.oneCollected {α : Type} (item : Parser (Option α)) (found : List α) :
    Parser (List α ⊕ List α) := do
  match ← item with
  | some a => return .inl (a :: found)
  | none => return .inr found.reverse

theorem Grammar.type_eq (g : Rules) : type g = (do
    discard (Parser.iterate (Parser.oneCollected (annot? g)) g.rounds [])
    bracketed g) := rfl

/-- What the rules have to know of each other. -/
structure Rules.ReadTypes (A : List Token → List Token → Prop) (source : List Char) (g : Rules) :
    Prop where
  gathers : g.Gathers source
  annot : ∀ s a s', (ParserState.ofSource source 0).Leads s → g.annot s = .ok a s' →
    s'.errors = [] → A s.ahead s'.ahead
  type : ReadsAs A source g.type .type

namespace Grammar

open TypePiece ParserState

variable {g : Rules} (h : g.ReadTypes A source)

theorem regular_of_leads {s : ParserState} (hs : (ofSource source 0).Leads s) :
    s.Regular source := (regular_ofSource source 0).leads hs

/-- A run leads on. -/
theorem leads_of_stays {α : Type} {p : Parser α} {ext : α → List Extent}
    (hp : Course.Stays source p ext) {s s' : ParserState} {a : α}
    (hs : s.finish.kind = .endOfSource) (hrun : p s = .ok a s') : s.Leads s' := by
  have hleads := (hp .absent .loose s hs).1
  rwa [hrun] at hleads

theorem leads_of_moves {α : Type} {p : Parser α} {ext : α → List Extent}
    (hp : Course.Stays source p ext) {s s' : ParserState} {a : α}
    (hs : (ofSource source 0).Leads s) (hrun : p s = .ok a s') : s.Leads s' :=
  leads_of_stays hp (regular_of_leads hs).finish hrun

/-- Where an angle is closed, one comes next, and no error is recorded. -/
theorem of_closeAngle_ok {s s' : ParserState} (h : Parser.closeAngle s = .ok () s') :
    (Parser.dropAngle? s.next.kind).isSome ∧ s.errors = s'.errors := by
  rw [Course.closeAngle_eq] at h
  split at h
  · cases h
  · next hangle =>
    cases h
    exact ⟨by rw [hangle]; rfl, s.errors_advance.symm⟩
  · next hangle =>
    cases h
    exact ⟨by rw [hangle]; rfl, rfl⟩

include h

/-! ### Type arguments -/

/-- A bound of a wildcard, behind the question mark and a word. -/
theorem reads_bound {word : Keyword} {arg : TypeExpr → Span → TypeArg} {s s' : ParserState}
    {a : TypeArg} (harg : ∀ t ps span, Spells (.type t) ps →
      Spells (.arg (arg t span)) (.token Sign.question :: .token word :: ps))
    (hnodes : ∀ t span, TypeArg.allNodes [arg t span] = t.nodes) (start : Span)
    (hs : (ofSource source 0).Leads s) (hmark : s.next.kind = Sign.question)
    (hword : s.advance.next.kind = word)
    (hrun : (do
      let bound ← g.type
      return arg bound (← Parser.spanFrom start) : Parser TypeArg) s.advance.advance = .ok a s')
    (herrors : s'.errors = []) :
    s'.next.kind = .identifier ∨ ((∃ ps, Spells (.arg a) ps ∧ Take A ps s.ahead s'.ahead) ∧
      (s'.next.kind.endsType → ∀ t ∈ (TypePhrase.arg a).nodes, t.ReadIn A source)) := by
  obtain ⟨bound, s₂, hbound, hrun⟩ := Parser.exists_of_bind_ok hrun
  cases hrun
  have hs₁ := hs.trans (.advance s)
  refine (h.type _ _ _ (hs₁.trans (.advance _)) hbound herrors).imp_right ?_
  rintro ⟨⟨ps, hps, htake⟩, hread⟩
  refine ⟨⟨_, harg _ _ _ hps, take_cons (takes_token (regular_of_leads hs) hmark rfl)
    (take_cons (takes_token (regular_of_leads hs₁) hword rfl) htake)⟩, fun hend t ht => ?_⟩
  rw [TypePhrase.nodes, hnodes] at ht
  exact hread hend t ht

theorem reads_typeArg : ReadsAs A source (typeArg g) .arg := by
  intro s a s' hs hrun herrors
  unfold typeArg at hrun
  by_cases hmark : s.next.kind = Sign.question
  · rw [Parser.bind_ok (Parser.eat?_ok hmark)] at hrun
    dsimp only at hrun
    by_cases hupper : s.advance.next.kind = Keyword.kwExtends
    · rw [Parser.bind_ok (Parser.eat_ok hupper), if_pos rfl] at hrun
      exact reads_bound h (fun _ _ span hps => .upper hps span)
        (fun _ _ => by simp [TypeArg.allNodes]) _ hs hmark hupper hrun herrors
    · rw [Parser.bind_ok (Parser.eat_no hupper), if_neg Bool.false_ne_true] at hrun
      by_cases hlower : s.advance.next.kind = Keyword.kwSuper
      · rw [Parser.bind_ok (Parser.eat_ok hlower), if_pos rfl] at hrun
        exact reads_bound h (fun _ _ span hps => .lower hps span)
          (fun _ _ => by simp [TypeArg.allNodes]) _ hs hmark hlower hrun herrors
      · rw [Parser.bind_ok (Parser.eat_no hlower), if_neg Bool.false_ne_true] at hrun
        cases hrun
        refine .inr ⟨⟨_, .wildcard _, take_cons (takes_token (regular_of_leads hs) hmark rfl)
          take_nil⟩, fun _ t ht => ?_⟩
        simp [TypePhrase.nodes, TypeArg.allNodes] at ht
  · rw [Parser.bind_ok (Parser.eat?_no hmark)] at hrun
    obtain ⟨t, s₁, htype, hrun⟩ := Parser.exists_of_bind_ok hrun
    cases hrun
    refine (h.type _ _ _ hs htype herrors).imp_right ?_
    rintro ⟨⟨ps, hps, htake⟩, hread⟩
    exact ⟨⟨ps, .type hps, htake⟩, by simpa [TypePhrase.nodes, TypeArg.allNodes] using hread⟩

omit h in
theorem allNodes_cons (a : TypeArg) (as : List TypeArg) :
    TypeArg.allNodes (a :: as) = TypeArg.allNodes [a] ++ TypeArg.allNodes as := by
  cases a <;> simp [TypeArg.allNodes]

/-- Type arguments with commas between them; `found` are those before. -/
theorem reads_argList {rounds : Nat} {found as : List TypeArg} {s s' : ParserState}
    (hs : (ofSource source 0).Leads s)
    (hrun : Parser.iterate (Parser.oneSeparated Sign.comma (typeArg g)) rounds found s
      = .ok as s') :
    s.Leads s' ∧ (s'.errors = [] → s'.next.kind = .identifier ∨ ∃ bs, as = found.reverse ++ bs ∧
      (∃ ps, Spells (.list bs) ps ∧ Take A ps s.ahead s'.ahead) ∧
        (s'.next.kind.endsType → ∀ t ∈ TypeArg.allNodes bs, t.ReadIn A source)) := by
  induction rounds generalizing found s with
  | zero => cases hrun
  | succ rounds ih =>
    rw [Parser.iterate] at hrun
    obtain ⟨r, s₁, hstep, hrun⟩ := Parser.exists_of_bind_ok hrun
    rw [Parser.oneSeparated] at hstep
    obtain ⟨a, s₂, harg, hstep⟩ := Parser.exists_of_bind_ok hstep
    have hleads₂ := leads_of_moves (gathers_typeArg h.gathers).stays hs harg
    have hs₂ := hs.trans hleads₂
    by_cases hcomma : s₂.next.kind = Sign.comma
    · -- behind a comma it goes on
      rw [Parser.bind_ok (Parser.eat_ok hcomma), if_pos rfl] at hstep
      cases hstep
      obtain ⟨hleads, hlater⟩ := ih (hs₂.trans (.advance s₂)) hrun
      have hleads' := (Leads.advance s₂).trans hleads
      refine ⟨hleads₂.trans hleads', fun herrors => ?_⟩
      obtain ⟨⟨ps, hps, htake⟩, hread⟩ :=
        (reads_typeArg h _ _ _ hs harg (hleads'.errors_nil herrors)).resolve_left
          fun hname => by rw [hcomma] at hname; cases hname
      refine (hlater herrors).imp_right ?_
      rintro ⟨bs, rfl, ⟨qs, hqs, htake'⟩, hread'⟩
      refine ⟨a :: bs, by simp, ⟨_, .more hps hqs, take_append htake (take_cons
        (takes_token (regular_of_leads hs₂) hcomma rfl) htake')⟩, fun hend t ht => ?_⟩
      rw [allNodes_cons] at ht
      exact (List.mem_append.mp ht).elim (hread (by rw [hcomma]; rfl) t) (hread' hend t)
    · rw [Parser.bind_ok (Parser.eat_no hcomma), if_neg Bool.false_ne_true] at hstep
      cases hstep
      cases hrun
      refine ⟨hleads₂, fun herrors => (reads_typeArg h _ _ _ hs harg herrors).imp_right ?_⟩
      rintro ⟨⟨ps, hps, htake⟩, hread⟩
      exact ⟨[a], by simp, ⟨ps, .single hps, htake⟩, hread⟩

theorem reads_typeArgs? {s s' : ParserState} {as : List TypeArg} (hs : (ofSource source 0).Leads s)
    (hrun : typeArgs? g s = .ok as s') (herrors : s'.errors = []) :
    (∃ ps, Spells (.angles as) ps ∧ Take A ps s.ahead s'.ahead) ∧
      ∀ t ∈ TypeArg.allNodes as, t.ReadIn A source := by
  unfold typeArgs? at hrun
  rw [Parser.bind_ok (Parser.check_eq _ s)] at hrun
  by_cases hless : s.next.kind = Sign.less
  · rw [decide_eq_true hless, if_pos rfl, typeArgs,
      Parser.bind_ok (Parser.discard_ok (Parser.expect_ok hless)),
      Parser.bind_ok (Parser.check_eq _ _)] at hrun
    have hs₁ := hs.trans (.advance s)
    have htoken := takes_token (A := A) (regular_of_leads hs) hless rfl
    by_cases hgreater : s.advance.next.kind = Sign.greater
    · rw [decide_eq_true hgreater, if_pos rfl, pure_bind] at hrun
      obtain ⟨_, s₂, hclose, hrun⟩ := Parser.exists_of_bind_ok hrun
      cases hrun
      rw [Course.closeAngle_eq, hgreater] at hclose
      cases hclose
      exact ⟨⟨_, .diamond, take_cons htoken
        (take_cons (takes_token (regular_of_leads hs₁) hgreater rfl) take_nil)⟩,
        fun t ht => absurd ht List.not_mem_nil⟩
    · rw [decide_eq_false hgreater, if_neg Bool.false_ne_true] at hrun
      obtain ⟨args, s₂, hargs, hrun⟩ := Parser.exists_of_bind_ok hrun
      obtain ⟨_, s₃, hclose, hrun⟩ := Parser.exists_of_bind_ok hrun
      cases hrun
      obtain ⟨hleads₂, hlist⟩ := reads_argList h hs₁ hargs
      have hs₂ := hs₁.trans hleads₂
      obtain ⟨hangle, herrors₂⟩ := of_closeAngle_ok hclose
      -- a name is no closing angle
      rcases hlist (herrors₂.trans herrors) with hname | ⟨bs, rfl, ⟨ps, hps, htake⟩, hread⟩
      · rw [hname] at hangle
        cases hangle
      · exact ⟨⟨_, .angles hps, take_cons htoken (take_append htake
          (take_cons (takes_close (regular_of_leads hs₂) hclose) take_nil))⟩,
          hread (by rw [TokenKind.endsType, hangle, Bool.or_true])⟩
  · rw [decide_eq_false hless, if_neg Bool.false_ne_true] at hrun
    cases hrun
    exact ⟨⟨[], .none, take_nil⟩, fun t ht => absurd ht List.not_mem_nil⟩

/-! ### Types -/

/-- The segments of a name; `found` are those before. -/
theorem reads_segments {rounds : Nat} {found : List Ident} {x : List Ident × List TypeArg}
    {s s' : ParserState} (hs : (ofSource source 0).Leads s)
    (hrun : Parser.iterate (typeSegment g) rounds found s = .ok x s') :
    s.next.kind = .identifier ∧ s.advance.Leads s' ∧ (s'.errors = [] →
    (∃ ids ps, x.1 = found.reverse ++ ids ∧ Spells (.segments (ids.map Ident.name) x.2) ps ∧
      Take A ps s.ahead s'.ahead) ∧ ∀ t ∈ TypeArg.allNodes x.2, t.ReadIn A source) := by
  induction rounds generalizing found s with
  | zero => cases hrun
  | succ rounds ih =>
    rw [Parser.iterate] at hrun
    obtain ⟨r, s₁, hstep, hrun⟩ := Parser.exists_of_bind_ok hrun
    obtain ⟨name, s₀, hname, -⟩ := Parser.exists_of_bind_ok hstep
    have hnext := (Parser.of_identifier_ok hname).1
    rw [typeSegment, Parser.bind_ok (Parser.identifier_ok hnext)] at hstep
    obtain ⟨args, s₂, hargs, hstep⟩ := Parser.exists_of_bind_ok hstep
    rw [Parser.bind_ok (Parser.get_eq s₂), Parser.bind_ok (Parser.get_eq s₂)] at hstep
    have hs₁ := hs.trans (.advance s)
    have hleads₂ := leads_of_moves (gathers_typeArgs? h.gathers) hs₁ hargs
    have hs₂ := hs₁.trans hleads₂
    have htoken := takes_name (A := A) (regular_of_leads hs) hnext
    by_cases hdot : s₂.next.kind = Sign.dot ∧ (s₂.nth 1).kind = .identifier
    · rw [if_pos hdot, Parser.bind_ok (Parser.discard_ok (Parser.advance_eq s₂))] at hstep
      cases hstep
      obtain ⟨-, hleads, hlater⟩ := ih (hs₂.trans (.advance s₂)) hrun
      have hleads' := (Leads.advance s₂).trans ((Leads.advance _).trans hleads)
      refine ⟨hnext, hleads₂.trans hleads', fun herrors => ?_⟩
      obtain ⟨⟨ps, hps, htake⟩, -⟩ := reads_typeArgs? h hs₁ hargs (hleads'.errors_nil herrors)
      obtain ⟨⟨ids, qs, hx, hqs, htake'⟩, hread'⟩ := hlater herrors
      refine ⟨⟨⟨s.next.text, s.next.span⟩ :: ids, _, by rw [hx]; simp, .segment hps hqs, ?_⟩,
        hread'⟩
      exact take_cons htoken (take_append htake (take_cons
        (takes_token (regular_of_leads hs₂) hdot.1 rfl) htake'))
    · rw [if_neg hdot] at hstep
      cases hstep
      cases hrun
      refine ⟨hnext, hleads₂, fun herrors => ?_⟩
      obtain ⟨⟨ps, hps, htake⟩, hread⟩ := reads_typeArgs? h hs₁ hargs herrors
      exact ⟨⟨[⟨s.next.text, s.next.span⟩], _, by simp, .last hps, take_cons htoken htake⟩, hread⟩

omit h in
/-- The first token of a type is consumed. -/
theorem past_advance {s : ParserState} (hs : (ofSource source 0).Leads s)
    (htext : s.next.kind.hasText) : s.advance.Past s.next.span .tight :=
  ⟨s.next, s.consumed, consumed_advance (TokenKind.ne_endOfSource htext)
    (regular_of_leads hs).finish, le_rfl, le_rfl⟩

omit h in
/-- A span from the first token of a type on, up to the last one consumed. -/
theorem merge_previous {s s' : ParserState} {span : Span} (hpast : s'.Past s.next.span .tight)
    (hoffset : span.offset = s.next.span.offset) (hstop : span.stop ≤ s'.reached) :
    (span.merge s'.previous.span).offset = s.next.span.offset ∧
      (span.merge s'.previous.span).stop = s'.reached := by
  obtain ⟨u, us, hconsumed, hu, -⟩ := hpast
  rw [reached_of_consumed hconsumed] at hstop ⊢
  rw [show s'.previous = u by rw [previous, hconsumed]; rfl, Span.offset_merge, Span.stop_merge]
  omega

omit h in
theorem readPlain_primitive {s : ParserState} {p : Primitive} (hs : (ofSource source 0).Leads s)
    (hp : primitiveOf? s.next.kind = some p) :
    TypeExpr.ReadPlain A source ⟨.primitive p, [], 0, s.next.span⟩ s s.advance := by
  have htext : s.next.kind.hasText := by
    cases hkind : s.next.kind <;> first | rfl | rw [hkind] at hp; cases hp
  have hregular := regular_of_leads hs
  exact {
    spelled := ⟨[_], fun n span => .primitive hp n span,
      take_cons (takes_token hregular rfl htext) take_nil⟩
    dims := rfl
    offset := rfl
    stop := by
      rw [reached_of_consumed (consumed_advance (TokenKind.ne_endOfSource htext) hregular.finish)]
    past := past_advance hs htext
    args := List.forall_mem_nil _ }

theorem readPlain_named {s s' : ParserState} {names : List Ident} {args : List TypeArg}
    (hs : (ofSource source 0).Leads s) (hname : s.next.kind = .identifier)
    (hrun : namedType g s = .ok (names, args) s') (herrors : s'.errors = []) :
    TypeExpr.ReadPlain A source ⟨.named ⟨names, s.next.span.merge s'.previous.span⟩, args, 0,
      s.next.span.merge s'.previous.span⟩ s s' := by
  obtain ⟨-, hleads, hsegments⟩ := reads_segments h hs hrun
  obtain ⟨⟨ids, ps, hx, hps, htake⟩, hread⟩ := hsegments herrors
  obtain rfl : names = ids := hx
  have hpast : s'.Past s.next.span .tight :=
    hleads.past (regular_of_leads (hs.trans (.advance s))) (past_advance hs (by rw [hname]; rfl))
  have hstop : s.next.span.stop ≤ s'.reached := hpast.stop_le
  have hspan := merge_previous hpast rfl hstop
  exact {
    spelled := ⟨ps, fun n span =>
      .named (show Spells (.segments (Path.names ⟨names, _⟩) args) ps from hps) n span, htake⟩
    dims := rfl
    offset := hspan.1
    stop := hspan.2
    past := hpast
    args := hread }

/-- **A type without brackets**: a primitive one, or a named one, or else the word `var` before a
name. -/
theorem reads_plainType {s s' : ParserState} {t : TypeExpr} (hs : (ofSource source 0).Leads s)
    (hrun : plainType g s = .ok t s') (herrors : s'.errors = []) :
    s'.next.kind = .identifier ∨ t.ReadPlain A source s s' := by
  rw [plainType, Parser.bind_ok (Parser.peek_eq s)] at hrun
  cases hp : primitiveOf? s.next.kind with
  | some p =>
    rw [hp] at hrun
    dsimp only at hrun
    rw [Parser.bind_ok (Parser.discard_ok (Parser.advance_eq s))] at hrun
    cases hrun
    exact .inr (readPlain_primitive hs hp)
  | none =>
    rw [hp] at hrun
    dsimp only at hrun
    by_cases hname : s.next.kind = .identifier
    · rw [if_neg (not_not.mpr hname), Parser.bind_ok (Parser.get_eq s)] at hrun
      by_cases hvar : s.next.text = "var" ∧ (s.nth 1).kind = .identifier
      · rw [if_pos hvar, Parser.bind_ok (Parser.discard_ok (Parser.advance_eq s))] at hrun
        cases hrun
        exact .inl (by rw [next_advance]; exact hvar.2)
      · rw [if_neg hvar] at hrun
        obtain ⟨⟨names, args⟩, s₁, hnamed, hrun⟩ := Parser.exists_of_bind_ok hrun
        cases hrun
        exact .inr (readPlain_named h hs hname hnamed herrors)
    · rw [if_pos hname] at hrun
      cases hrun

/-- Annotations before a type. -/
theorem takes_annots {rounds : Nat} {found as : List Annot} {s s' : ParserState}
    (hs : (ofSource source 0).Leads s)
    (hrun : Parser.iterate (Parser.oneCollected (annot? g)) rounds found s = .ok as s') :
    s.Leads s' ∧ (s'.errors = [] → ∃ n, Take A (.replicate n .annot) s.ahead s'.ahead) := by
  induction rounds generalizing found s with
  | zero => cases hrun
  | succ rounds ih =>
    rw [Parser.iterate] at hrun
    obtain ⟨r, s₁, hstep, hrun⟩ := Parser.exists_of_bind_ok hrun
    obtain ⟨a, s₂, hannot, hstep⟩ := Parser.exists_of_bind_ok hstep
    rw [annot?, Parser.bind_ok (Parser.get_eq s), Parser.bind_ok (Parser.get_eq s)] at hannot
    split at hannot
    · obtain ⟨b, s₃, hb, hannot⟩ := Parser.exists_of_bind_ok hannot
      cases hannot
      cases hstep
      have hleads := leads_of_moves h.gathers.annot.stays hs hb
      obtain ⟨hleads', hlater⟩ := ih (hs.trans hleads) hrun
      refine ⟨hleads.trans hleads', fun herrors => ?_⟩
      obtain ⟨n, htake⟩ := hlater herrors
      exact ⟨n + 1, take_cons (h.annot _ _ _ hs hb (hleads'.errors_nil herrors)) htake⟩
    · cases hannot
      cases hstep
      cases hrun
      exact ⟨.refl _, fun _ => ⟨0, take_nil⟩⟩

omit h in
theorem spells_annotated {t : TypeExpr} {ps : List TypePiece} (h : Spells (.plain t) ps) (n : Nat) :
    Spells (.type t) (.replicate n .annot ++ ps) := by
  induction n with
  | zero => exact .bare h
  | succ n ih => exact .annotated ih

omit h in
/-- The brackets of a type behind it, and the span that reaches over them. -/
theorem reads_brackets {plain t : TypeExpr} {s s₂ s' : ParserState}
    (hs₂ : (ofSource source 0).Leads s₂) (h : plain.ReadPlain A source s s₂)
    (hrun : (do
      let n ← Parser.dims
      if n = 0 then return plain
      else return { plain with dims := n, span := ← Parser.spanFrom plain.span } : Parser TypeExpr)
        s₂ = .ok t s') :
    (∃ ps, Spells (.plain t) ps ∧ Take A ps s.ahead s'.ahead) ∧
      t.span.offset = s.next.span.offset ∧ t.span.stop = s'.reached ∧ t.args = plain.args := by
  obtain ⟨ps, hps, htake⟩ := h.spelled
  obtain ⟨m, hcount, hstay, htake'⟩ := take_brackets (A := A) s₂ 0 s₂.consumed s₂.ahead
  have hleads : s₂.Leads _ := (Course.leads_dims s₂ 0 s₂.consumed s₂.ahead).1
  rw [Parser.bind_ok (Parser.dims_eq s₂)] at hrun
  generalize Parser.dims.count s₂ 0 s₂.consumed s₂.ahead = r at *
  obtain ⟨n, s₃⟩ := r
  rw [Nat.zero_add] at hcount
  obtain rfl : n = min m DataType.maxDims := hcount
  dsimp only at hrun hleads htake' hstay
  split at hrun
  · next hn =>
    cases hrun
    have hm : m = 0 := by
      have hmax : DataType.maxDims = 255 := rfl
      omega
    obtain rfl : s' = s₂ := hstay hm
    have hplain : plain = { plain with dims := min m DataType.maxDims, span := plain.span } := by
      rw [hn, ← h.dims]
      cases plain with
      | mk base args dims span => rfl
    exact ⟨⟨_, hplain ▸ hps m plain.span, take_append htake htake'⟩, h.offset, h.stop, rfl⟩
  · cases hrun
    have hreached := (hleads.reached_le (regular_of_leads hs₂)).1
    have hspan := merge_previous (hleads.past (regular_of_leads hs₂) h.past) h.offset
      (h.stop.trans_le hreached)
    exact ⟨⟨_, hps m _, take_append htake htake'⟩, hspan.1, hspan.2, rfl⟩

/-- **A type behind the annotations before it**, with its brackets. Its span reaches from the first
token to the last one consumed. -/
theorem reads_bracketed {s s' : ParserState} {t : TypeExpr} (hs : (ofSource source 0).Leads s)
    (hrun : bracketed g s = .ok t s') :
    s.Leads s' ∧ (s'.errors = [] → s'.next.kind = .identifier ∨
    ((∃ ps, Spells (.plain t) ps ∧ Take A ps s.ahead s'.ahead) ∧
      t.span.offset = s.next.span.offset ∧ t.span.stop = s'.reached ∧
      ∀ u ∈ TypeArg.allNodes t.args, u.ReadIn A source)) := by
  obtain ⟨plain, s₂, hplain, hrun⟩ := Parser.exists_of_bind_ok hrun
  have hleads₂ := leads_of_moves (gathers_plainType h.gathers).stays hs hplain
  have hs₂ := hs.trans hleads₂
  have hleads₃ : s₂.Leads s' ∧ (s₂.next.kind = .identifier → s' = s₂) := by
    rw [Parser.bind_ok (Parser.dims_eq s₂)] at hrun
    have hs' : s' = (Parser.dims.count s₂ 0 s₂.consumed s₂.ahead).2 := by
      split at hrun <;> cases hrun <;> rfl
    refine ⟨hs' ▸ (Course.leads_dims s₂ 0 s₂.consumed s₂.ahead).1, fun hname => ?_⟩
    -- no brackets follow, since a name does
    rw [hs', Parser.count_of_ne (by rw [hname]; exact nofun)]
  refine ⟨hleads₂.trans hleads₃.1, fun herrors => ?_⟩
  rcases reads_plainType h hs hplain (hleads₃.1.errors_nil herrors) with hname | hread
  · exact .inl (by rwa [hleads₃.2 hname])
  · obtain ⟨hspelled, hoffset, hstop, hargs⟩ := reads_brackets hs₂ hread hrun
    exact .inr ⟨hspelled, hoffset, hstop, hargs ▸ hread.args⟩

/-- **A type is spelled** by what is read of it. -/
theorem reads_type : ReadsAs A source (type g) .type := by
  intro s t s' hs hrun herrors
  rw [type_eq] at hrun
  obtain ⟨_, s₁, hannots, hrun⟩ := Parser.exists_of_bind_ok hrun
  obtain ⟨as, hannots⟩ := Parser.exists_of_discard_ok hannots
  obtain ⟨hleads₁, htakes⟩ := takes_annots h hs hannots
  have hs₁ := hs.trans hleads₁
  obtain ⟨hleads₂, hplain⟩ := reads_bracketed h hs₁ hrun
  obtain ⟨k, htake₁⟩ := htakes (hleads₂.errors_nil herrors)
  refine (hplain herrors).imp_right ?_
  rintro ⟨⟨ps, hps, htake⟩, hoffset, hstop, hread⟩
  refine ⟨⟨_, spells_annotated hps k, take_append htake₁ htake⟩, fun hend u hu => ?_⟩
  obtain ⟨base, args, dims, span⟩ := t
  rw [TypePhrase.nodes, TypeExpr.nodes, List.mem_cons] at hu
  rcases hu with rfl | hu
  · exact ⟨s₁, s', hs₁, hleads₂, ⟨ps, hps, htake⟩, hoffset, hstop, hend⟩
  · exact hread u hu

end Grammar

theorem Rules.ReadTypes.over {g : Rules} (h : g.ReadTypes A source) (rounds : Nat)
    (hannot : ∀ s a s', (ParserState.ofSource source 0).Leads s →
      (g.over rounds).annot s = .ok a s' → s'.errors = [] → A s.ahead s'.ahead) :
    (g.over rounds).ReadTypes A source where
  gathers := h.gathers.over rounds
  annot := hannot
  type := Grammar.reads_type h

/-- **What is read of a type is spelled**, at every depth. -/
theorem readTypes_grammar (hannot : ∀ n s a s', (ParserState.ofSource source 0).Leads s →
    (grammar n).annot s = .ok a s' → s'.errors = [] → A s.ahead s'.ahead) (n : Nat) :
    (grammar n).ReadTypes A source := by
  induction n with
  | zero => exact ⟨gathers_grammar source 0, hannot 0, fun s a s' _ hrun => nomatch hrun⟩
  | succ n ih => exact ih.over n (hannot (n + 1))

end JavaGraft

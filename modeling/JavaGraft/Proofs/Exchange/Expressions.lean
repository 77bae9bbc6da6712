import JavaGraft.Proofs.Course.Termination
import JavaGraft.Proofs.Exchange.Types

/-!
# Exchanging what follows expressions
-/

namespace JavaGraft

open JavaGraft.Grammar

namespace Exchange

open Lookahead

variable {c : Exchange} {room opened take : Nat} {s t : ParserState} {x y : List Token}

/-! ### Looking behind parentheses -/

/-- Parentheses that are passed are closed before what is exchanged. -/
theorem Stretch.closes (h : c.Stretch room opened take s t x y)
    (hfinish : s.finish.kind = .endOfSource) (hopen : s.next.kind = Sign.lparen)
    (htake : 1 ≤ take) : ∃ x' vs, x = s.next :: x' ∧ ClosesTo 1 x' vs ∧ y.length ≤ vs.length := by
  obtain ⟨u, x', rfl⟩ := List.exists_cons_of_ne_nil (h.ne_nil_of_next hfinish rfl hopen)
  have hnext := ParserState.next_of_ahead h.before
  have hne : y ≠ u :: x' := by
    rintro rfl
    have := h.weight
    omega
  obtain ⟨vs, hvs, hcloses⟩ :=
    (h.passes.of_opening (hnext ▸ hopen) hne).closes rfl le_rfl
  exact ⟨x', vs, by rw [hnext], hcloses, hvs.length_le⟩

/-- What is seen first is the same if it is not exchanged or if it is seen in neither. -/
theorem head_having (test : TokenKind → Bool) (h : x ≠ [] ∨
      test (Token.firstKind c.rest) = false ∧ test (Token.firstKind c.rest') = false) :
    (x ++ c.rest').head?.any (fun t => test t.kind)
      = (x ++ c.rest).head?.any fun t => test t.kind := by
  cases x with
  | cons u x => rfl
  | nil =>
    obtain ⟨hrest, hrest'⟩ := h.resolve_left (absurd rfl)
    have hnone {ts : List Token} (hts : test (Token.firstKind ts) = false) :
        (ts.head?.any fun t => test t.kind) = false := by
      cases ts with
      | nil => rfl
      | cons t ts => exact hts
    rw [List.nil_append, List.nil_append, hnone hrest, hnone hrest']

theorem isLambda_having {u : Token} {us : List Token} (hopen : u.kind = Sign.lparen)
    (h : ClosesTo 1 x us) (harrow : us ≠ [] ∨ c.hasArrow = false) :
    isLambda (u :: x ++ c.rest') = isLambda (u :: x ++ c.rest) := by
  have hlook (rest : List Token) :
      isLambda (u :: x ++ rest) = (afterParens 1 (x ++ rest)).any (startsWith Sign.arrow) := by
    rw [isLambda, List.cons_append, afterParens, if_pos hopen]
  rw [hlook, hlook]
  rcases afterParens_of_closes h with hnone | hsome
  · rw [hnone, hnone]
  · rw [hsome, hsome, Option.any_some, Option.any_some]
    refine head_having (fun kind => kind = Sign.arrow) (harrow.imp_right fun hnot => ?_)
    exact Bool.or_eq_false_iff.mp hnot

theorem startsCastOperand_bound {kind : TokenKind} (h : kind.isBound) :
    startsCastOperand kind = false := by
  rcases Bool.or_eq_true_iff.mp h with hend | hangle
  · unfold TokenKind.isEnd at hend
    split at hend
    case h_6 => cases hend
    all_goals rfl
  · obtain ⟨left, hleft⟩ := Option.isSome_iff_exists.mp hangle
    rcases Parser.kind_of_dropAngle? hleft with ⟨rfl, -⟩ | ⟨rfl, -⟩ | ⟨rfl, -⟩ <;> rfl

theorem isCast_having {u : Token} {us : List Token} (h : ClosesTo 1 x us) :
    isCast (u :: x ++ c.rest') = isCast (u :: x ++ c.rest) := by
  have hne : x ≠ [] := by
    rintro rfl
    exact ClosesTo.not_nil h
  have hfirst := head_having (c := c) TokenKind.isPrimitive (.inl hne)
  have hbehind (ts : List Token) := head_having (c := c) (x := ts) startsCastOperand
    (.inr ⟨startsCastOperand_bound c.bound, startsCastOperand_bound c.bound'⟩)
  simp only [isCast, List.cons_append, List.drop_one, List.tail_cons]
  rcases skipType_of_closes h with hnone | ⟨p, vs, -, hvs, hsome⟩
  · rw [hnone, hnone]
  · rw [hsome, hsome, hfirst]
    rcases exists_of_suffix hvs with rfl | ⟨q, ws, rfl, -⟩
    · simp only [List.cons_append, hbehind]
    · simp only [List.cons_append, hbehind]

/-- What may stand in parentheses. -/
def inParens (s : ParserState) : Bool × Bool := (isLambda s.ahead, isCast s.ahead)

/-- What stands in parentheses is seen again if something stands behind them, or if no arrow is
exchanged. -/
theorem Stretch.inParens_having (h : c.Stretch room opened take s t x y)
    (hfinish : s.finish.kind = .endOfSource) (hopen : s.next.kind = Sign.lparen)
    (htake : 1 ≤ take) (hbehind : y ≠ [] ∨ c.hasArrow = false) :
    inParens (s.having (x ++ c.rest')) = inParens s := by
  obtain ⟨x', us, rfl, hcloses, hlength⟩ := h.closes hfinish hopen htake
  have hus : us ≠ [] ∨ c.hasArrow = false := by
    refine hbehind.imp_left fun hy => ?_
    rintro rfl
    exact hy (List.length_eq_zero_iff.mp (Nat.le_zero.mp hlength))
  rw [inParens, inParens, ParserState.ahead_having, h.before, isLambda_having hopen hcloses hus,
    isCast_having hcloses]

/-- An expression that is not closed stands before something that is not exchanged, or before no
arrow. -/
theorem Stretch.behind_of_allows {e : Expr} (h : c.Stretch room opened take s t x y)
    (hallowed : c.allows room e) (hopen : e.isClosed = false) : y ≠ [] ∨ c.hasArrow = false := by
  simp only [allows, hopen, Bool.or_false, Bool.or_eq_true, decide_eq_true_eq,
    Bool.not_eq_true'] at hallowed
  exact hallowed.imp_left h.room.ne_nil

end Exchange

namespace Grammar

open Exchange Exchange.CarriesFrom

variable {c : Exchange} {g : Rules} {room : Nat} (h : g.Carry c)

include h

/-! ### Parts of operands -/

theorem carries_arguments : c.Carries room 0 2 (arguments g) := by
  unfold arguments
  have hargs : c.Carries 1 0 0 (Parser.sepBy g.rounds Sign.comma (g.expr 0)) :=
    sepBy rfl (.inr le_rfl) (h.inner 0).stays le_rfl _
  refine opening (joinNext (.inl rfl) .pure hargs.anywhere (fun args => ?_) (.inr (.inr le_rfl)))
  exact closing .pure

theorem carries_callOf (callee : Expr) (start : Span) :
    c.Carries room 0 2 (callOf g callee start) := by
  unfold callOf
  refine (carries_arguments h).bind fun args => freshCall.bind fun id => ?_
  exact (spanFrom _).bind fun _ => .pure

theorem carries_callIfArgs (callee : Expr) (start : Span) :
    c.Carries room 0 0 (callIfArgs g callee start) :=
  ifNext (.inl rfl) (carries_callOf h callee start).stays.anywhere .pure

theorem carries_braces : c.Carries room 0 2 (braces g) := by
  unfold braces
  refine (expect rfl).bind fun first => ?_
  refine (sepUntil rfl (h.inner 0).stays le_rfl le_rfl _).bindIn (fun elements => ?_)
    (.inr (.inl ⟨le_rfl, le_rfl⟩))
  exact (expect rfl).bind fun last => .pure

theorem carries_arrayInit : c.Carries room 0 2 (arrayInit g) :=
  (carries_braces h).bind fun _ => .pure

/-! ### What follows an operand directly -/

theorem carries_memberAccess (target : Expr) : c.Carries room 0 1 (memberAccess g target) := by
  unfold memberAccess
  refine (expect rfl).bind fun dot => ifEat rfl (.inl rfl) ?_ (ifEat rfl (.inl rfl) ?_ ?_)
  · cases chainType? target 0 with
    | none => exact .reject
    | some t => exact (spanFrom _).bind fun _ => .pure
  · exact (spanFrom _).bind fun _ => .pure
  · refine (carries_typeArgs? h).anywhere.discard.bind fun _ => identifier.stays.bind fun name => ?_
    exact carries_callIfArgs h _ _

theorem carries_indexing (target : Expr) : c.Carries room 0 2 (indexing g target) := by
  unfold indexing
  refine ifSecond rfl (.inr (Nat.le_succ 1)) ?_ ?_
  · refine dims.anywhere.bind fun n => (expect rfl).discard.bind fun _ => (expect rfl).bind
      fun word => ?_
    cases chainType? target n with
    | none => exact .reject
    | some t => exact (spanFrom _).bind fun _ => .pure
  · refine (expect rfl).anywhere.discard.bind fun _ => ?_
    refine (h.inner 0).stays.bindIn (fun index => ?_) (.inr (.inl ⟨le_rfl, le_rfl⟩))
    exact (expect rfl).bind fun close => .pure

omit h in
theorem carries_methodRef (target : Expr) : c.Carries room 0 2 (methodRef target) := by
  unfold methodRef
  refine (expect rfl).discard.bind fun _ => peek_bind (fun t => ite (fun ht => ?_) fun _ => ?_)
    (.inr le_rfl)
  · have hadvance : c.CarriesFrom (fun s => s.next = t ∧ True) 0 0 1 Parser.advance :=
      advance fun s hs => by
        rw [hs.1]
        rcases ht with ht | ht <;> rw [ht] <;> rfl
    exact hadvance.discard.bind fun _ => .pure
  · exact .rejectNext

/-! ### Operands -/

theorem carries_arrayDims : c.Carries room 0 0 (arrayDims g) := by
  unfold arrayDims
  refine iterate (fun found => ?_) _ _
  obtain ⟨n, lengths⟩ := found
  simp only [Parser.unless_eq]
  refine ifNext (.inl rfl) (ifNth (fun s t x y hs hfinish hx => ?_) ?_ ?_) .pure
  · exact hx.second_iff hfinish rfl (hx.ne_nil_of_next hfinish rfl hs.1)
  · exact advance_twice (fun s hs => by rw [hs.1, hs.2.1]; exact ⟨rfl, rfl⟩) .pure
  · refine ite (fun _ => ?_) fun _ => .pure
    have hadvance : c.CarriesFrom (fun s => (s.nth 1).kind ≠ Sign.rbracket ∧
        s.next.kind = Sign.lbracket ∧ True) 0 0 1 Parser.advance :=
      advance fun s hs => by rw [hs.2.1]; rfl
    refine (hadvance.discard.bind fun _ => ?_ :
      c.CarriesFrom _ room 0 2 _).stays
    refine (h.inner 0).stays.bindIn (fun length => ?_) (.inr (.inl ⟨le_rfl, le_rfl⟩))
    exact (expect rfl).discard.bind fun _ => .pure

theorem carries_creation : c.Carries room 0 1 (creation g) := by
  unfold creation
  refine (expect rfl).bind fun start => (carries_typeArgs? h).discard.bind fun _ => ?_
  refine (carries_plainType h).stays.bind fun plain => ifNext (.inl rfl) ?_ ?_
  · refine (carries_arrayDims h).anywhere.bind fun found => ifNext (.inl rfl) ?_ ?_
    · refine (carries_braces h).stays.anywhere.bind fun elements => ?_
      exact (spanFrom _).bind fun _ => .pure
    · exact (spanFrom _).bind fun _ => .pure
  · refine (carries_arguments h).stays.anywhere.bind fun args => ifNext (.inl rfl) ?_ ?_
    · refine (h.classBody "").stays.anywhere.bind fun body => ?_
      exact (spanFrom _).bind fun _ => .pure
    · exact (spanFrom _).bind fun _ => .pure

theorem carries_lambdaParam : c.Carries 1 0 1 (lambdaParam g) := by
  unfold lambdaParam
  refine (eat rfl rfl).discard.bind fun _ => chooseTwice
    (P := fun s t => t.next.kind = .identifier ∧
      ((s.nth 1).kind = Sign.comma ∨ (s.nth 1).kind = Sign.rparen)) ?_ ?_ ?_
  · intro s t x y _ hfinish hx
    rw [hx.next_eq (hx.ne_nil (.inl le_rfl))]
    refine and_congr_right fun hname => ?_
    rw [hx.nth_eq (hx.one_lt (by rw [Token.weight, hname]) (.inl ⟨le_rfl, le_rfl⟩))]
  · exact identifier.anywhere.bind fun _ => .pure
  · exact (h.type.map some).stays.anywhere.bind fun type => identifier.bind fun _ => .pure

theorem carries_lambdaParams : c.Carries room 0 1 (lambdaParams g) := by
  unfold lambdaParams
  have hparams : c.Carries 1 0 0
      (Parser.sepUntil g.rounds Sign.comma Sign.rparen (lambdaParam g)) :=
    sepUntil rfl (carries_lambdaParam h).stays le_rfl le_rfl _
  refine ifNext (.inl rfl) (identifier.anywhere.bind fun _ => .pure) (opening ?_)
  exact hparams.bindIn (fun params => closing .pure) (.inr (.inr le_rfl))

omit h in
/-- What follows the parameters of a lambda. -/
def lambdaRest (g : Rules) (start : Span) (params : List LambdaParam) : Parser Expr := do
  discard (Parser.expect Sign.arrow)
  if ← Parser.check Sign.lbrace then
    let body ← g.block
    return .blockLambda params body (← Parser.spanFrom start)
  else
    let body ← g.expr 0
    return .lambda params body (← Parser.spanFrom start)

omit h in
theorem lambda_eq : lambda g =
    Parser.peek >>= fun t => lambdaParams g >>= lambdaRest g t.span := rfl

theorem carries_lambdaRest (start : Span) (params : List LambdaParam) :
    c.Carries room 0 2 (Parser.only (c.allows room) (lambdaRest g start params)) := by
  simp only [lambdaRest, Parser.only_bind, Parser.only_ite]
  refine (expect rfl).discard.bind fun _ => ifNext (.inl rfl) ?_ ?_
  · exact h.block.anywhere.bind fun body => (spanFrom _).bind fun _ => CarriesFrom.pure.only
  · refine (h.expr room 0).anywhere.onlyBind (fun body => ?_) (.inl le_rfl) ?_
    · exact (spanFrom _).bind fun _ => CarriesFrom.pure.only
    · intro body s a t hrun
      obtain ⟨span, u, -, hrun⟩ := Parser.exists_of_bind_ok hrun
      obtain ⟨⟨⟩, hkept⟩ := Parser.of_only hrun
      exact hkept

theorem carries_lambda : c.Carries room 0 3 (Parser.only (c.allows room) (lambda g)) := by
  rw [lambda_eq]
  simp only [Parser.only_bind]
  refine peeking (fun t => ?_) (.inr (by omega))
  exact (carries_lambdaParams h).bind fun params => carries_lambdaRest h _ params

theorem carries_parenthesized : c.Carries room 0 2 (parenthesized g) := by
  unfold parenthesized
  refine open_bind fun first => (h.inner 0).stays.bindIn (fun inner => ?_) (.inr (.inr le_rfl))
  exact close_bind fun last => .pure

omit h in
/-- The type of a cast, in its parentheses. -/
def castType (g : Rules) : Parser (Token × TypeExpr) := do
  let first ← Parser.expect Sign.lparen
  let type ← g.type
  discard (Parser.expect Sign.rparen)
  return (first, type)

omit h in
theorem cast_eq : cast g = castType g >>= fun x => do
    let operand ← g.expr Power.unary
    return .cast x.2 operand (x.1.span.merge operand.span) := by
  simp only [cast, castType, bind_assoc, pure_bind]

theorem carries_castType : c.Carries room 0 3 (castType g) := by
  unfold castType
  exact open_bind fun first => h.type.bind fun type => closing .pure

theorem carries_primitiveClass : c.Carries room 0 1 (primitiveClass g) := by
  unfold primitiveClass
  refine peeking (fun t => h.type.bind fun type => ?_) (.inr le_rfl)
  refine (expect rfl).stays.discard.bind fun _ => (expect rfl).stays.discard.bind fun _ => ?_
  exact (spanFrom _).bind fun _ => .pure

omit h in
theorem carries_literal (kind : LiteralKind) :
    c.CarriesFrom (fun s => s.next.kind = .literal kind) room 0 1 (literal kind) := by
  unfold literal
  refine (advance fun s hs => by rw [hs]; rfl).bind fun t => ?_
  cases Literal.ofText kind t.text.toList with
  | ok value => exact .pure
  | error fault => exact .reject

theorem carries_wordOperand (word : Keyword) :
    c.CarriesFrom (fun s => s.next.kind = .keyword word) room 0 1 (wordOperand g word) := by
  have hadvance : c.CarriesFrom (fun s => s.next.kind = .keyword word) 0 0 1 Parser.advance :=
    advance fun s hs => by rw [hs]; rfl
  unfold wordOperand
  split
  · exact hadvance.bind fun _ => .pure
  · exact hadvance.bind fun t => carries_callIfArgs h _ _
  · exact hadvance.bind fun t => carries_callIfArgs h _ _
  · exact (carries_creation h).anywhere
  · exact ite (fun _ => (carries_primitiveClass h).anywhere) fun _ => .rejectNext

/-- What stands in parentheses and what follows it. -/
theorem carries_inParens : c.CarriesFrom (fun s => s.next.kind = Sign.lparen) room 0 1
    (Parser.only (c.allows room) (do
      let ts := (← get).ahead
      if Lookahead.isLambda ts then lambda g
      else if Lookahead.isCast ts then cast g
      else parenthesized g)) := by
  refine lookGuarded inParens (f := fun x => Parser.only (c.allows room)
    (if x.1 then lambda g else if x.2 then cast g else parenthesized g)) (fun s => ?_) ?_
  · rw [Parser.only_bind, Parser.bind_ok (Parser.get_eq s)]
    rfl
  have hsettled {b : Bool × Bool} {s t : ParserState} {n k opened : Nat} {x y : List Token}
      (hsees : inParens s = b) (hs : s.next.kind = Sign.lparen)
      (hfinish : s.finish.kind = .endOfSource) (hx : c.Stretch n opened k s t x y) (hk : 1 ≤ k)
      (hbehind : y ≠ [] ∨ c.hasArrow = false) : inParens (s.having (x ++ c.rest')) = b :=
    (hx.inParens_having hfinish hs hk hbehind).trans hsees
  rintro ⟨_ | _, b⟩
  · cases b with
    | true =>
      simp only [Bool.false_eq_true, if_false, if_true, cast_eq, Parser.only_bind]
      refine CarriesFrom.taking (show c.CarriesFrom _ room 0 4 _ from ?_) (Nat.le_add_left 1 3)
      refine (carries_castType h).anywhere.guardSeq
        (fun x => (h.expr room Power.unary).onlyReturn fun _ => rfl)
        (.inr (.inl ⟨le_rfl, le_rfl⟩)) rfl fun s u t a b x z hsees hs hfinish _ _ hx => ?_
      exact hsettled hsees hs hfinish hx (by omega) (.inl hx.room)
    | false =>
      simp only [Bool.false_eq_true, if_false]
      refine guard ((carries_parenthesized h).taking (Nat.le_succ 1)).only.anywhere
        fun s t a x y hsees hs hfinish hrun hx => hsettled hsees hs hfinish hx le_rfl ?_
      -- an expression in parentheses may stand before no arrow
      obtain ⟨hrun, hkept⟩ := Parser.of_only hrun
      obtain ⟨first, u, -, hrun⟩ := Parser.exists_of_bind_ok hrun
      obtain ⟨inner, v, -, hrun⟩ := Parser.exists_of_bind_ok hrun
      obtain ⟨last, w, -, ⟨⟩⟩ := Parser.exists_of_bind_ok hrun
      exact hx.behind_of_allows hkept rfl
  · simp only [if_true, lambda_eq, Parser.only_bind, Parser.guarded_peek]
    refine peeking (fun t => ?_) (.inr le_rfl)
    refine CarriesFrom.taking (show c.CarriesFrom _ room 0 3 _ from ?_) (Nat.le_add_left 1 2)
    refine (carries_lambdaParams h).anywhere.guardSeq
      (fun params => carries_lambdaRest h t.span params) (.inr (.inl ⟨le_rfl, by omega⟩)) rfl
      fun s u t a b x z hsees hs hfinish _ _ hx => ?_
    exact hsettled hsees hs hfinish hx (by omega) (.inl hx.room)

omit h in
theorem isLevel_of_unaryOp {sign : Sign} {op : UnaryOp} (hop : UnaryOp.ofSign? sign = some op) :
    (TokenKind.sign sign).isLevel := by
  cases sign <;> first | rfl | cases hop

theorem carries_signOperand (mark : Sign) : c.CarriesFrom (fun s => s.next.kind = .sign mark)
    room 0 1 (Parser.only (c.allows room) (signOperand g mark)) := by
  unfold signOperand
  cases hop : UnaryOp.ofSign? mark with
  | some op =>
    have hadvance : c.CarriesFrom (fun s => s.next.kind = .sign mark) 0 0 1 Parser.advance :=
      advance fun s hs => by rw [hs]; exact isLevel_of_unaryOp hop
    simp only [Parser.only_bind]
    refine hadvance.bind fun t => CarriesFrom.stays (show c.Carries room 0 1 _ from ?_)
    exact (h.expr room Power.unary).onlyReturn fun _ => rfl
  | none =>
    split
    · next heq => cases heq
    · exact carries_inParens h
    · exact ((carries_arrayInit h).taking (Nat.le_succ 1)).only.anywhere
    · exact CarriesFrom.rejectNext.only

omit h in
theorem weight_of_identifier {t : Token} (ht : t.kind = .identifier) : t.weight = 1 := by
  rw [Token.weight, ht]

/-- A name that is no parameter of a lambda, and the arguments if it is called. -/
theorem carries_called (t : Token) : c.CarriesFrom (fun s => s.next.kind = .identifier) room 0 1 (do
    discard Parser.advance
    callIfArgs g (.name ⟨t.text, t.span⟩) t.span) := by
  have hadvance : c.CarriesFrom (fun s => s.next.kind = .identifier) 0 0 1 Parser.advance :=
    advance fun s hs => by rw [hs]; rfl
  exact hadvance.discard.bind fun _ => carries_callIfArgs h _ _

omit h in
theorem eq_name_of_called {t : Token} {s u : ParserState} {e : Expr}
    (hnext : s.advance.next.kind ≠ Sign.lparen) (hrun : (do
      discard Parser.advance
      callIfArgs g (.name ⟨t.text, t.span⟩) t.span) s = .ok e u) : e = .name ⟨t.text, t.span⟩ := by
  rw [Parser.bind_ok (Parser.discard_ok (Parser.advance_eq s)), callIfArgs,
    Parser.bind_ok (Parser.check_eq _ _), decide_eq_false hnext] at hrun
  cases hrun
  rfl

/-- A name, or a lambda of which it is the parameter. -/
theorem carries_nameOperand (t : Token) :
    c.CarriesFrom (fun s => s.next.kind = .identifier) room 0 1 (Parser.only (c.allows room) (do
      if ← Parser.checkNth 1 Sign.arrow then lambda g
      else
        discard Parser.advance
        callIfArgs g (.name ⟨t.text, t.span⟩) t.span)) := by
  refine lookGuarded (fun s => decide ((s.nth 1).kind = Sign.arrow)) (f := fun b =>
    Parser.only (c.allows room) (if b then lambda g else do
      discard Parser.advance
      callIfArgs g (.name ⟨t.text, t.span⟩) t.span)) (fun s => ?_) fun b => ?_
  · rw [Parser.only_bind, Parser.bind_ok (Parser.checkNth_eq _ _ s)]
  · cases b with
    | true =>
      refine CarriesFrom.taking (show c.CarriesFrom _ room 0 3 _ from ?_) (Nat.le_add_left 1 2)
      refine guard (carries_lambda h).anywhere fun s u e x y hsees hs hfinish _ hx => ?_
      rw [hx.nth_eq (hx.one_lt (weight_of_identifier hs) (.inr (by omega)))]
      exact hsees
    | false =>
      refine guard ((carries_called h t).only.weaken (fun s hs => hs.2) le_rfl le_rfl)
        fun s u e x y hsees hs hfinish hrun hx => ?_
      by_cases hlong : 1 < x.length
      · rw [hx.nth_eq hlong]
        exact hsees
      · -- a name alone, which may stand before no arrow
        obtain ⟨v, z, rfl⟩ := List.exists_cons_of_ne_nil (hx.ne_nil (.inr le_rfl))
        obtain rfl : z = [] := by
          refine List.length_eq_zero_iff.mp ?_
          rw [List.length_cons] at hlong
          omega
        obtain ⟨hrun, hkept⟩ := Parser.of_only hrun
        have hopen : s.advance.next.kind ≠ Sign.lparen := by
          rw [ParserState.kind_next (by rwa [s.finish_advance]),
            ParserState.ahead_advance hx.before]
          exact (firstKind_ne rfl).1
        rw [eq_name_of_called hopen hrun] at hkept
        rcases hx.behind_of_allows hkept rfl with hy | harrow
        · have hweight := hx.weight
          have := Token.totalWeight_pos.mpr hy
          rw [Token.totalWeight, Token.totalWeight,
            ← ParserState.next_of_ahead hx.before, weight_of_identifier hs] at hweight
          omega
        · refine decide_eq_false ?_
          have hlast := (hx.kind_last hfinish).2
          rw [List.length_singleton] at hlast
          rw [hlast]
          exact of_decide_eq_false (Bool.or_eq_false_iff.mp harrow).2

theorem carries_operand : c.Carries room 0 1 (Parser.only (c.allows room) (operand g)) := by
  unfold operand
  rw [Parser.only_bind]
  refine peek_bind (fun t => ?_) (.inr le_rfl)
  split
  · next kind ht =>
    exact (carries_literal kind).only.weaken (fun s hs => hs.1 ▸ ht) le_rfl le_rfl
  · next ht => exact (carries_nameOperand h t).weaken (fun s hs => hs.1 ▸ ht) le_rfl le_rfl
  · next word ht =>
    exact (carries_wordOperand h word).only.weaken (fun s hs => hs.1 ▸ ht) le_rfl le_rfl
  · next sign ht =>
    exact (carries_signOperand h sign).weaken (fun s hs => hs.1 ▸ ht) le_rfl le_rfl
  · exact CarriesFrom.rejectNext.only
  · exact CarriesFrom.rejectNext.only

/-! ### Operators -/

theorem carries_conditional (condition : Expr) :
    c.Carries room 0 1 (Parser.only (c.allows room) (conditional g condition)) := by
  simp only [conditional, Parser.only_bind]
  refine CarriesFrom.taking (show c.CarriesFrom _ room 0 3 _ from ?_) (Nat.le_add_left 1 2)
  refine (expect rfl).discard.bind fun _ => ?_
  refine (h.inner _).stays.bindIn (fun yes => ?_) (.inr (.inl ⟨le_rfl, by omega⟩))
  refine (expect rfl).discard.bind fun _ => ?_
  exact (h.expr room _).onlyReturn fun _ => rfl

theorem carries_typeTest (value : Expr) : c.Carries room 0 1 (typeTest g value) := by
  unfold typeTest
  refine (expect rfl).discard.bind fun _ => (eat rfl rfl).discard.bind fun _ => ?_
  refine h.type.stays.bind fun type => (eat? rfl rfl).stays.bind fun binding => ?_
  exact (spanFrom _).bind fun _ => .pure

omit h in
theorem isLevel_of_continuation {kind : TokenKind} {k : Continuation}
    (hk : Continuation.ofKind? kind = some k) : kind.isLevel := by
  unfold Continuation.ofKind? at hk
  split at hk
  · next sign => cases sign <;> first | rfl | cases hk
  · rfl
  · cases hk

theorem carries_continuation (room : Nat) (left : Expr) (k : Continuation) :
    c.CarriesFrom (fun s => s.next.kind.isLevel) room 0 1
      (Parser.only (c.allows room) (k.parse g left)) := by
  have hadvance : c.CarriesFrom (fun s => s.next.kind.isLevel) 0 0 1 Parser.advance :=
    advance fun s hs => hs
  cases k with
  | update op => exact (hadvance.bind fun t => .pure).only
  | member => exact (carries_memberAccess h left).only.anywhere
  | index => exact ((carries_indexing h left).taking (Nat.le_succ 1)).only.anywhere
  | methodRef => exact ((carries_methodRef left).taking (Nat.le_succ 1)).only.anywhere
  | conditional => exact (carries_conditional h left).anywhere
  | typeTest => exact (carries_typeTest h left).only.anywhere
  | assign op =>
    simp only [Continuation.parse, Parser.only_bind]
    refine hadvance.discard.bind fun _ => CarriesFrom.stays (show c.Carries room 0 1 _ from ?_)
    exact (h.expr room _).onlyReturn fun _ => rfl
  | binary op =>
    simp only [Continuation.parse, Parser.only_bind]
    refine hadvance.discard.bind fun _ => CarriesFrom.stays (show c.Carries room 0 1 _ from ?_)
    exact (h.expr room _).onlyReturn fun _ => rfl

omit h in
/-- Whether an operator follows that binds tightly enough. -/
def goesOn (power : Nat) (kind : TokenKind) : Bool :=
  (Continuation.ofKind? kind).any fun k => power ≤ k.power

omit h in
/-- Where an expression ends nothing goes on. -/
theorem ofKind?_end {kind : TokenKind} (h : kind.isEnd) : Continuation.ofKind? kind = none := by
  unfold TokenKind.isEnd at h
  split at h
  case h_6 => cases h
  all_goals rfl

omit h in
theorem goesOn_end {power : Nat} {kind : TokenKind} (h : kind.isEnd) :
    goesOn power kind = false := by
  rw [goesOn, ofKind?_end h]
  rfl

omit h in
theorem operatorStep_stops {power : Nat} {left : Expr} {s : ParserState}
    (hstop : ¬goesOn power s.next.kind) : operatorStep g power left s = .ok (.inr left) s := by
  rw [operatorStep, Parser.bind_ok (Parser.peek_eq s)]
  unfold goesOn at hstop
  cases hk : Continuation.ofKind? s.next.kind with
  | none => rfl
  | some k =>
    rw [hk] at hstop
    dsimp only
    rw [if_neg fun hle => hstop (decide_eq_true hle)]
    rfl

omit h in
theorem goesOn_having {take opened power : Nat} {s t : ParserState}
    {x y : List Token} (hx : c.Stretch room opened take s t x y)
    (hfinish : s.finish.kind = .endOfSource) :
    goesOn power (s.having (x ++ c.rest')).next.kind ↔ goesOn power s.next.kind := by
  cases x with
  | nil =>
    obtain ⟨hbefore, hafter⟩ := hx.kind_last hfinish
    have hnext : s.next.kind = _ := hbefore
    have hnext' : (s.having ([] ++ c.rest')).next.kind = _ := hafter
    rw [hnext, hnext', goesOn_end (hx.ends rfl).1, goesOn_end (hx.ends rfl).2]
  | cons u x => rw [hx.next_eq (List.cons_ne_nil u x)]

/-- Operators behind an operand; where it may not stand before what is exchanged, there are some. -/
theorem carries_operators (room power rounds : Nat) (left : Expr) :
    c.Carries room 0 (if c.allows room left then 0 else 1)
      (Parser.only (c.allows room) (Parser.iterate (operatorStep g power) rounds left)) := by
  -- by induction on the rounds: behind an operand that may not stand there, an operator has to come
  induction rounds generalizing left with
  | zero => exact exhausted.only
  | succ rounds ih =>
    rw [Parser.iterate]
    refine orElse (P := fun s => goesOn power s.next.kind)
      (q := Parser.only (c.allows room) (Pure.pure left)) (fun s hstop => ?_)
      (fun s t x y _ hfinish hx => goesOn_having hx hfinish) (CarriesFrom.taking
        (show c.CarriesFrom _ room 0 1 _ from ?_) (by split <;> omega)) ?_
    · rw [Parser.only_bind, Parser.bind_ok (operatorStep_stops hstop)]
    · simp only [operatorStep, bind_assoc, Parser.only_bind]
      refine peek_bind (fun t => ?_) (.inr le_rfl)
      cases hk : Continuation.ofKind? t.kind with
      | none =>
        intro s _ _ hs _ _ _
        have hgoes := hs.2.1
        rw [goesOn, hs.1, hk] at hgoes
        cases hgoes
      | some k =>
        have hstart (s : ParserState) (hs : s.next = t ∧ goesOn power s.next.kind ∧ True) :
            s.next.kind.isLevel := by
          rw [hs.1]
          exact isLevel_of_continuation hk
        by_cases hle : power ≤ k.power
        · simp only [if_pos hle, bind_assoc, pure_bind]
          have hkept := (carries_continuation h room left k).weaken hstart le_rfl le_rfl
          have hall := CarriesFrom.of_only (fun _ => rfl)
            ((carries_continuation h 1 left k).weaken hstart le_rfl le_rfl)
          refine hkept.seqOnly hall (fun e he => ?_) fun e he => ?_
          · have h := ih e
            rwa [if_pos he] at h
          · have h := ih e
            rwa [if_neg he] at h
        · intro s _ _ hs _ _ _
          have hgoes := hs.2.1
          rw [goesOn, hs.1, hk] at hgoes
          exact absurd (of_decide_eq_true hgoes) hle
    · split
      · exact CarriesFrom.pure.only
      · next hopen =>
        rintro s e t - - - hrun
        obtain ⟨⟨⟩, hkept⟩ := Parser.of_only hrun
        exact absurd hkept hopen

theorem carries_expr (power : Nat) :
    c.Carries room 0 1 (Parser.only (c.allows room) (expr g power)) := by
  rw [expr, Parser.only_bind]
  have hall : c.Carries 1 0 1 (operand g) := of_only (fun _ => rfl) (carries_operand h)
  refine (carries_operand h).seqOnly hall (fun e he => ?_) fun e he => ?_
  · have h := carries_operators h room power g.rounds e
    rwa [if_pos he] at h
  · have h := carries_operators h room power g.rounds e
    rwa [if_neg he] at h

end Grammar

end JavaGraft

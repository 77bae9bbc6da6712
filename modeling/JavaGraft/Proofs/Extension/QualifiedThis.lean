import JavaGraft.Extension.Decision
import JavaGraft.Proofs.Grammar.Precedence
import JavaGraft.Proofs.Scope.FullNames

/-!
# What becomes of the name before `this`

In a type `I` that is inside of a type `Q`, `Q.this` means the object of type `Q` around the object
of type `I`. The name is read and dropped: what remains is the same `this` that a plain `this` is,
over a longer span (`JavaGraft.Grammar.expr_qualifiedThis`). So it has the type `I`, which is never
`Q`, and a call on it is redirected by the methods that are offered for `I` and passes the object
of type `I` (`JavaGraft.Registry.Inside.qualifiedThis`).

However many names there are before `this`, each is one round of the loop over operators, and the
expression read so far stays the target of the next round; the last round replaces it.
-/

namespace JavaGraft

open JavaGraft.Parser

/-! ### Reading -/

/-- **The words ahead qualify `this`**: `k` names, each behind a point, and then `this` behind a
point. -/
inductive ParserState.Qualifies : Nat → ParserState → Prop
  | this {s : ParserState} (hdot : s.next.kind = Sign.dot)
      (hthis : s.advance.next.kind = Keyword.kwThis) : Qualifies 0 s
  | name {k : Nat} {s : ParserState} (hdot : s.next.kind = Sign.dot)
      (hname : s.advance.next.kind = .identifier) (h : Qualifies k s.advance.advance) :
      Qualifies (k + 1) s

theorem ParserState.Qualifies.dot {k : Nat} {s : ParserState} (h : s.Qualifies k) :
    s.next.kind = Sign.dot := by
  cases h <;> assumption

namespace Grammar

variable {g : Rules} {power k : Nat} {s : ParserState}

/-- Behind a point, `this` takes the place of everything before it. -/
theorem memberAccess_this (target : Expr) (hdot : s.next.kind = Sign.dot)
    (hthis : s.advance.next.kind = Keyword.kwThis) :
    memberAccess g target s
      = .ok (.this (target.span.merge s.advance.advance.previous.span)) s.advance.advance := by
  have hclass : s.advance.next.kind ≠ Keyword.kwClass := by
    rw [hthis]
    exact nofun
  rw [memberAccess, bind_ok (expect_ok hdot), bind_ok (eat_no hclass), if_neg Bool.false_ne_true,
    bind_ok (eat_ok hthis), if_pos rfl, bind_ok (spanFrom_eq _ _), pure_eq]

/-- **A plain `this`** is an operand. -/
theorem expr_plainThis (hthis : s.next.kind = Keyword.kwThis)
    (hargs : s.advance.next.kind ≠ Sign.lparen) :
    expr g power s = operatorsWithin g power g.rounds (.this s.next.span) s.advance := by
  have hoperand : operand g s = .ok (.this s.next.span) s.advance := by
    rw [operand, bind_ok (peek_eq s)]
    simp only [hthis]
    change (Parser.advance >>= fun t => callIfArgs g (.this t.span) t.span) s = _
    rw [bind_ok (advance_eq s), Expr.callIfArgs_of_ne hargs]
  rw [expr, bind_ok hoperand, operators_eq]

/-- Names behind an operand and `this` behind them are read one by one, and only the span of the
operand is kept. -/
theorem operatorsWithin_qualifiedThis (hpower : power ≤ Power.access) (h : s.Qualifies k)
    (rounds : Nat) (e : Expr) :
    ∃ span, span.Contains e.span ∧
      operatorsWithin g power (rounds + (k + 1)) e s
        = operatorsWithin g power rounds (.this span) (ParserState.advance^[2 * (k + 1)] s) := by
  have hmember {s : ParserState} (hdot : s.next.kind = Sign.dot) :
      Continuation.ofKind? s.next.kind = some .member := hdot ▸ rfl
  -- What has been read so far is the target of the next round, so this is for every target.
  induction h generalizing e with
  | this hdot hthis =>
    exact ⟨_, Span.contains_merge_left _ _,
      operatorsWithin_take (hmember hdot) hpower (memberAccess_this e hdot hthis)⟩
  | @name k s hdot hname h ih =>
    have hplain : s.advance.advance.next.kind ≠ Sign.lparen := by
      rw [h.dot]
      exact nofun
    have hfield := Expr.memberAccess_of_identifier (g := g) (t := e) hdot hname
    rw [Expr.callIfArgs_of_ne hplain] at hfield
    obtain ⟨span, hspan, hrest⟩ := ih (.field e ⟨s.advance.next.text, s.advance.next.span⟩
      (e.span.merge s.advance.next.span))
    refine ⟨span, hspan.trans (Span.contains_merge_left _ _), ?_⟩
    rw [← Nat.add_assoc, operatorsWithin_take (hmember hdot) hpower hfield, hrest,
      show 2 * (k + 1 + 1) = 2 * (k + 1) + 2 by omega, Function.iterate_add_apply]
    rfl

/-- **A qualified `this`** is read as `this`, over a span that starts with the first name. -/
theorem expr_qualifiedThis (hpower : power ≤ Power.access) (hfirst : s.next.kind = .identifier)
    (h : s.advance.Qualifies k) (hrounds : k < g.rounds) :
    ∃ span, span.Contains s.next.span ∧
      expr g power s = operatorsWithin g power (g.rounds - (k + 1)) (.this span)
        (ParserState.advance^[2 * (k + 1)] s.advance) := by
  have hne {kind : TokenKind} (hkind : kind ≠ Sign.dot) : s.advance.next.kind ≠ kind :=
    fun heq => hkind (heq.symm.trans h.dot)
  have harrow : (s.nth 1).kind ≠ Sign.arrow := s.next_advance ▸ hne nofun
  have hoperand := Expr.operand_of_identifier (g := g) hfirst harrow
  rw [Expr.callIfArgs_of_ne (hne nofun)] at hoperand
  obtain ⟨span, hspan, hloop⟩ := operatorsWithin_qualifiedThis (g := g) hpower h
    (g.rounds - (k + 1)) (.name ⟨s.next.text, s.next.span⟩)
  rw [Nat.sub_add_cancel hrounds] at hloop
  refine ⟨span, hspan, ?_⟩
  rw [expr, bind_ok hoperand, operators_eq, hloop]

end Grammar

/-! ### Typing and redirecting -/

/-- `this` has the type around it, whatever its span is. -/
theorem Attribution.resolve_this (a : Attribution) (site : Site) (span : Span) :
    a.resolve site (.this span) = (some (.simple site.owner), a) := by
  rw [resolve]

/-- **A call on `this`** is redirected by what is offered for the type around it, and passes on
the `this` on which it was written. -/
theorem Catalog.decide_this (c : Catalog) (s : CallSite) (a : Attribution) {span : Span}
    {name : String} (hreceiver : s.call.receiver? = some (.this span))
    (hname : s.call.name? = some name) (hthis : name ≠ "this") (hsuper : name ≠ "super") :
    (c.decide s a).1 = (c.provider? name (.simple s.site.owner)).elim (.keep .noMatchingMethod)
      fun e => .replace s.call.id (.ofNames s.call.callee.span (e.name.segments ++ [name]))
        (.this span :: s.call.args) := by
  have hgiven : s.call.receiver = .this span := by rw [Call.receiver, hreceiver, Option.getD_some]
  simp only [decide, hname, hgiven, Attribution.resolve_this, hthis, hsuper, decide_false,
    Bool.or_self, Bool.false_eq_true, if_false, Call.moveTo]
  cases c.provider? name (.simple s.site.owner) <;> rfl

namespace Registry

/-- **The name before `this` is lost.** Let the type `i` be inside of the type `q`, at any depth.
Whatever names stand before `this` in a member of `i`, those of `q` too, the expression is read as
`this`, just as a plain `this` is, only over a longer span. At every site in `i` it has the type
`i`, both when it is looked up and when the member is typed, and this is not the type `q`. A call on
it becomes what it would become on a plain `this`: a provider is looked for with the type `i`, and
what is passed to it is that `this`. -/
theorem Inside.qualifiedThis {r : Registry} (hbuilt : r.Built) (hdistinct : r.Distinct)
    {i q : TypeSymbol} (hinside : r.Inside i q) {g : Rules} {power k : Nat} {s : ParserState}
    (hpower : power ≤ Power.access) (hfirst : s.next.kind = .identifier)
    (hthis : s.advance.Qualifies k) (hrounds : k < g.rounds) :
    ∃ span, span.Contains s.next.span ∧
      Grammar.expr g power s = Grammar.operatorsWithin g power (g.rounds - (k + 1)) (.this span)
        (ParserState.advance^[2 * (k + 1)] s.advance) ∧
      (∀ t : ParserState, t.next.kind = Keyword.kwThis → t.advance.next.kind ≠ Sign.lparen →
        Grammar.expr g power t
          = Grammar.operatorsWithin g power g.rounds (.this t.next.span) t.advance) ∧
      (∀ (a : Attribution) (site : Site), site.owner = i.hash →
        a.resolve site (.this span) = (some (.simple i.hash), a)) ∧
      (∀ (scope : FileScope) (expected : Option DataType) (state : TyperState),
        (((Expr.this span).typed (.inType r scope i.hash) expected).run state).1
          = some (.simple i.hash)) ∧
      DataType.simple i.hash ≠ .simple q.hash ∧
      ∀ (c : Catalog) (call : CallSite) (a : Attribution) (name : String),
        call.site.owner = i.hash → call.call.receiver? = some (.this span) →
        call.call.name? = some name → name ≠ "this" → name ≠ "super" →
        (c.decide call a).1 = (c.provider? name (.simple i.hash)).elim (.keep .noMatchingMethod)
          fun e => .replace call.call.id
            (.ofNames call.call.callee.span (e.name.segments ++ [name]))
            (.this span :: call.call.args) := by
  obtain ⟨span, hspan, hread⟩ := Grammar.expr_qualifiedThis hpower hfirst hthis hrounds
  refine ⟨span, hspan, hread, fun t => Grammar.expr_plainThis, fun a site howner => ?_,
    fun _ _ _ => rfl, ?_, ?_⟩
  · rw [a.resolve_this, howner]
  · intro heq
    exact hinside.hash_ne (hbuilt.orderly hdistinct).placed hdistinct
      (congrArg DataType.base heq)
  · rintro c call a name howner hreceiver hname hthis hsuper
    rw [c.decide_this call a hreceiver hname hthis hsuper, howner]

section Sample

open Context.Sample

theorem inside_inner : Inside ⟨[innerType, outerType]⟩ innerType outerType :=
  .single ⟨List.mem_cons_self, List.mem_cons_of_mem _ List.mem_cons_self, rfl⟩

/-- In a member of the class `A.B` the expression `A.this` has the type `A.B`. -/
theorem Inside.qualifiedThis_inner :
    let r : Registry := ⟨[innerType, outerType]⟩
    let s := ParserState.ofSource "A.this".toList 0
    r.Built ∧ r.Distinct ∧ r.Inside innerType outerType ∧ s.next.kind = .identifier ∧
      s.advance.Qualifies 0 ∧ 0 < (grammar s.depth).rounds ∧
      ∃ span : Span, span.Contains s.next.span ∧
        ((Attribution.start r []).resolve ⟨0, innerType.hash, none⟩ (.this span)).1
          = some (.simple innerType.hash) ∧
        DataType.simple innerType.hash ≠ .simple outerType.hash := by
  intro r s
  have hfirst : s.next.kind = .identifier := by decide +kernel
  have hthis : s.advance.Qualifies 0 := .this (by decide +kernel) (by decide +kernel)
  have hrounds : 0 < (grammar s.depth).rounds := by decide +kernel
  obtain ⟨span, hspan, -, -, hresolve, -, hne, -⟩ := Inside.qualifiedThis built_nested
    distinct_nested inside_inner (Nat.zero_le Power.access) hfirst hthis hrounds
  exact ⟨built_nested, distinct_nested, inside_inner, hfirst, hthis, hrounds, span, hspan,
    congrArg Prod.fst (hresolve _ _ rfl), hne⟩

/-- It does not have the type of the object that it means. -/
theorem Inside.resolve_qualifiedThis_ne :
    ¬ ∀ (r : Registry) (i q : TypeSymbol), r.Built → r.Distinct → r.Inside i q →
      ∀ e, (parseExpr (q.name.simple ++ ".this").toList).toOption = some e →
        ∀ (a : Attribution) (site : Site), a.registry = r → site.owner = i.hash →
          (a.resolve site e).1 = some (.simple q.hash) := by
  intro h
  have hread : (parseExpr (outerType.name.simple ++ ".this").toList).toOption
      = some (.this ⟨0, 6, 1, 1⟩) := by decide +kernel
  have htype := h _ innerType outerType built_nested distinct_nested inside_inner _ hread
    (.start _ []) ⟨0, innerType.hash, none⟩ rfl rfl
  have hne : innerType.hash ≠ outerType.hash := by decide +kernel
  exact hne (congrArg DataType.base (Option.some_inj.mp htype))

end Sample

end Registry

end JavaGraft

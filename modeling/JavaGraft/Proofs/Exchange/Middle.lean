import JavaGraft.Proofs.Exchange.Labels

/-!
# The middle of a conditional

What stands between `?` and `:` is read with more power than a conditional has, as a label of a
`switch` is, and not as an expression on its own. So the middle of a conditional is what is read of
its text alone if this binds more tightly than a conditional, and otherwise there is no conditional
at all (`JavaGraft.parseExpr_middle`): an assignment or a further conditional needs parentheses
there, although the colon ends it.
-/

namespace JavaGraft

/-- An assignment or a conditional. -/
def Expr.isLoose : Expr → Bool
  | .assign .. | .conditional .. => true
  | _ => false

theorem Expr.isLoose_iff (e : Expr) : e.isLoose ↔ e.tightness ≤ Power.conditional := by
  cases e with
  | assign => exact iff_of_true rfl (show Power.assignment ≤ Power.conditional by decide)
  | conditional => exact iff_of_true rfl le_rfl
  | binary l op r s =>
    have hpower : ¬op.leftPower ≤ Power.conditional := by cases op <;> decide
    exact iff_of_false nofun hpower
  | instanceOf => exact iff_of_false nofun (show ¬Power.instanceOf ≤ Power.conditional by decide)
  | unary | cast => exact iff_of_false nofun (show ¬Power.unary ≤ Power.conditional by decide)
  | _ => exact iff_of_false nofun (show ¬Power.access ≤ Power.conditional by decide)

/-- The words of a conditional between two names, with a text in the middle. -/
def conditionalWords (c : Ident) (middle : List Char) (e : Ident) : List Lexeme :=
  c.lexeme :: Sign.question.lexeme ::
    ((tokenize middle).lexemes ++ [Sign.colon.lexeme, e.lexeme])

/-- The conditional between two names, without labels. -/
def Expr.conditionalOf (c : Ident) (yes : Expr) (e : Ident) : Expr :=
  .conditional (.name ⟨c.name, .absent⟩) yes (.name ⟨e.name, .absent⟩) .absent

namespace ParserState

variable {s : ParserState} {m : Nat} {c e : Ident} {middle : List Char} {a : Expr}

/-- The last name of a source is an expression. -/
theorem Along.name (h : s.Along m [e.lexeme]) (power : Nat) :
    (grammar m).expr power s = .ok (.name ⟨e.name, s.next.span⟩) s.advance ∧
      s.advance.Shows [] := by
  have hend : (s.nth 1).kind = .endOfSource := h.shows.nth_kind 1
  have htext : s.next.text = e.name := congrArg Prod.snd h.shows.next
  rw [← htext]
  exact ⟨Grammar.expr_of_name power (s.three_le_depth.trans h.depth) h.kind
    (by rw [hend]; exact nofun) (by rw [hend]; exact nofun) (by rw [hend]; rfl), h.shows.advance⟩

/-- **Behind its condition**, a conditional goes on with what is read of its middle as a label, or
not at all. -/
theorem Along.conditional (left : Expr)
    (h : s.Along m (Sign.question.lexeme :: ((tokenize middle).lexemes ++
      [Sign.colon.lexeme, e.lexeme])))
    (hread : reading (fun g => g.expr 0) Expr.relabeled middle = some a) :
    (∃ b t, Grammar.conditional (grammar m) left s = .ok b t ∧ t.Shows [] ∧
      (labelReading middle).map (fun yes => .conditional (left.relabeled .erased) yes
        (.name ⟨e.name, .absent⟩) .absent) = some (b.relabeled .erased)) ∨
    labelReading middle = none ∧ (Grammar.conditional (grammar m) left).Fails s := by
  have hopen := Parser.discard_ok (Parser.expect_ok h.sign)
  obtain ⟨yes, t, hyes, ⟨hlabel, hcolon⟩ | ⟨hlabel, hoperator⟩⟩ :=
    h.advance.labelExpr hread (.inr (.inl rfl))
  · obtain ⟨hno, hend⟩ := hcolon.advance.name Power.conditional
    refine .inl ⟨.conditional left yes (.name ⟨e.name, t.advance.next.span⟩)
      (left.span.merge t.advance.next.span), _, ?_, hend, ?_⟩
    · rw [Grammar.conditional, Parser.bind_ok hopen, Parser.bind_ok hyes,
        Parser.bind_ok (Parser.discard_ok (Parser.expect_ok hcolon.sign)), Parser.bind_ok hno]
      rfl
    · rw [hlabel]
      rfl
  · -- an operator is no colon
    have hcolon : t.next.kind ≠ Sign.colon := by
      intro hcolon
      rw [hcolon] at hoperator
      cases hoperator
    obtain ⟨error, hexpect⟩ := Parser.expect_no hcolon
    refine .inr ⟨hlabel, fun b u hrun => ?_⟩
    rw [Grammar.conditional, Parser.bind_ok hopen, Parser.bind_ok hyes,
      Parser.bind_error (Parser.discard_error hexpect)] at hrun
    cases hrun

/-- **A conditional whose condition is a name.** -/
theorem Shows.expr_conditional (h : s.Shows (conditionalWords c middle e)) (hm : s.depth ≤ m)
    (hread : reading (fun g => g.expr 0) Expr.relabeled middle = some a) :
    (∃ b t, (grammar (m + 1)).expr 0 s = .ok b t ∧ t.Shows [] ∧
      (labelReading middle).map (fun yes => .conditionalOf c yes e)
        = some (b.relabeled .erased)) ∨
    labelReading middle = none ∧ ((grammar (m + 1)).expr 0).Fails s := by
  have hname : s.next.kind = .identifier := congrArg Prod.fst h.next
  have htext : s.next.text = c.name := congrArg Prod.snd h.next
  have hquestion : (s.nth 1).kind = Sign.question := h.nth_kind 1
  have hoperand := Grammar.operand_of_name (g := grammar m) hname
    (by rw [hquestion]; exact nofun) (by rw [hquestion]; exact nofun)
  rw [htext] at hoperand
  obtain ⟨rounds, hrounds⟩ : ∃ k, (grammar m).rounds = k + 2 := by
    have := s.three_le_depth
    exact ⟨m - 3, by rw [Grammar.rounds_grammar]; omega⟩
  have hexpr : (grammar (m + 1)).expr 0 s
      = Grammar.operatorsWithin (grammar m) 0 (rounds + 2) (.name ⟨c.name, s.next.span⟩)
        s.advance := by
    rw [← hrounds]
    exact Parser.bind_ok hoperand
  -- the conditional is the first operator behind the name, and nothing comes behind it
  have hcond : Grammar.Continuation.ofKind? s.advance.next.kind = some .conditional := by
    rw [s.next_advance, hquestion]
    rfl
  rw [Parser.Fails, hexpr]
  obtain ⟨b, t, hrun, ht, hb⟩ | ⟨hnone, hfails⟩ :=
    (h.along hm).conditional (.name ⟨c.name, s.next.span⟩) hread
  · left
    refine ⟨b, t, ?_, ht, hb⟩
    rw [Grammar.operatorsWithin_take hcond (Nat.zero_le _) hrun]
    exact Grammar.operatorsWithin_stop fun k hk => by
      rw [ht.kind_end] at hk
      cases hk
  · right
    refine ⟨hnone, fun b t hrun => ?_⟩
    obtain ⟨r, u, hstep, hrest⟩ := Parser.exists_of_bind_ok hrun
    cases r with
    | inl left =>
      obtain ⟨k, hk, -, hparse⟩ := Grammar.operatorStep_inl hstep
      obtain rfl := Option.some.inj (hcond.symm.trans hk)
      exact hfails _ _ hparse
    | inr e' =>
      exact absurd ((Grammar.operatorStep_inr hstep).2.2 _ hcond) (Nat.not_lt_zero _)

end ParserState

section

variable {c e : Ident} {middle source : List Char}

/-- What is read of a conditional is made of what is read of its middle as a label. -/
theorem reading_conditional {a : Expr}
    (hread : reading (fun g => g.expr 0) Expr.relabeled middle = some a)
    (hsource : (tokenize source).lexemes = conditionalWords c middle e) :
    reading (fun g => g.expr 0) Expr.relabeled source
      = (labelReading middle).map fun yes => .conditionalOf c yes e := by
  have htext : Lexeme.AreText (tokenize source).lexemes :=
    hsource ▸ .cons rfl (.cons rfl (((alone_expr 0).areText hread).append
      (.cons rfl (.cons rfl nofun))))
  have hs := ParserState.shows_ofSource htext
  have hiff (b : Expr) := (alone_expr 0).reading_iff htext hs (Nat.le_succ _) (a := b)
  obtain ⟨b, t, hrun, ht, hb⟩ | ⟨hnone, hfails⟩ := (hsource ▸ hs).expr_conditional le_rfl hread
  · rw [hb]
    exact (hiff _).mpr ⟨b, t, hrun, ht, rfl⟩
  · rw [hnone]
    refine Option.eq_none_iff_forall_ne_some.mpr fun b hb => ?_
    obtain ⟨b', t, hrun, -⟩ := (hiff b).mp hb
    exact hfails b' t hrun

/-- **The middle of a conditional** is what is read of its text alone, unless this is an assignment
or a conditional itself. With such a text in the middle there is no conditional. -/
theorem parseExpr_middle {yes : Expr} (hmiddle : parseExpr middle = .ok yes)
    (hsource : (tokenize source).lexemes = conditionalWords c middle e) :
    (parseExpr source).toOption.map (Expr.relabeled .erased)
      = if yes.isLoose then none else some (.conditionalOf c (yes.relabeled .erased) e) := by
  have hread : reading (fun g => g.expr 0) Expr.relabeled middle = some (yes.relabeled .erased) :=
    reading_eq_some.mpr ⟨yes, hmiddle, rfl⟩
  refine (reading_conditional hread hsource).trans ?_
  rw [labelReading_eq hread, yes.tightness_relabeled]
  by_cases hloose : yes.isLoose
  · rw [if_pos hloose, if_neg (Nat.not_lt.mpr (yes.isLoose_iff.mp hloose))]
    rfl
  · rw [if_neg hloose, if_pos (Nat.lt_of_not_le (mt yes.isLoose_iff.mpr hloose))]
    rfl

end

theorem parseExpr_middle_lambda :
    parseExpr "x -> y".toList = .ok (.lambda [⟨none, ⟨"x", ⟨0, 1, 1, 1⟩⟩⟩]
      (.name ⟨"y", ⟨5, 1, 1, 6⟩⟩) ⟨0, 6, 1, 1⟩) ∧
    (tokenize "c ? x -> y : e".toList).lexemes
      = conditionalWords ⟨"c", .absent⟩ "x -> y".toList ⟨"e", .absent⟩ ∧
    (parseExpr "c ? x -> y : e".toList).toOption.map (Expr.relabeled .erased)
      = some (.conditionalOf ⟨"c", .absent⟩ (.lambda [⟨none, ⟨"x", .absent⟩⟩]
          (.name ⟨"y", .absent⟩) .absent) ⟨"e", .absent⟩) := by
  have hmiddle : parseExpr "x -> y".toList = .ok (.lambda [⟨none, ⟨"x", ⟨0, 1, 1, 1⟩⟩⟩]
      (.name ⟨"y", ⟨5, 1, 1, 6⟩⟩) ⟨0, 6, 1, 1⟩) := by decide +kernel
  have hsource : (tokenize "c ? x -> y : e".toList).lexemes
      = conditionalWords ⟨"c", .absent⟩ "x -> y".toList ⟨"e", .absent⟩ := by decide +kernel
  exact ⟨hmiddle, hsource, parseExpr_middle hmiddle hsource⟩

/-- **The middle of a conditional cannot be an assignment** or a conditional without parentheses. -/
theorem parseExpr_middle_rejected :
    (parseExpr "a = b".toList).toOption.isSome ∧
      (parseExpr "c ? a = b : e".toList).toOption = none ∧
    (parseExpr "a ? b : d".toList).toOption.isSome ∧
      (parseExpr "c ? a ? b : d : e".toList).toOption = none := by
  refine ⟨by decide +kernel, ?_, by decide +kernel, ?_⟩
  · exact Option.isNone_iff_eq_none.mp (by decide +kernel)
  · exact Option.isNone_iff_eq_none.mp (by decide +kernel)

end JavaGraft

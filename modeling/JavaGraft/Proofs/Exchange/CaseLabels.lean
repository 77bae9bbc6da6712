import JavaGraft.Proofs.Exchange.Labels

/-!
# Groups behind an arrow and behind a colon

The statement of a group stands behind an arrow, or behind a colon, where others may follow it. With
a single statement it makes no difference which sign there is (`JavaGraft.parseStmt_arrow_colon`),
as long as the arrow does not change what is read of the label before it.
-/

namespace JavaGraft

/-! ### One group -/

namespace Parser

variable {α : Type} {more : Parser Bool} {item : Parser (Option α)} {s t : ParserState} {a : α}

theorem map_ok {β : Type} (f : β → α) {p : Parser β} {b : β} (h : p s = .ok b t) :
    (f <$> p) s = .ok (f b) t := by
  rw [map_eq_pure_bind, bind_ok h]
  rfl

/-- A loop of one item. -/
theorem collectWhile_one (rounds : Nat) (hmore : more s = .ok true s)
    (hitem : item s = .ok (some a) t) (hlast : more t = .ok false t) :
    collectWhile (rounds + 2) more item s = .ok [a] t := by
  rw [collectWhile, iterate]
  simp only [bind_assoc, bind_ok hmore, if_true, bind_ok hitem, pure_bind]
  rw [iterate]
  simp only [bind_assoc, bind_ok hlast]
  rfl

theorem collectWhile_fails (rounds : Nat) (hmore : more s = .ok true s) (hitem : item.Fails s) :
    (collectWhile rounds more item).Fails s := by
  cases rounds with
  | zero => exact fun _ _ => nofun
  | succ rounds =>
    refine Fails.bind fun r t hrun => ?_
    simp only [bind_ok hmore, if_true] at hrun
    exact hitem.bind r t hrun

end Parser

namespace Grammar

open JavaGraft.Parser

variable {n : Nat} {s : ParserState}

/-- What may follow the statements of a group. -/
def endsGroup (kind : TokenKind) : Prop :=
  kind = Keyword.kwCase ∨ kind = Keyword.kwDefault ∨ kind = Sign.rbrace ∨ kind = .endOfSource

instance (kind : TokenKind) : Decidable (endsGroup kind) := inferInstanceAs (Decidable (_ ∨ _))

theorem caseGoesOn_eq (s : ParserState) :
    caseGoesOn s = .ok (decide (¬endsGroup s.next.kind)) s := by
  refine congrArg (EStateM.Result.ok · s) (Bool.eq_iff_iff.mpr ?_)
  rw [decide_eq_true_iff]
  simp [endsGroup, ParserState.next, and_assoc]

/-- No statement starts with what may follow the statements of a group. -/
theorem stmt_fails (h : endsGroup s.next.kind) : (grammar n).stmt.Fails s := by
  cases n with
  | zero => exact fun _ _ => nofun
  | succ n =>
    -- neither an expression nor a declaration starts with such a token
    have hexpr : ((grammar n).expr 0).Fails s := by
      cases n with
      | zero => exact fun _ _ => nofun
      | succ n =>
        refine Fails.bind fun e t hrun => ?_
        rw [operand, bind_ok (peek_eq s)] at hrun
        rcases h with h | h | h | h <;> rw [h] at hrun <;> cases hrun
    have hvar : (varOrExpr (grammar n)).Fails s := by
      have hnone : Lookahead.isVarDecl s.ahead = false := by
        cases hahead : s.ahead with
        | nil => rfl
        | cons t ts =>
          rw [ParserState.next_of_ahead hahead] at h
          rw [Lookahead.isVarDecl, Lookahead.isTypeStart, List.head?_cons, Option.any_some]
          rcases h with h | h | h | h <;> rw [h] <;> rfl
      intro b t hrun
      rw [varOrExpr, bind_ok (get_eq s), hnone] at hrun
      exact hexpr.bind b t hrun
    intro b t hrun
    change stmt (grammar n) s = .ok b t at hrun
    rw [stmt, bind_ok (peek_eq s)] at hrun
    rcases h with h | h | h | h <;> rw [h] at hrun <;> exact hvar b t hrun

end Grammar

namespace ParserState.Along

variable {s : ParserState} {m : Nat} {label : List Char} {others : List (List Char)} {sign : Sign}
  {body : List Char} {a : Stmt} {rest : List Lexeme}

/-- Behind its labels a group is read as its statement alone is read, whatever the sign before
it. -/
theorem switchCase_reads {t : ParserState} {es : List Expr}
    (hlabels : Grammar.caseLabels (grammar m) s = .ok es t)
    (h : t.Along m (sign.lexeme :: ((tokenize body).lexemes ++ Sign.rbrace.lexeme :: rest)))
    (hsign : sign = .colon ∨ sign = .arrow) (hrounds : 2 ≤ (grammar m).rounds)
    (hbody : reading (fun g => g.stmt) Stmt.relabeled body = some a) :
    ∃ b u, Grammar.switchCase (grammar m) s = .ok b u ∧ u.Along m (Sign.rbrace.lexeme :: rest) ∧
      b.relabeled .erased = ⟨es.map (Expr.relabeled .erased), [a], .absent⟩ := by
  obtain ⟨b, u, hstmt, hgoes, hb⟩ := h.advance.stmt (by rintro _ ⟨⟩; rfl) hbody
  refine ⟨⟨es, [b], s.next.span.merge u.previous.span⟩, u, ?_, hgoes, ?_⟩
  · rw [Grammar.switchCase, Parser.bind_ok (Parser.peek_eq s), Parser.bind_ok hlabels]
    rcases hsign with rfl | rfl
    · have harrow : t.next.kind ≠ Sign.arrow := by
        rw [h.sign]
        exact nofun
      -- behind a colon there may be more statements, but the brace comes next
      have hmore : Grammar.caseGoesOn t.advance = .ok true t.advance := by
        rw [Grammar.caseGoesOn_eq, decide_eq_true]
        exact fun hends => Grammar.stmt_fails hends b u hstmt
      have hlast : Grammar.caseGoesOn u = .ok false u := by
        rw [Grammar.caseGoesOn_eq, decide_eq_false]
        exact not_not_intro (.inr (.inr (.inl hgoes.sign)))
      obtain ⟨rounds, hrounds⟩ := Nat.exists_eq_add_of_le' hrounds
      have hone := Parser.collectWhile_one rounds hmore
        (Parser.recovering_ok (Parser.map_ok some hstmt)) hlast
      rw [← hrounds] at hone
      rw [Parser.bind_ok (Parser.eat_no harrow)]
      dsimp only
      rw [if_neg nofun, Parser.bind_ok (Parser.discard_ok (Parser.expect_ok h.sign)),
        Parser.bind_ok hone]
      rfl
    · rw [Parser.bind_ok (Parser.eat_ok h.sign)]
      dsimp only
      rw [if_pos rfl, Parser.bind_ok hstmt]
      rfl
  · rw [SwitchCase.relabeled, Expr.allRelabeled_eq_map, Stmt.allRelabeled, Stmt.allRelabeled, hb]
    rfl

/-- Where labels end before an operator there is no group. -/
theorem switchCase_fails {s t : ParserState} {es : List Expr}
    (hlabels : Grammar.caseLabels (grammar m) s = .ok es t)
    (hoperator : (Grammar.Continuation.ofKind? t.next.kind).isSome) :
    (Grammar.switchCase (grammar m)).Fails s := by
  have hne (sign : Sign) (hsign : Grammar.Continuation.ofSign? sign = none) :
      t.next.kind ≠ sign := by
    intro hnext
    rw [hnext, Grammar.Continuation.ofKind?, hsign] at hoperator
    cases hoperator
  obtain ⟨e, hexpect⟩ := Parser.expect_no (hne .colon rfl)
  intro b u hrun
  rw [Grammar.switchCase, Parser.bind_ok (Parser.peek_eq s), Parser.bind_ok hlabels,
    Parser.bind_ok (Parser.eat_no (hne .arrow rfl))] at hrun
  dsimp only at hrun
  rw [if_neg nofun, Parser.bind_error (Parser.discard_error hexpect)] at hrun
  cases hrun

/-- The labels of a group. -/
theorem caseLabels (h : s.Along m (Keyword.kwCase.lexeme :: (labelWords label others ++
      sign.lexeme :: rest)))
    (hlabels : ∀ l ∈ label :: others, IsCaseLabel l)
    (hsign : sign = .colon ∨
      sign = .arrow ∧ StandsBeforeArrow ((label :: others).getLast (List.cons_ne_nil _ _)))
    (hrounds : others.length < (grammar m).rounds) :
    ∃ es t, Grammar.caseLabels (grammar m) s = .ok es t ∧
      t.LabelsEnd m (sign.lexeme :: rest) ((label :: others).mapM labelReading)
        (es.map (Expr.relabeled .erased)) := by
  have hdefault : s.next.kind ≠ Keyword.kwDefault := by
    rw [h.kind]
    exact nofun
  obtain ⟨es, t, hrun, hread⟩ := h.advance.labels hlabels hsign hrounds []
  refine ⟨es, t, ?_, hread⟩
  rw [Grammar.caseLabels, Parser.bind_ok (Parser.eat_no hdefault), if_neg nofun,
    Parser.bind_ok (Parser.discard_ok (Parser.expect_ok h.word))]
  exact hrun

end ParserState.Along

/-! ### A `switch` of one group -/

/-- The words of a `switch` over a name with one group, whose statement stands behind a sign. -/
def switchWords (x : Ident) (label : List Char) (others : List (List Char)) (sign : Sign)
    (body : List Char) : List Lexeme :=
  Keyword.kwSwitch.lexeme :: Sign.lparen.lexeme :: x.lexeme :: Sign.rparen.lexeme ::
    Sign.lbrace.lexeme :: Keyword.kwCase.lexeme :: (labelWords label others ++
      sign.lexeme :: ((tokenize body).lexemes ++ [Sign.rbrace.lexeme]))

namespace ParserState

variable {s : ParserState} {m : Nat} {x : Ident} {l : Lexeme} {ls : List Lexeme}

/-- A name in parentheses is a condition. -/
theorem Along.condition
    (h : s.Along m (Sign.lparen.lexeme :: x.lexeme :: Sign.rparen.lexeme :: ls)) :
    ∃ e t, Grammar.condition (grammar m) s = .ok e t ∧ t.Along m ls ∧
      e.relabeled .erased = .name ⟨x.name, .absent⟩ := by
  have hname := h.advance
  have hsecond : (s.advance.nth 1).kind = Sign.rparen := hname.shows.nth_kind 1
  have hexpr := Grammar.expr_of_name 0 (s.three_le_depth.trans h.depth) hname.kind
    (by rw [hsecond]; exact nofun) (by rw [hsecond]; exact nofun) (by rw [hsecond]; rfl)
  have htext : s.advance.next.text = x.name := congrArg Prod.snd hname.shows.next
  refine ⟨.name ⟨s.advance.next.text, s.advance.next.span⟩, _, ?_, hname.advance.advance, ?_⟩
  · have hclose := Parser.discard_ok (Parser.expect_ok hname.advance.sign)
    rw [Grammar.condition, Parser.bind_ok (Parser.discard_ok (Parser.expect_ok h.sign)),
      Parser.bind_ok hexpr, Parser.bind_ok hclose]
    rfl
  · rw [htext]
    rfl

variable {label body : List Char} {others : List (List Char)} {sign : Sign} {a : Stmt}

/-- Behind its condition, a `switch` reads groups up to the brace that closes it. -/
theorem Shows.switch_opened (h : s.Shows (switchWords x label others sign body))
    (hm : s.depth ≤ m) : ∃ e t, e.relabeled .erased = .name ⟨x.name, .absent⟩ ∧
      t.Along m (Keyword.kwCase.lexeme :: (labelWords label others ++
        sign.lexeme :: ((tokenize body).lexemes ++ [Sign.rbrace.lexeme]))) ∧
      (grammar (m + 1)).stmt s = (do
        let cases ← Parser.collectWhile (grammar m).rounds (Parser.before Sign.rbrace)
          (some <$> Grammar.switchCase (grammar m))
        discard (Parser.expect Sign.rbrace)
        return Stmt.switch e cases (← Parser.spanFrom s.next.span)) t := by
  have hnext : s.next.kind = Keyword.kwSwitch := congrArg Prod.fst h.next
  obtain ⟨e, t, hcondition, hopen, he⟩ := (h.along hm).condition
  refine ⟨e, t.advance, he, hopen.advance, ?_⟩
  change Grammar.stmt (grammar m) s = _
  rw [Grammar.stmt, Parser.bind_ok (Parser.peek_eq s), hnext]
  change Grammar.switch (grammar m) s = _
  rw [Grammar.switch, Parser.bind_ok (Parser.expect_ok hnext), Parser.bind_ok hcondition,
    Parser.bind_ok (Parser.discard_ok (Parser.expect_ok hopen.sign))]

/-- **A `switch` is read as the parts of its group alone are read**, whatever the sign in it. -/
theorem Shows.stmt_switch (h : s.Shows (switchWords x label others sign body))
    (hlabels : ∀ l ∈ label :: others, IsCaseLabel l)
    (hsign : sign = .colon ∨
      sign = .arrow ∧ StandsBeforeArrow ((label :: others).getLast (List.cons_ne_nil _ _)))
    (hm : s.depth + others.length ≤ m)
    (hbody : reading (fun g => g.stmt) Stmt.relabeled body = some a) :
    (∀ es, (label :: others).mapM labelReading = some es → ∃ b t,
      (grammar (m + 1)).stmt s = .ok b t ∧ t.Shows [] ∧
        b.relabeled .erased = .switch (.name ⟨x.name, .absent⟩) [⟨es, [a], .absent⟩] .absent) ∧
    ((label :: others).mapM labelReading = none → (grammar (m + 1)).stmt.Fails s) := by
  have hdepth := s.three_le_depth
  have hrounds : (grammar m).rounds = m - 1 := Grammar.rounds_grammar m
  obtain ⟨e, t, he, hcase, hswitch⟩ := h.switch_opened (Nat.le_of_add_right_le hm)
  have hmore : Parser.before Sign.rbrace t = .ok true t := by
    rw [Course.before_eq, hcase.word]
    rfl
  obtain ⟨es, u, hlabelsRun, hread⟩ := hcase.caseLabels hlabels hsign (by omega)
  rcases hread with ⟨hread, hgoes⟩ | ⟨hread, hoperator⟩
  · refine ⟨fun es' hes' => ?_, fun hnone => absurd (hread.symm.trans hnone) nofun⟩
    obtain rfl := Option.some.inj (hread.symm.trans hes')
    obtain ⟨b, v, hrun, hclose, hb⟩ := Along.switchCase_reads hlabelsRun hgoes
      (hsign.imp_right And.left) (by omega) hbody
    -- one round reads the group, and the next one stops at the brace
    have hlast : Parser.before Sign.rbrace v = .ok false v := by
      rw [Course.before_eq, hclose.sign]
      rfl
    obtain ⟨rounds, hrounds⟩ : ∃ k, (grammar m).rounds = k + 2 := ⟨m - 3, by omega⟩
    have hone := Parser.collectWhile_one rounds hmore (Parser.map_ok some hrun) hlast
    rw [← hrounds] at hone
    refine ⟨.switch e [b] (s.next.span.merge v.advance.previous.span), v.advance, ?_,
      hclose.advance.shows, ?_⟩
    · rw [hswitch, Parser.bind_ok hone,
        Parser.bind_ok (Parser.discard_ok (Parser.expect_ok hclose.sign))]
      rfl
    · rw [Stmt.relabeled, he, SwitchCase.allRelabeled, SwitchCase.allRelabeled, hb]
      rfl
  · refine ⟨fun es' hes' => absurd (hread.symm.trans hes') nofun, fun _ => ?_⟩
    have hfails : (some <$> Grammar.switchCase (grammar m)).Fails t := by
      rw [map_eq_pure_bind]
      exact (Along.switchCase_fails hlabelsRun hoperator).bind
    intro b v hrun
    rw [hswitch] at hrun
    exact (Parser.collectWhile_fails _ hmore hfails).bind b v hrun

end ParserState

section

variable {x : Ident} {label body source : List Char} {others : List (List Char)} {sign : Sign}
  {a : Stmt}

theorem areText_switchWords (hlabels : ∀ l ∈ label :: others, IsCaseLabel l)
    (hbody : reading (fun g => g.stmt) Stmt.relabeled body = some a) :
    Lexeme.AreText (switchWords x label others sign body) := by
  have hlabel (l : List Char) (hl : l ∈ label :: others) :
      Lexeme.AreText (tokenize l).lexemes := by
    obtain ⟨e, he⟩ := Option.isSome_iff_exists.mp (hlabels l hl).read
    exact (alone_expr 0).areText (congrArg (Option.map (Expr.relabeled .erased)) he)
  obtain ⟨hfirst, hfurther⟩ := List.forall_mem_cons.mp hlabel
  have hwords : Lexeme.AreText (labelWords label others) :=
    hfirst.append (.flatMap fun l hl => .cons rfl (hfurther l hl))
  have hbehind : Lexeme.AreText ((tokenize body).lexemes ++ [Sign.rbrace.lexeme]) :=
    (alone_stmt.areText hbody).append (.cons rfl nofun)
  exact .cons rfl (.cons rfl (.cons rfl (.cons rfl (.cons rfl (.cons rfl
    (hwords.append (.cons rfl hbehind)))))))

/-- **What is read of a `switch` with one group** is made of what is read of its labels and its
statement. -/
theorem reading_switch (hwords : (tokenize source).lexemes = switchWords x label others sign body)
    (hlabels : ∀ l ∈ label :: others, IsCaseLabel l)
    (hsign : sign = .colon ∨
      sign = .arrow ∧ StandsBeforeArrow ((label :: others).getLast (List.cons_ne_nil _ _)))
    (hbody : reading (fun g => g.stmt) Stmt.relabeled body = some a) :
    reading (fun g => g.stmt) Stmt.relabeled source = ((label :: others).mapM labelReading).map
      fun es => .switch (.name ⟨x.name, .absent⟩) [⟨es, [a], .absent⟩] .absent := by
  have htext : Lexeme.AreText (tokenize source).lexemes :=
    hwords ▸ areText_switchWords hlabels hbody
  have hs := ParserState.shows_ofSource htext
  have hm : (ParserState.ofSource source 0).depth
      ≤ (ParserState.ofSource source 0).depth + others.length + 1 := by omega
  obtain ⟨hsome, hnone⟩ := ParserState.Shows.stmt_switch (hwords ▸ hs) hlabels hsign le_rfl hbody
  cases hread : (label :: others).mapM labelReading with
  | none =>
    refine Option.eq_none_iff_forall_ne_some.mpr fun b hb => ?_
    obtain ⟨b', t, hrun, -⟩ := (alone_stmt.reading_iff htext hs hm).mp hb
    exact hnone hread b' t hrun
  | some es =>
    obtain ⟨b, t, hrun, ht, hb⟩ := hsome es hread
    exact (alone_stmt.reading_iff htext hs hm).mpr ⟨b, t, hrun, ht, hb⟩

end

/-- **Before an arrow and before a colon the same labels are read**, and the same statement behind
them, if the last label is only a name, or if it does not end with a name or with parentheses. -/
theorem parseStmt_arrow_colon {x : Ident} {label body arrow colon : List Char}
    {others : List (List Char)} (hlabels : ∀ l ∈ label :: others, IsCaseLabel l)
    (hlast : StandsBeforeArrow ((label :: others).getLast (List.cons_ne_nil _ _)))
    (hbody : (parseStmt body).toOption.isSome)
    (harrow : (tokenize arrow).lexemes = switchWords x label others .arrow body)
    (hcolon : (tokenize colon).lexemes = switchWords x label others .colon body) :
    (parseStmt arrow).toOption.map (Stmt.relabeled .erased)
      = (parseStmt colon).toOption.map (Stmt.relabeled .erased) := by
  obtain ⟨b, hb⟩ := Option.isSome_iff_exists.mp hbody
  have hread : reading (fun g => g.stmt) Stmt.relabeled body = some (b.relabeled .erased) :=
    congrArg (Option.map _) hb
  exact (reading_switch harrow hlabels (.inr ⟨rfl, hlast⟩) hread).trans
    (reading_switch hcolon hlabels (.inl rfl) hread).symm

theorem parseStmt_arrow_colon_call :
    (∀ l ∈ ["X".toList, "1 + f(X)".toList], IsCaseLabel l) ∧
    StandsBeforeArrow "1 + f(X)".toList ∧ (parseStmt "a();".toList).toOption.isSome ∧
    (parseStmt "switch (x) { case X, 1 + f(X) -> a(); }".toList).toOption.isSome ∧
    (parseStmt "switch (x) { case X, 1 + f(X) -> a(); }".toList).toOption.map
        (Stmt.relabeled .erased)
      = (parseStmt "switch (x) { case X, 1 + f(X) : a(); }".toList).toOption.map
        (Stmt.relabeled .erased) := by
  have hlabels : ∀ l ∈ ["X".toList, "1 + f(X)".toList], IsCaseLabel l := by
    rintro l (_ | ⟨_, _ | ⟨_, ⟨⟩⟩⟩) <;> exact ⟨by decide +kernel, by decide +kernel⟩
  have hlast : StandsBeforeArrow "1 + f(X)".toList := .inr (by decide +kernel)
  have hbody : (parseStmt "a();".toList).toOption.isSome := by decide +kernel
  have harrow : (tokenize "switch (x) { case X, 1 + f(X) -> a(); }".toList).lexemes
      = switchWords ⟨"x", .absent⟩ "X".toList ["1 + f(X)".toList] .arrow "a();".toList := by
    decide +kernel
  have hcolon : (tokenize "switch (x) { case X, 1 + f(X) : a(); }".toList).lexemes
      = switchWords ⟨"x", .absent⟩ "X".toList ["1 + f(X)".toList] .colon "a();".toList := by
    decide +kernel
  exact ⟨hlabels, hlast, hbody, by decide +kernel,
    parseStmt_arrow_colon hlabels hlast hbody harrow hcolon⟩

/-- **Before an arrow a label cannot end with a name or with parentheses**, unless it is only a
name: these are taken for the parameters of a lambda. -/
theorem parseStmt_label_rejected :
    (parseStmt "switch (x) { case 1 + X : a(); }".toList).toOption.isSome ∧
      (parseStmt "switch (x) { case 1 + X -> a(); }".toList).toOption.isSome = false ∧
    (parseStmt "switch (x) { case -X : a(); }".toList).toOption.isSome ∧
      (parseStmt "switch (x) { case -X -> a(); }".toList).toOption.isSome = false ∧
    (parseStmt "switch (x) { case (1) : a(); }".toList).toOption.isSome ∧
      (parseStmt "switch (x) { case (1) -> a(); }".toList).toOption.isSome = false := by
  decide +kernel

end JavaGraft

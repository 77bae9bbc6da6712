import JavaGraft.Proofs.Exchange.Words
import JavaGraft.Proofs.Grammar.Tightness

/-!
# Labels alone and among others

A label of a `switch` is read with more power than an expression on its own. So of the text of an
expression either all is read, or reading stops before an operator that does not bind tightly enough
(`JavaGraft.labelReading_reads`). Among other words it is the same, since an operator is a word of
the label itself (`JavaGraft.ParserState.Along.caseLabel`). But before an arrow a name or
parentheses at the end of a label would be taken for the parameters of a lambda, and there is a rule
of its own only for a name that is the whole label.
-/

namespace JavaGraft

/-! ### A name alone -/

namespace Grammar

open JavaGraft.Parser

variable {n : Nat} {s : ParserState}

/-- A name that is not called is an operand. -/
theorem operand_of_name {g : Rules} (hnext : s.next.kind = .identifier)
    (harrow : (s.nth 1).kind ≠ Sign.arrow) (hopen : (s.nth 1).kind ≠ Sign.lparen) :
    operand g s = .ok (.name ⟨s.next.text, s.next.span⟩) s.advance := by
  rw [Expr.operand_of_identifier hnext harrow]
  exact Expr.callIfArgs_of_ne (by rwa [s.next_advance]) _

/-- A name behind which nothing goes on is the whole expression. -/
theorem expr_of_name (power : Nat) (hn : 3 ≤ n) (hnext : s.next.kind = .identifier)
    (harrow : (s.nth 1).kind ≠ Sign.arrow) (hopen : (s.nth 1).kind ≠ Sign.lparen)
    (hstop : Continuation.ofKind? (s.nth 1).kind = none) :
    (grammar n).expr power s = .ok (.name ⟨s.next.text, s.next.span⟩) s.advance := by
  obtain ⟨n, rfl⟩ : ∃ k, n = k + 3 := ⟨n - 3, by omega⟩
  refine (bind_ok (operand_of_name hnext harrow hopen)).trans (operatorsWithin_stop fun c hc => ?_)
  rw [s.next_advance, hstop] at hc
  cases hc

end Grammar

/-! ### Texts of labels -/

/-- **What is read of a text as a label**, spans and the numbers of calls aside. -/
def labelReading (source : List Char) : Option Expr :=
  reading (fun g => g.expr (Power.conditional + 1)) Expr.relabeled source

/-- A text that is an expression, but no lambda with a single parameter and no parentheses. -/
structure IsCaseLabel (source : List Char) : Prop where
  read : (parseExpr source).toOption.isSome
  second : (tokenize source).lexemes[1]?.map Prod.fst ≠ some (.sign .arrow)

/-- A label that is only a name, or that does not end with a name or with parentheses. -/
def StandsBeforeArrow (source : List Char) : Prop :=
  (∃ name, (tokenize source).lexemes = [(.identifier, name)]) ∨
    (parseExpr source).toOption.any Expr.isClosed

theorem Expr.isClosed_relabeled (ρ : Relabeling) : (e : Expr) →
    (e.relabeled ρ).isClosed = e.isClosed
  | .unary _ e _ | .cast _ e _ | .lambda _ e _ => e.isClosed_relabeled ρ
  | .binary _ _ e _ | .assign _ _ e _ | .conditional _ _ e _ => e.isClosed_relabeled ρ
  | .name _ | .paren _ _ | .literal _ _ | .this _ | .super _ | .field _ _ _ | .call _ _ _ _
  | .new _ _ _ | .newAnonymous _ _ _ _ | .newArray _ _ _ | .newArrayOf _ _ _ _ _
  | .arrayInit _ _ | .index _ _ _ | .update _ _ _ | .instanceOf _ _ _ _
  | .classLit _ _ | .blockLambda _ _ _ | .methodRef _ _ _ => rfl

theorem Expr.tightness_relabeled (ρ : Relabeling) (e : Expr) :
    (e.relabeled ρ).tightness = e.tightness := by
  cases e <;> rfl

/-! ### One label -/

/-- An expression that binds more tightly than a conditional is read as a label. Of any other one
only a part is, up to an operator. -/
theorem labelReading_reads {source : List Char} {a : Expr}
    (hread : reading (fun g => g.expr 0) Expr.relabeled source = some a) {s : ParserState} {m : Nat}
    (hs : s.Shows (tokenize source).lexemes) (hm : s.depth ≤ m) :
    ∃ b t, (grammar m).expr (Power.conditional + 1) s = .ok b t ∧ t.errors = [] ∧
      t.finish.kind = .endOfSource ∧
      (Power.conditional < a.tightness ∧ labelReading source = some a ∧ b.relabeled .erased = a ∧
          t.Shows [] ∨
        a.tightness ≤ Power.conditional ∧ labelReading source = none ∧
          (Grammar.Continuation.ofKind? t.next.kind).isSome) := by
  have htext := (alone_expr 0).areText hread
  obtain ⟨e, u, hrun, hu, rfl⟩ := ((alone_expr 0).reading_iff htext hs hm).mp hread
  obtain ⟨b, t, htight, hlater, hsame⟩ :=
    Grammar.expr_of_expr_zero (Power.conditional + 1) (by decide) hs.finish hrun
  -- what binds as a label is read of the text alone as it is read here
  have hlabel (a : Expr) : labelReading source = some a ↔ t.Shows [] ∧ b.relabeled .erased = a := by
    refine ((alone_expr _).reading_iff htext hs hm).trans ?_
    refine ⟨?_, fun ⟨ht, hb⟩ => ⟨b, t, htight, ht, hb⟩⟩
    rintro ⟨b', t', hrun', ht', hb'⟩
    cases htight.symm.trans hrun'
    exact ⟨ht', hb'⟩
  rw [e.tightness_relabeled]
  refine ⟨b, t, htight, List.prefix_nil.mp (hu.errors ▸ hlater.onward.errors),
    hlater.onward.finish ▸ hu.finish, ?_⟩
  rcases hsame with ⟨hbinds, rfl, rfl⟩ | ⟨hloose, hoperator⟩
  · exact .inl ⟨hbinds, (hlabel _).mpr ⟨hu, rfl⟩, rfl, hu⟩
  · refine .inr ⟨Nat.le_of_lt_succ hloose, ?_, hoperator⟩
    refine Option.eq_none_iff_forall_ne_some.mpr fun a ha => ?_
    rw [((hlabel a).mp ha).1.kind_end] at hoperator
    cases hoperator

/-- **An expression is a label** if and only if it binds more tightly than a conditional. -/
theorem labelReading_eq {source : List Char} {a : Expr}
    (hread : reading (fun g => g.expr 0) Expr.relabeled source = some a) :
    labelReading source = if Power.conditional < a.tightness then some a else none := by
  have hs := ParserState.shows_ofSource ((alone_expr 0).areText hread)
  obtain ⟨b, t, -, -, -, hlabel⟩ := labelReading_reads hread hs le_rfl
  rcases hlabel with ⟨htight, hlabel, -, -⟩ | ⟨hloose, hlabel, -⟩
  · rw [hlabel, if_pos htight]
  · rw [hlabel, if_neg (Nat.not_lt.mpr hloose)]

theorem IsCaseLabel.exists_reading {source : List Char} (h : IsCaseLabel source) :
    ∃ e, parseExpr source = .ok e ∧
      reading (fun g => g.expr 0) Expr.relabeled source = some (e.relabeled .erased) := by
  cases hparse : parseExpr source with
  | error errors =>
    have hread := h.read
    rw [hparse] at hread
    cases hread
  | ok e => exact ⟨e, rfl, reading_eq_some.mpr ⟨e, hparse, rfl⟩⟩

/-- A name behind which nothing goes on is the whole label. -/
theorem IsCaseLabel.eq_name {source : List Char} (h : IsCaseLabel source) {s : ParserState}
    {m : Nat} (hs : s.Shows (tokenize source).lexemes) (hm : s.depth ≤ m)
    (hnext : s.next.kind = .identifier) (hend : (s.nth 1).kind.isEnd)
    (harrow : (s.nth 1).kind ≠ Sign.arrow) :
    labelReading source = some (.name ⟨s.next.text, .absent⟩) ∧ s.advance.Shows [] := by
  obtain ⟨e, -, he⟩ := h.exists_reading
  obtain ⟨b, t, hrun, -, -, hread⟩ := labelReading_reads he hs hm
  have hstop := Grammar.ofKind?_end hend
  have hopen : (s.nth 1).kind ≠ Sign.lparen := by
    intro hopen
    rw [hopen] at hend
    cases hend
  have hname := Grammar.expr_of_name (Power.conditional + 1) (s.three_le_depth.trans hm) hnext
    harrow hopen hstop
  cases hrun.symm.trans hname
  rcases hread with ⟨-, hread, hname, ht⟩ | ⟨-, -, hoperator⟩
  · rw [← hname] at hread
    exact ⟨hread, ht⟩
  · rw [s.next_advance, hstop] at hoperator
    cases hoperator

/-! ### Labels among others -/

/-- The words of labels, with commas between them. -/
def labelWords (label : List Char) (others : List (List Char)) : List Lexeme :=
  (tokenize label).lexemes ++
    others.flatMap fun other => Sign.comma.lexeme :: (tokenize other).lexemes

/-- Where labels have been read: before the words behind them if each is a label, and otherwise
before an operator. -/
def ParserState.LabelsEnd {α : Type} (t : ParserState) (m : Nat) (rest : List Lexeme)
    (value : Option α) (found : α) : Prop :=
  value = some found ∧ t.Along m rest ∨
    value = none ∧ (Grammar.Continuation.ofKind? t.next.kind).isSome

theorem ne_comma_of_operator {t : ParserState}
    (h : (Grammar.Continuation.ofKind? t.next.kind).isSome) : t.next.kind ≠ Sign.comma := by
  intro hcomma
  rw [hcomma] at h
  cases h

theorem ParserState.LabelsEnd.ne_comma {α : Type} {t : ParserState} {m : Nat} {sign : Sign}
    {rest : List Lexeme} {value : Option α} {found : α}
    (h : t.LabelsEnd m (sign.lexeme :: rest) value found) (hsign : sign ≠ .comma) :
    t.next.kind ≠ Sign.comma := by
  rcases h with ⟨-, hgoes⟩ | ⟨-, hoperator⟩
  · rw [hgoes.kind]
    exact fun h => hsign (TokenKind.sign.inj h)
  · exact ne_comma_of_operator hoperator

/-- A loop over labels ends behind one without a comma. -/
theorem separated_last {item : Parser Expr} {s t : ParserState} {b : Expr}
    (hrun : item s = .ok b t) (hnext : t.next.kind ≠ Sign.comma) (found : List Expr)
    (rounds : Nat) : Parser.iterate (Parser.oneSeparated Sign.comma item) (rounds + 1) found s
      = .ok (found.reverse ++ [b]) t := by
  rw [Parser.iterate_inr (Parser.oneSeparated_last found hrun hnext), List.reverse_cons]

namespace ParserState.Along

variable {s : ParserState} {m : Nat} {source : List Char} {sign : Sign} {rest : List Lexeme}

/-- A name is a label before any of the signs behind labels. -/
theorem caseLabel_name (hlabel : IsCaseLabel source)
    (h : s.Along m ((tokenize source).lexemes ++ sign.lexeme :: rest))
    (hnext : s.next.kind = .identifier)
    (hsecond : (s.nth 1).kind = Sign.arrow ∨ (s.nth 1).kind = Sign.comma ∨
      (s.nth 1).kind = Sign.colon) :
    labelReading source = some (.name ⟨s.next.text, .absent⟩) ∧
      s.advance.Along m (sign.lexeme :: rest) := by
  obtain ⟨x, y, hamong, hdepth⟩ := h.among
  have halone := hamong.alone
  have hwords : x.map Token.lexeme = (tokenize source).lexemes := halone.ahead
  have hkind (n : Nat) := h.shows.nth_kind n
  rw [← hwords] at hkind
  cases x with
  | nil =>
    have hsign : s.next.kind = sign := hkind 0
    rw [hnext] at hsign
    cases hsign
  | cons v z =>
    have hfirst : (s.having (v :: z)).next = s.next := (next_of_ahead hamong.ahead).symm
    -- alone, a name before an arrow would be the parameter of a lambda
    have hlater : ((s.having (v :: z)).nth 1).kind.isEnd ∧
        ((s.having (v :: z)).nth 1).kind ≠ Sign.arrow := by
      cases z with
      | nil =>
        have hend : ((s.having [v]).nth 1).kind = .endOfSource := h.shows.finish
        rw [hend]
        exact ⟨rfl, nofun⟩
      | cons w ws =>
        have hw : ((s.having (v :: w :: ws)).nth 1).kind = w.kind := rfl
        rw [hw]
        have harrow : w.kind ≠ Sign.arrow := by
          intro harrow
          refine hlabel.second ?_
          rw [← hwords]
          exact congrArg some harrow
        rw [show (s.nth 1).kind = w.kind from hkind 1] at hsecond
        rcases hsecond with hsecond | hsecond | hsecond
        · exact absurd hsecond harrow
        · exact ⟨hsecond ▸ rfl, harrow⟩
        · exact ⟨hsecond ▸ rfl, harrow⟩
    obtain ⟨hread, hnil⟩ := hlabel.eq_name halone hdepth (hfirst ▸ hnext) hlater.1 hlater.2
    rw [hfirst] at hread
    obtain rfl : z = [] := List.map_eq_nil_iff.mp hnil.ahead
    rw [← hwords] at h
    exact ⟨hread, h.advance⟩

/-- **An expression that is read as a label** is read as its text alone is read, if the sign behind
it is no arrow, or if it does not end with a name or with parentheses. -/
theorem labelExpr {a : Expr} (hread : reading (fun g => g.expr 0) Expr.relabeled source = some a)
    (h : s.Along m ((tokenize source).lexemes ++ sign.lexeme :: rest))
    (hsign : sign = .comma ∨ sign = .colon ∨ sign = .arrow ∧ a.isClosed) :
    ∃ b t, (grammar m).expr (Power.conditional + 1) s = .ok b t ∧
      t.LabelsEnd m (sign.lexeme :: rest) (labelReading source) (b.relabeled .erased) := by
  obtain ⟨x, y, hamong, hdepth⟩ := h.among
  obtain ⟨b, u, hrun, herrors, hfinish, hlabel⟩ := labelReading_reads hread hamong.alone hdepth
  have hrest : Lexeme.AreEnd (sign.lexeme :: rest) := by
    rintro _ ⟨⟩
    rcases hsign with rfl | rfl | ⟨rfl, -⟩ <;> rfl
  rcases hlabel with ⟨-, hlabel, rfl, hu⟩ | ⟨-, hlabel, hoperator⟩
  · have hallowed : (Exchange.ofEnd y (hamong.isEnd hrest)).allows 0 b := by
      rw [Exchange.allows, Exchange.hasArrow_ofEnd, hamong.firstKind]
      rcases hsign with rfl | rfl | ⟨rfl, hclosed⟩
      · rfl
      · rfl
      · rw [← b.isClosed_relabeled .erased, hclosed, Bool.or_true]
    obtain ⟨hrun', hgoes⟩ := h.reads hamong hrest ((carry_grammar _ m).expr 0 _)
      (Parser.only_ok hrun hallowed) herrors (.ofEnd _)
    rw [hu.ahead] at hgoes
    exact ⟨b, _, (Parser.of_only hrun').1, .inl ⟨hlabel, hgoes⟩⟩
  · -- there is room before the operator
    have hroom : u.ahead ≠ [] := by
      intro hnil
      rw [next_of_ahead_nil hnil, hfinish] at hoperator
      cases hoperator
    obtain ⟨hrun', -⟩ := h.reads hamong hrest ((carry_grammar _ m).inner _) hrun herrors hroom
    refine ⟨b, _, hrun', .inr ⟨hlabel, ?_⟩⟩
    obtain ⟨v, z, hahead⟩ := List.exists_cons_of_ne_nil hroom
    rw [hahead]
    rwa [next_of_ahead hahead] at hoperator

/-- **A label is read as its text alone is read**, if the sign behind it is no arrow, or if it may
stand before an arrow. -/
theorem caseLabel (hlabel : IsCaseLabel source)
    (h : s.Along m ((tokenize source).lexemes ++ sign.lexeme :: rest))
    (hsign : sign = .comma ∨ sign = .colon ∨ sign = .arrow ∧ StandsBeforeArrow source) :
    ∃ b t, Grammar.caseLabel (grammar m) s = .ok b t ∧
      t.LabelsEnd m (sign.lexeme :: rest) (labelReading source) (b.relabeled .erased) := by
  have hcase : Grammar.caseLabel (grammar m) s = if s.next.kind = .identifier ∧
      ((s.nth 1).kind = Sign.arrow ∨ (s.nth 1).kind = Sign.comma ∨ (s.nth 1).kind = Sign.colon)
      then (do return .name (← Parser.identifier) : Parser Expr) s
      else (grammar m).expr (Power.conditional + 1) s := by
    rw [Grammar.caseLabel, Parser.bind_ok (Parser.get_eq s), Parser.bind_ok (Parser.get_eq s)]
    exact apply_ite (fun p : Parser Expr => p s) _ _ _
  split_ifs at hcase with hname
  · obtain ⟨hread, hgoes⟩ := h.caseLabel_name hlabel hname.1 hname.2
    refine ⟨.name ⟨s.next.text, s.next.span⟩, _, ?_, .inl ⟨hread, hgoes⟩⟩
    rw [hcase, Parser.bind_ok (Parser.identifier_ok hname.1)]
    rfl
  · obtain ⟨e, hparse, hread⟩ := hlabel.exists_reading
    rw [hcase]
    refine h.labelExpr hread (hsign.imp_right (Or.imp_right fun ⟨harrow, hstands⟩ => ?_))
    refine ⟨harrow, ?_⟩
    rcases hstands with ⟨name, hwords⟩ | hclosed
    · -- a name before an arrow has been read already
      rw [hwords, harrow] at h
      exact absurd ⟨h.kind, .inl (h.shows.nth_kind 1)⟩ hname
    · rw [hparse] at hclosed
      rwa [e.isClosed_relabeled]

/-- **Labels are read as their texts alone are read**, with commas between them. -/
theorem labels {label : List Char} {others : List (List Char)}
    (hlabels : ∀ l ∈ label :: others, IsCaseLabel l)
    (hsign : sign = .colon ∨
      sign = .arrow ∧ StandsBeforeArrow ((label :: others).getLast (List.cons_ne_nil _ _)))
    (h : s.Along m (labelWords label others ++ sign.lexeme :: rest)) {rounds : Nat}
    (hrounds : others.length < rounds) (found : List Expr) :
    ∃ es t, Parser.iterate (Parser.oneSeparated Sign.comma (Grammar.caseLabel (grammar m))) rounds
        found s = .ok (found.reverse ++ es) t ∧
      t.LabelsEnd m (sign.lexeme :: rest) ((label :: others).mapM labelReading)
        (es.map (Expr.relabeled .erased)) := by
  obtain ⟨rounds, rfl⟩ := Nat.exists_eq_succ_of_ne_zero (Nat.ne_zero_of_lt hrounds)
  induction others generalizing label found rounds s with
  | nil =>
    rw [labelWords, List.flatMap_nil, List.append_nil] at h
    obtain ⟨b, t, hrun, hread⟩ := h.caseLabel (hlabels _ (List.mem_cons_self ..)) (.inr hsign)
    refine ⟨[b], t, separated_last hrun (hread.ne_comma ?_) found rounds, ?_⟩
    · rcases hsign with rfl | ⟨rfl, -⟩ <;> exact nofun
    · rcases hread with ⟨hread, hgoes⟩ | ⟨hread, hoperator⟩
      · exact .inl ⟨by simp [hread], hgoes⟩
      · exact .inr ⟨by simp [hread], hoperator⟩
  | cons other others ih =>
    rw [labelWords, List.flatMap_cons, List.append_assoc, List.cons_append, List.cons_append,
      ← labelWords] at h
    obtain ⟨hlabel, hothers⟩ := List.forall_mem_cons.mp hlabels
    obtain ⟨b, t, hrun, ⟨hread, hgoes⟩ | ⟨hread, hoperator⟩⟩ := h.caseLabel hlabel (.inl rfl)
    · obtain ⟨rounds, rfl⟩ : ∃ k, rounds = k + 1 := ⟨rounds - 1, by
        rw [List.length_cons] at hrounds; omega⟩
      rw [List.getLast_cons (List.cons_ne_nil _ _)] at hsign
      obtain ⟨es, u, hmore, hread'⟩ := ih hothers hsign hgoes.advance (b :: found) rounds
        (by rw [List.length_cons] at hrounds; omega)
      refine ⟨b :: es, u, ?_, ?_⟩
      · rw [Parser.iterate_inl (Parser.oneSeparated_more found hrun hgoes.sign), hmore,
          List.reverse_cons, List.append_assoc, List.singleton_append]
      · rcases hread' with ⟨hread', hgoes'⟩ | ⟨hread', hoperator⟩
        · exact .inl ⟨by rw [List.mapM_cons, hread, hread']; rfl, hgoes'⟩
        · exact .inr ⟨by rw [List.mapM_cons, hread, hread']; rfl, hoperator⟩
    · have hstop := separated_last hrun (ne_comma_of_operator hoperator) found rounds
      refine ⟨[b], t, hstop, .inr ⟨?_, hoperator⟩⟩
      rw [List.mapM_cons, hread]
      rfl

end ParserState.Along

end JavaGraft

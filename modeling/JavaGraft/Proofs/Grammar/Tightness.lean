import JavaGraft.Proofs.Course.Declarations
import JavaGraft.Proofs.Grammar.Precedence

/-!
# What is read with a power

The rule `expr` is given the least power that an operator may have outside of parentheses. The power
decides where reading stops, and how tightly binds what has been read: with a power that is not
above that of `instanceof`, the rule reads what it reads with power 0 if this binds tightly enough,
and otherwise it stops earlier, before an operator that is too loose
(`JavaGraft.Grammar.expr_of_expr_zero`).

The reason is that operators come in order. An operator reads its right operand with a power that
leaves no operator tighter than itself behind it, so once an operator has been taken that is too
loose, every further one is, and the outermost operator of the result is the last one.
-/

namespace JavaGraft

open JavaGraft.Parser

/-! ### What parsers return -/

/-- What is known of the result of a parser, and of the state behind it. -/
def Parser.Returns {α : Type} (p : Parser α) (good : α → ParserState → Prop) : Prop :=
  ∀ s a t, p s = .ok a t → good a t

namespace Parser.Returns

variable {α β γ : Type} {good : α → ParserState → Prop}

theorem pure {a : α} (h : ∀ s, good a s) : Returns (pure a) good := by
  rintro s _ t ⟨⟩
  exact h s

theorem throw {e : Failure} : Returns (throw e : Parser α) good := fun _ _ _ h => nomatch h

theorem reject {fault : ParseFault} {span : Span} : Returns (reject fault span) good := throw

/-- Only the last parser decides. -/
theorem bind {p : Parser β} {f : β → Parser α} (h : ∀ b, Returns (f b) good) :
    Returns (p >>= f) good := by
  intro s a t hrun
  obtain ⟨b, u, -, hrun⟩ := exists_of_bind_ok hrun
  exact h b u a t hrun

theorem rejectNext {fault : TokenKind → ParseFault} : Returns (rejectNext fault) good :=
  .bind fun _ => reject

theorem ite {P : Prop} [Decidable P] {p q : Parser α} (hp : Returns p good)
    (hq : Returns q good) : Returns (if P then p else q) good := by
  split
  · exact hp
  · exact hq

/-- A result that is given on, behind which nothing is read. -/
theorem wrap {p : Parser β} {f : β → α} (h : Returns p fun b s => good (f b) s) :
    Returns (p >>= fun b => Pure.pure (f b)) good := by
  intro s a t hrun
  obtain ⟨b, u, hb, hrun⟩ := exists_of_bind_ok hrun
  cases hrun
  exact h s b _ hb

end Parser.Returns

/-- Nothing of at least such a power goes on here. -/
def ParserState.StopsAt (s : ParserState) (power : Nat) : Prop :=
  ∀ c, Grammar.Continuation.ofKind? s.next.kind = some c → c.power < power

namespace Grammar

variable {g : Rules} {power rounds : Nat} {left e : Expr} {s t : ParserState}

/-! ### How tightly parts of an expression bind -/

/-- How tightly the result of a parser binds. -/
abbrev Binds (p : Parser Expr) (good : Nat → Prop) : Prop := p.Returns fun e _ => good e.tightness

section Parts

variable {good : Nat → Prop} (hgood : good Power.access)

include hgood

theorem binds_callIfArgs (hcallee : e.tightness = Power.access) (start : Span) :
    Binds (callIfArgs g e start) good :=
  .bind fun _ => .ite (.bind fun _ => .bind fun _ => .bind fun _ => .pure fun _ => hgood)
    (.pure fun _ => hcallee ▸ hgood)

theorem binds_memberAccess (left : Expr) : Binds (memberAccess g left) good := by
  refine .bind fun _ => .bind fun _ => .ite ?_ (.bind fun _ => .ite ?_ ?_)
  · cases chainType? left 0 with
    | none => exact .reject
    | some t => exact .bind fun _ => .pure fun _ => hgood
  · exact .bind fun _ => .pure fun _ => hgood
  · exact .bind fun _ => .bind fun _ => binds_callIfArgs hgood rfl _

theorem binds_indexing (left : Expr) : Binds (indexing g left) good := by
  refine .bind fun _ => .ite (.bind fun n => .bind fun _ => .bind fun _ => ?_) ?_
  · cases chainType? left n with
    | none => exact .reject
    | some t => exact .bind fun _ => .pure fun _ => hgood
  · exact .bind fun _ => .bind fun _ => .bind fun _ => .pure fun _ => hgood

theorem binds_methodRef (left : Expr) : Binds (methodRef left) good :=
  .bind fun _ => .bind fun _ => .ite (.bind fun _ => .pure fun _ => hgood) .rejectNext

theorem binds_creation : Binds (creation g) good := by
  refine .bind fun _ => .bind fun _ => .bind fun _ => .bind fun _ => .ite ?_ ?_
  · refine .bind fun _ => .bind fun _ => .ite ?_ ?_
    · exact .bind fun _ => .bind fun _ => .pure fun _ => hgood
    · exact .bind fun _ => .pure fun _ => hgood
  · refine .bind fun _ => .bind fun _ => .ite ?_ ?_
    · exact .bind fun _ => .bind fun _ => .pure fun _ => hgood
    · exact .bind fun _ => .pure fun _ => hgood

theorem binds_lambda : Binds (lambda g) good := by
  refine .bind fun _ => .bind fun _ => .bind fun _ => .bind fun _ => .ite ?_ ?_
  · exact .bind fun _ => .bind fun _ => .pure fun _ => hgood
  · exact .bind fun _ => .bind fun _ => .pure fun _ => hgood

theorem binds_literal (kind : LiteralKind) : Binds (literal kind) good := by
  refine .bind fun t => ?_
  cases Literal.ofText kind t.text.toList with
  | ok value => exact .pure fun _ => hgood
  | error fault => exact .reject

theorem binds_wordOperand (word : Keyword) : Binds (wordOperand g word) good := by
  unfold wordOperand
  split
  · exact .bind fun _ => .pure fun _ => hgood
  · exact .bind fun _ => binds_callIfArgs hgood rfl _
  · exact .bind fun _ => binds_callIfArgs hgood rfl _
  · exact binds_creation hgood
  · refine .ite ?_ .rejectNext
    exact .bind fun _ => .bind fun _ => .bind fun _ => .bind fun _ => .bind fun _ =>
      .pure fun _ => hgood

end Parts

/-- **An operand** binds at least as tightly as a unary operator. -/
theorem binds_operand : Binds (operand g) (Power.unary ≤ ·) := by
  have haccess : Power.unary ≤ Power.access := by decide
  refine .bind fun t => ?_
  split
  · exact binds_literal haccess _
  · exact .bind fun _ => .ite (binds_lambda haccess)
      (.bind fun _ => binds_callIfArgs haccess rfl _)
  · exact binds_wordOperand haccess _
  · unfold signOperand
    split
    · exact .bind fun _ => .bind fun _ => .pure fun _ => le_rfl
    · refine .bind fun _ => .ite (binds_lambda haccess) (.ite ?_ ?_)
      · exact .bind fun _ => .bind fun _ => .bind fun _ => .bind fun _ => .pure fun _ => le_rfl
      · exact .bind fun _ => .bind fun _ => .bind fun _ => .pure fun _ => haccess
    · exact .bind fun _ => .pure fun _ => haccess
    · exact .rejectNext
  · exact .rejectNext
  · exact .rejectNext

/-- **What goes on behind an operand** binds as tightly as its power says. -/
theorem binds_continuation (left : Expr) (c : Continuation) :
    Binds (c.parse g left) (c.power = ·) := by
  cases c with
  | update op => exact .bind fun _ => .pure fun _ => rfl
  | member => exact binds_memberAccess rfl left
  | index => exact binds_indexing rfl left
  | methodRef => exact binds_methodRef rfl left
  | conditional =>
    exact .bind fun _ => .bind fun _ => .bind fun _ => .bind fun _ => .pure fun _ => rfl
  | typeTest =>
    exact .bind fun _ => .bind fun _ => .bind fun _ => .bind fun _ => .bind fun _ =>
      .pure fun _ => rfl
  | assign op => exact .bind fun _ => .bind fun _ => .pure fun _ => rfl
  | binary op => exact .bind fun _ => .bind fun _ => .pure fun _ => rfl

/-! ### Where reading stops -/

/-- The loop over operators stops before one that is too loose. -/
theorem operatorsWithin_stopsAt :
    (operatorsWithin g power rounds left).Returns fun _ t => t.StopsAt power := by
  induction rounds generalizing left with
  | zero => exact .throw
  | succ rounds ih =>
    intro s e t hrun
    obtain ⟨r, u, hstep, hrest⟩ := exists_of_bind_ok hrun
    cases r with
    | inl left' => exact ih u e t hrest
    | inr e' =>
      obtain ⟨-, rfl, hstops⟩ := operatorStep_inr hstep
      cases hrest
      exact hstops

/-- **Reading with a power stops** before an operator that is looser. -/
theorem expr_stopsAt (n power : Nat) :
    ((grammar n).expr power).Returns fun _ t => t.StopsAt power := by
  cases n with
  | zero => exact .throw
  | succ n => exact .bind fun _ => operatorsWithin_stopsAt

/-- Behind an operator looser than `instanceof`, no tighter one goes on. -/
theorem continuation_stopsAt {n : Nat} {c : Continuation} (left : Expr)
    (hc : c.power < Power.instanceOf) :
    (c.parse (grammar n) left).Returns fun _ t => t.StopsAt (c.power + 1) := by
  cases c with
  | update op => exact absurd hc (show ¬Power.access < Power.instanceOf by decide)
  | member => exact absurd hc (by decide)
  | index => exact absurd hc (by decide)
  | methodRef => exact absurd hc (by decide)
  | typeTest => exact absurd hc (by decide)
  | conditional =>
    refine .bind fun _ => .bind fun _ => .bind fun _ => .wrap fun s e t hrun k hk => ?_
    exact Nat.lt_succ_of_lt (expr_stopsAt n _ s e t hrun k hk)
  | assign op =>
    refine .bind fun _ => .wrap fun s e t hrun k hk => ?_
    exact Nat.lt_succ_of_lt (expr_stopsAt n _ s e t hrun k hk)
  | binary op => exact .bind fun _ => .wrap (expr_stopsAt n op.rightPower)

/-! ### Reading with more power -/

/-- Once what stands to the left is looser than `instanceof`, and no tighter operator goes on, the
result binds no tighter. -/
theorem tightness_le_of_operatorsWithin {n bound : Nat} (hbound : bound < Power.instanceOf)
    (h : operatorsWithin (grammar n) power rounds left s = .ok e t)
    (hleft : left.tightness ≤ bound) (hs : s.StopsAt (bound + 1)) : e.tightness ≤ bound := by
  induction rounds generalizing left s with
  | zero => cases h
  | succ rounds ih =>
    obtain ⟨r, u, hstep, hrest⟩ := exists_of_bind_ok h
    cases r with
    | inr e' =>
      obtain ⟨rfl, -, -⟩ := operatorStep_inr hstep
      cases hrest
      exact hleft
    | inl left' =>
      obtain ⟨c, hc, -, hparse⟩ := operatorStep_inl hstep
      have hle : c.power ≤ bound := Nat.le_of_lt_succ (hs c hc)
      have htight := binds_continuation left c s left' u hparse
      refine ih hrest (htight ▸ hle) fun k hk => ?_
      have := continuation_stopsAt left (hle.trans_lt hbound) s left' u hparse k hk
      omega

/-- **What is read with more power** is the same, or it ends earlier, before an operator. From there
reading with power 0 goes on. -/
theorem operatorsWithin_tighter {n : Nat} (power : Nat) (hfinish : s.finish.kind = .endOfSource)
    (h : operatorsWithin (grammar n) 0 rounds left s = .ok e t) :
    ∃ e' t' rest, operatorsWithin (grammar n) power rounds left s = .ok e' t' ∧
      s.Leads t' ∧ t'.Leads t ∧ operatorsWithin (grammar n) 0 rest e' t' = .ok e t := by
  induction rounds generalizing left s with
  | zero => cases h
  | succ rounds ih =>
    cases hk : Continuation.ofKind? s.next.kind with
    | none =>
      have hstop (power : Nat) : operatorsWithin (grammar n) power (rounds + 1) left s
          = .ok left s := operatorsWithin_stop fun c hc => absurd (hk.symm.trans hc) nofun
      have hend := h
      rw [hstop] at hend
      cases hend
      exact ⟨_, _, _, hstop power, .refl _, .refl _, h⟩
    | some k =>
      obtain ⟨left', u, hparse, hleads, hrest⟩ : ∃ left' u,
          k.parse (grammar n) left s = .ok left' u ∧ s.Leads u ∧
            operatorsWithin (grammar n) 0 rounds left' u = .ok e t := by
        obtain ⟨r, u, hstep, hrest⟩ := exists_of_bind_ok h
        cases r with
        | inr e' => exact absurd ((operatorStep_inr hstep).2.2 k hk) (Nat.not_lt_zero _)
        | inl left' =>
          obtain ⟨k', hk', -, hparse⟩ := operatorStep_inl hstep
          obtain rfl := Option.some.inj (hk.symm.trans hk')
          have hleads := (gathers_continuation (gathers_grammar [] n) left k s hfinish).1
          rw [hparse] at hleads
          exact ⟨left', u, hparse, hleads, hrest⟩
      obtain ⟨e', t', rest, hrun, hmore, hlater, hbehind⟩ :=
        ih (hleads.onward.finish ▸ hfinish) hrest
      -- with more power the operator is taken as well, or reading ends before it
      by_cases hpower : power ≤ k.power
      · rw [operatorsWithin_take hk hpower hparse]
        exact ⟨e', t', rest, hrun, hleads.trans hmore, hlater, hbehind⟩
      · refine ⟨left, s, _, ?_, .refl _, hleads.trans (hmore.trans hlater), h⟩
        refine operatorsWithin_stop fun c hc => ?_
        obtain rfl := Option.some.inj (hk.symm.trans hc)
        exact Nat.lt_of_not_le hpower

/-- What is read with a power binds at least as tightly, if the operand does. -/
theorem operatorsWithin_tightness (hleft : power ≤ left.tightness) :
    Binds (operatorsWithin g power rounds left) (power ≤ ·) := by
  induction rounds generalizing left with
  | zero => exact .throw
  | succ rounds ih =>
    intro s e t hrun
    obtain ⟨r, u, hstep, hrest⟩ := exists_of_bind_ok hrun
    cases r with
    | inl left' =>
      obtain ⟨c, -, hpower, hparse⟩ := operatorStep_inl hstep
      exact ih (hpower.trans_eq (binds_continuation left c s left' u hparse)) u e t hrest
    | inr e' =>
      obtain ⟨rfl, -, -⟩ := operatorStep_inr hstep
      cases hrest
      exact hleft

/-- **Reading with a power** up to that of `instanceof` reads what is read with power 0 if this
binds tightly enough, and otherwise it stops earlier, before an operator. -/
theorem expr_of_expr_zero {n : Nat} (power : Nat) (hpower : power ≤ Power.instanceOf)
    (hfinish : s.finish.kind = .endOfSource) (h : (grammar n).expr 0 s = .ok e t) :
    ∃ e' t', (grammar n).expr power s = .ok e' t' ∧ t'.Leads t ∧
      (power ≤ e.tightness ∧ e' = e ∧ t' = t ∨
        e.tightness < power ∧ (Continuation.ofKind? t'.next.kind).isSome) := by
  cases n with
  | zero => cases h
  | succ n =>
    have hgathers := (gathers_operand (gathers_grammar [] n) .absent .loose s hfinish).1
    obtain ⟨first, u, hfirst, h⟩ := exists_of_bind_ok h
    rw [hfirst] at hgathers
    obtain ⟨e', t', rest, hrun, -, hlater, hbehind⟩ :=
      operatorsWithin_tighter power (hgathers.onward.finish ▸ hfinish) h
    refine ⟨e', t', (bind_ok hfirst).trans hrun, hlater, ?_⟩
    -- from there on, reading with power 0 takes no operator, or one that binds less tightly
    cases rest with
    | zero => cases hbehind
    | succ rest =>
      obtain ⟨r, v, hstep, hrest⟩ := exists_of_bind_ok hbehind
      cases r with
      | inr e'' =>
        obtain ⟨rfl, rfl, -⟩ := operatorStep_inr hstep
        cases hrest
        have hoperand : Power.unary ≤ first.tightness := binds_operand s first u hfirst
        have hfirst : power ≤ first.tightness := hpower.trans (le_trans (by decide) hoperand)
        exact .inl ⟨operatorsWithin_tightness hfirst u _ _ hrun, rfl, rfl⟩
      | inl left =>
        obtain ⟨c, hc, -, hparse⟩ := operatorStep_inl hstep
        have hloose : c.power < power := operatorsWithin_stopsAt u e' t' hrun c hc
        have hinstance := hloose.trans_le hpower
        have hle := tightness_le_of_operatorsWithin hinstance hrest
          (binds_continuation e' c t' left v hparse).ge
          (continuation_stopsAt e' hinstance t' left v hparse)
        exact .inr ⟨hle.trans_lt hloose, by rw [hc]; rfl⟩

end Grammar

end JavaGraft

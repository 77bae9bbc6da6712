import JavaGraft.Grammar.Knot
import JavaGraft.Proofs.Grammar.Running

/-!
# Operators bind as their powers say

An expression is *well bound* (`Expr.WellBound`) if each of its operands that stands without
parentheses binds as tightly as its place demands. The tokens of a well-bound expression, written
with blanks between them, are read as this expression again (`JavaGraft.Expr.parseExpr_lexemes`): no
operator is taken into an operand it does not belong to, and no parenthesis is taken for a cast, a
lambda or a call.

The expression is followed from its first token on. The first tokens of `a + b * c` are those of
its operand `a`, and it is only after these that the operators of the rule `expr` are on their turn.
So an expression is *reached* by the rule (`Expr.Reached`): at some round of the loop over the
operators it is what stands to the left. This goes from an operand to the operator behind it by one
round of the loop. It is also what an operator to the left needs, provided that no operator on the
right is tight enough to go on.
-/

namespace JavaGraft

open JavaGraft.Parser

/-! ### The words of an expression -/

namespace Expr

mutual

/-- The words of an expression made of names, parentheses, members, elements, calls and
operators. -/
def lexemes : Expr → List Lexeme
  | name i => [i.lexeme]
  | paren e _ => Sign.lparen.lexeme :: (e.lexemes ++ [Sign.rparen.lexeme])
  | field t n _ => t.lexemes ++ [Sign.dot.lexeme, n.lexeme]
  | index t i _ => t.lexemes ++ Sign.lbracket.lexeme :: (i.lexemes ++ [Sign.rbracket.lexeme])
  | call _ f as _ => f.lexemes ++ Sign.lparen.lexeme :: (argLexemes as ++ [Sign.rparen.lexeme])
  | unary op e _ => op.sign.lexeme :: e.lexemes
  | update e op _ => e.lexemes ++ [op.sign.lexeme]
  | binary l op r _ => l.lexemes ++ op.sign.lexeme :: r.lexemes
  | assign t op v _ => t.lexemes ++ op.sign.lexeme :: v.lexemes
  | _ => []

/-- The words of arguments, with commas between them. -/
def argLexemes : List Expr → List Lexeme
  | [] => []
  | e :: es => e.lexemes ++ furtherLexemes es

/-- The words of further arguments, with a comma before each. -/
def furtherLexemes : List Expr → List Lexeme
  | [] => []
  | e :: es => Sign.comma.lexeme :: (e.lexemes ++ furtherLexemes es)

end

section Lexemes

variable (e t i f l r v : Expr) (as : List Expr) (s : Span)

theorem lexemes_name (i : Ident) : (name i).lexemes = [i.lexeme] := rfl

theorem lexemes_paren :
    (paren e s).lexemes = Sign.lparen.lexeme :: (e.lexemes ++ [Sign.rparen.lexeme]) := rfl

theorem lexemes_field (n : Ident) :
    (field t n s).lexemes = t.lexemes ++ [Sign.dot.lexeme, n.lexeme] := rfl

theorem lexemes_index : (index t i s).lexemes
    = t.lexemes ++ Sign.lbracket.lexeme :: (i.lexemes ++ [Sign.rbracket.lexeme]) := rfl

theorem lexemes_call (id : Nat) : (call id f as s).lexemes
    = f.lexemes ++ Sign.lparen.lexeme :: (argLexemes as ++ [Sign.rparen.lexeme]) := rfl

theorem lexemes_unary (op : UnaryOp) :
    (unary op e s).lexemes = op.sign.lexeme :: e.lexemes := rfl

theorem lexemes_update (op : UpdateOp) :
    (update e op s).lexemes = e.lexemes ++ [op.sign.lexeme] := rfl

theorem lexemes_binary (op : BinaryOp) :
    (binary l op r s).lexemes = l.lexemes ++ op.sign.lexeme :: r.lexemes := rfl

theorem lexemes_assign (op : AssignOp) :
    (assign t op v s).lexemes = t.lexemes ++ op.sign.lexeme :: v.lexemes := rfl

theorem argLexemes_nil : argLexemes [] = [] := rfl

theorem argLexemes_cons : argLexemes (e :: as) = e.lexemes ++ furtherLexemes as := rfl

theorem furtherLexemes_cons :
    furtherLexemes (e :: as) = Sign.comma.lexeme :: (e.lexemes ++ furtherLexemes as) := rfl

end Lexemes

/-! ### Well-bound expressions -/

/-- How tightly an expression binds: the power of its outermost operator towards the left, or that
of what follows an operand directly. -/
def tightness : Expr → Nat
  | assign .. => Power.assignment
  | conditional .. => Power.conditional
  | binary _ op _ _ => op.leftPower
  | instanceOf .. => Power.instanceOf
  | unary .. | cast .. => Power.unary
  | _ => Power.access

/-- **Every operand without parentheses binds as tightly as its place demands**, in an expression
made of names, parentheses, members, elements, calls of names and members, and operators. -/
inductive WellBound : Expr → Prop
  | name {i : Ident} (hi : isIdentifier i.name) : WellBound (name i)
  | paren {e : Expr} {s : Span} (he : WellBound e) : WellBound (paren e s)
  | field {t : Expr} {n : Ident} {s : Span} (ht : WellBound t)
      (htight : Power.access ≤ t.tightness) (hn : isIdentifier n.name) : WellBound (field t n s)
  | index {t i : Expr} {s : Span} (ht : WellBound t) (htight : Power.access ≤ t.tightness)
      (hi : WellBound i) : WellBound (index t i s)
  | callName {id : Nat} {i : Ident} {as : List Expr} {s : Span} (hi : isIdentifier i.name)
      (has : ∀ a ∈ as, WellBound a) : WellBound (call id (.name i) as s)
  | callMember {id : Nat} {t : Expr} {n : Ident} {as : List Expr} {s s' : Span} (ht : WellBound t)
      (htight : Power.access ≤ t.tightness) (hn : isIdentifier n.name)
      (has : ∀ a ∈ as, WellBound a) : WellBound (call id (.field t n s) as s')
  | unary {op : UnaryOp} {e : Expr} {s : Span} (he : WellBound e)
      (htight : Power.unary ≤ e.tightness) : WellBound (unary op e s)
  | update {e : Expr} {op : UpdateOp} {s : Span} (he : WellBound e)
      (htight : Power.access ≤ e.tightness) : WellBound (update e op s)
  | binary {l r : Expr} {op : BinaryOp} {s : Span} (hl : WellBound l) (hr : WellBound r)
      (hleft : op.leftPower ≤ l.tightness) (hright : op.rightPower ≤ r.tightness) :
      WellBound (binary l op r s)
  | assign {t v : Expr} {op : AssignOp} {s : Span} (ht : WellBound t) (hv : WellBound v)
      (htight : Power.assignment < t.tightness) : WellBound (assign t op v s)

namespace WellBound

variable {e : Expr}

/-- An expression starts with a name, a parenthesis or an operator before an operand. -/
theorem head (h : e.WellBound) :
    ∃ l ls, e.lexemes = l :: ls ∧
      (l.1 = .identifier ∨ l.1 = .sign .lparen ∨ ∃ op : UnaryOp, l.1 = .sign op.sign) := by
  induction h with
  | name => exact ⟨_, _, lexemes_name _, .inl rfl⟩
  | paren => exact ⟨_, _, lexemes_paren _ _, .inr (.inl rfl)⟩
  | callName => exact ⟨_, _, lexemes_call _ _ _ _, .inl rfl⟩
  | @unary op => exact ⟨_, _, lexemes_unary _ _ op, .inr (.inr ⟨op, rfl⟩)⟩
  | field _ _ _ ih | index _ _ _ ih | update _ _ ih | assign _ _ _ ih | binary _ _ _ _ ih =>
    obtain ⟨l, ls, hls, hl⟩ := ih
    exact ⟨l, _, congrArg (· ++ _) hls, hl⟩
  | callMember _ _ _ _ ih =>
    obtain ⟨l, ls, hls, hl⟩ := ih
    exact ⟨l, _, congrArg (· ++ _ ++ _) hls, hl⟩

/-- A word that starts an expression is none of the signs that close one. -/
theorem ne_of_head {l : Lexeme} (h : l.1 = .identifier ∨ l.1 = .sign .lparen ∨
    ∃ op : UnaryOp, l.1 = .sign op.sign) : l.1 ≠ .sign .rparen ∧ l.1 ≠ .sign .rbracket := by
  rcases h with h | h | ⟨op, h⟩ <;> rw [h]
  · exact ⟨nofun, nofun⟩
  · exact ⟨nofun, nofun⟩
  · cases op <;> exact ⟨nofun, nofun⟩

end WellBound

/-! ### The words are plain -/

section Plain

open Lexeme

variable {ls ls' : List Lexeme}

theorem plain_name {i : Ident} (hi : isIdentifier i.name) (h : ArePlain ls) :
    ArePlain (i.lexeme :: ls) :=
  h.cons (.identifier hi) rfl nofun

/-- Before plain words there can be a sign other than an arrow, an at sign or a closing
parenthesis. -/
theorem plain_sign {s : Sign} (hs : (TokenKind.sign s).isPlain) (hclose : s ≠ .rparen)
    (h : ArePlain ls) : ArePlain (s.lexeme :: ls) :=
  h.cons (.sign s) hs (by simpa [Sign.lexeme] using hclose)

theorem plain_close : ArePlain [Sign.rparen.lexeme] :=
  ⟨List.forall_mem_singleton.mpr (.sign _), List.forall_mem_singleton.mpr rfl, .singleton _⟩

/-- Plain words can be followed by a sign that does not start an operand. -/
theorem plain_append {s : Sign} (hs : Lookahead.startsCastOperand (.sign s) = false)
    (h : ArePlain ls) (h' : ArePlain (s.lexeme :: ls')) : ArePlain (ls ++ s.lexeme :: ls') :=
  h.append h' fun _ hl => Option.some.inj hl ▸ hs

/-- Further arguments do not start with an operand. -/
theorem head_furtherLexemes (es : List Expr) :
    ∀ l ∈ (furtherLexemes es).head?, Lookahead.startsCastOperand l.1 = false := by
  cases es with
  | nil => exact fun _ hl => absurd hl (Option.not_mem_none _)
  | cons e es => exact fun _ hl => Option.some.inj hl ▸ rfl

theorem plain_furtherLexemes {es : List Expr} (h : ∀ e ∈ es, ArePlain e.lexemes) :
    ArePlain (furtherLexemes es) := by
  induction es with
  | nil => exact .nil
  | cons e es ih =>
    obtain ⟨he, hes⟩ := List.forall_mem_cons.mp h
    rw [furtherLexemes_cons]
    exact plain_sign rfl nofun (he.append (ih hes) (head_furtherLexemes es))

/-- Arguments and the parenthesis behind them are plain. -/
theorem plain_argLexemes {es : List Expr} (h : ∀ e ∈ es, ArePlain e.lexemes) :
    ArePlain (argLexemes es ++ [Sign.rparen.lexeme]) := by
  refine plain_append rfl ?_ plain_close
  cases es with
  | nil => exact .nil
  | cons e es =>
    obtain ⟨he, hes⟩ := List.forall_mem_cons.mp h
    exact he.append (plain_furtherLexemes hes) (head_furtherLexemes es)

/-- **The words of a well-bound expression are plain**: behind a closing parenthesis there is never
the beginning of an operand. -/
theorem WellBound.plain {e : Expr} (h : e.WellBound) : ArePlain e.lexemes := by
  induction h with
  | name hi => exact plain_name hi .nil
  | paren _ ih =>
    rw [lexemes_paren]
    exact plain_sign rfl nofun (plain_append rfl ih plain_close)
  | field _ _ hn ih =>
    rw [lexemes_field]
    exact plain_append rfl ih (plain_sign rfl nofun (plain_name hn .nil))
  | index _ _ _ iht ihi =>
    rw [lexemes_index]
    exact plain_append rfl iht
      (plain_sign rfl nofun (plain_append rfl ihi (plain_sign rfl nofun .nil)))
  | callName hi _ ih =>
    rw [lexemes_call, lexemes_name]
    exact plain_name hi (plain_sign rfl nofun (plain_argLexemes ih))
  | callMember _ _ hn _ iht ih =>
    rw [lexemes_call, lexemes_field, List.append_assoc]
    exact plain_append rfl iht
      (plain_sign rfl nofun (plain_name hn (plain_sign rfl nofun (plain_argLexemes ih))))
  | @unary op _ _ _ _ ih =>
    rw [lexemes_unary]
    cases op <;> exact plain_sign rfl nofun ih
  | @update _ op _ _ _ ih =>
    rw [lexemes_update]
    cases op <;> exact plain_append rfl ih (plain_sign rfl nofun .nil)
  | @binary _ _ op _ _ _ _ _ ihl ihr =>
    rw [lexemes_binary]
    cases op <;> exact plain_append rfl ihl (plain_sign rfl nofun ihr)
  | @assign _ _ op _ _ _ _ iht ihv =>
    rw [lexemes_assign]
    cases op <;> exact plain_append rfl iht (plain_sign rfl nofun ihv)

end Plain

/-! ### What can follow -/

/-- From this power on, an operator behind the expression goes to its last operand. -/
def reach : Expr → Nat
  | assign .. => Power.assignment
  | conditional .. => Power.conditional
  | binary _ op _ _ => op.rightPower
  | unary .. | cast .. => Power.unary
  | lambda .. => 0
  | _ => Power.access + 1

/-- What can follow an expression that reaches out for operators of a power: no arguments, and no
operator of this power or a greater one. -/
def Follows (reach : Nat) (ls : List Lexeme) : Prop :=
  ∀ l ∈ ls.head?, l.1 ≠ .sign .lparen ∧
    ∀ c, Grammar.Continuation.ofKind? l.1 = some c → c.power < reach

namespace Follows

variable {n m : Nat} {ls : List Lexeme}

theorem mono (h : Follows n ls) (hnm : n ≤ m) : Follows m ls := fun l hl =>
  ⟨(h l hl).1, fun c hc => ((h l hl).2 c hc).trans_le hnm⟩

theorem nothing : Follows n [] := fun _ hl => absurd hl (Option.not_mem_none _)

/-- A sign that is no operator can follow. -/
theorem sign {s : Sign} (hs : s ≠ .lparen)
    (h : ∀ c, Grammar.Continuation.ofSign? s = some c → c.power < n) :
    Follows n (s.lexeme :: ls) := by
  rintro l hl
  obtain rfl := Option.some.inj hl
  exact ⟨fun h => hs (TokenKind.sign.inj h), h⟩

end Follows

theorem one_le_tightness (e : Expr) : Power.assignment ≤ e.tightness := by
  cases e <;> simp [tightness, Power.assignment, Power.conditional, Power.access, Power.unary,
    Power.instanceOf, BinaryOp.leftPower]

namespace WellBound

variable {e : Expr}

theorem tightness_le_reach (h : e.WellBound) : e.tightness ≤ e.reach := by
  cases h <;> simp [tightness, reach, BinaryOp.leftPower, BinaryOp.rightPower]

/-- An operator that groups to the left does not go to the last operand of a tight expression. -/
theorem lt_reach (h : e.WellBound) {power : Nat} (htight : power ≤ e.tightness)
    (hunary : power ≠ Power.unary) (hassign : power ≠ Power.assignment) : power < e.reach := by
  cases h with
  | binary => exact Nat.lt_succ_of_le htight
  | unary | assign => exact lt_of_le_of_ne htight ‹_›
  | _ => exact Nat.lt_succ_of_le htight

theorem leftPower_lt_reach (h : e.WellBound) {op : BinaryOp} (hop : op.leftPower ≤ e.tightness) :
    op.leftPower < e.reach :=
  h.lt_reach hop (by cases op <;> decide) (by cases op <;> decide)

theorem access_lt_reach (h : e.WellBound) (htight : Power.access ≤ e.tightness) :
    Power.access < e.reach :=
  h.lt_reach htight (by decide) (by decide)

end WellBound

end Expr

/-! ### One operator after another -/

namespace Grammar

variable {g : Rules} {power : Nat} {s s' : ParserState} {e e' : Expr} {ls : List Lexeme}

namespace Continuation

theorem ofSign?_update (op : UpdateOp) : ofSign? op.sign = some (update op) := by cases op <;> rfl

theorem ofSign?_binary (op : BinaryOp) : ofSign? op.sign = some (binary op) := by cases op <;> rfl

theorem ofSign?_assign (op : AssignOp) : ofSign? op.sign = some (assign op) := by cases op <;> rfl

end Continuation

/-- One round of the loop over the operators behind an operand. -/
def operatorStep (g : Rules) (power : Nat) (left : Expr) : Parser (Expr ⊕ Expr) := do
  match Continuation.ofKind? (← Parser.peek).kind with
  | some k => if power ≤ k.power then return .inl (← k.parse g left) else return .inr left
  | none => return .inr left

/-- Operators behind an operand, in at most `rounds` rounds. -/
def operatorsWithin (g : Rules) (power rounds : Nat) : Expr → Parser Expr :=
  iterate (operatorStep g power) rounds

/-- **The loop over operators** is made of such rounds. -/
theorem operators_eq (g : Rules) (power : Nat) :
    operators g power = operatorsWithin g power g.rounds := rfl

/-- A round after which the loop goes on has read what follows an operand, and this is tight
enough. -/
theorem operatorStep_inl (h : operatorStep g power e s = .ok (.inl e') s') :
    ∃ k, Continuation.ofKind? s.next.kind = some k ∧ power ≤ k.power ∧
      k.parse g e s = .ok e' s' := by
  rw [operatorStep, bind_ok (peek_eq s)] at h
  cases hk : Continuation.ofKind? s.next.kind with
  | none =>
    rw [hk] at h
    cases h
  | some k =>
    rw [hk] at h
    dsimp only at h
    split_ifs at h with hpower
    · obtain ⟨_, _, hparse, h⟩ := exists_of_bind_ok h
      cases h
      exact ⟨k, rfl, hpower, hparse⟩
    · cases h

/-- The last round finds nothing tight enough. -/
theorem operatorStep_inr (h : operatorStep g power e s = .ok (.inr e') s') :
    e' = e ∧ s' = s ∧ ∀ k, Continuation.ofKind? s.next.kind = some k → k.power < power := by
  rw [operatorStep, bind_ok (peek_eq s)] at h
  cases hk : Continuation.ofKind? s.next.kind with
  | none =>
    rw [hk] at h
    cases h
    exact ⟨rfl, rfl, nofun⟩
  | some k =>
    rw [hk] at h
    dsimp only at h
    split_ifs at h with hpower
    · obtain ⟨_, _, -, h⟩ := exists_of_bind_ok h
      cases h
    · cases h
      refine ⟨rfl, rfl, ?_⟩
      rintro _ ⟨⟩
      exact Nat.lt_of_not_le hpower

/-- A tight enough operator is taken. -/
theorem operatorsWithin_take {c : Continuation} {rounds : Nat}
    (hc : Continuation.ofKind? s.next.kind = some c) (hpower : power ≤ c.power)
    (h : c.parse g e s = .ok e' s') :
    operatorsWithin g power (rounds + 1) e s = operatorsWithin g power rounds e' s' := by
  have hone : operatorStep g power e s = .ok (.inl e') s' := by
    rw [operatorStep, bind_ok (peek_eq s)]
    simp only [hc, if_pos hpower]
    rw [bind_ok h]
    rfl
  exact iterate_inl hone

/-- Where no tight enough operator follows, the operand is all. -/
theorem operatorsWithin_stop {rounds : Nat}
    (h : ∀ c, Continuation.ofKind? s.next.kind = some c → c.power < power) :
    operatorsWithin g power (rounds + 1) e s = .ok e s := by
  have hone : operatorStep g power e s = .ok (.inr e) s := by
    rw [operatorStep, bind_ok (peek_eq s)]
    cases hc : Continuation.ofKind? s.next.kind with
    | none => rfl
    | some c =>
      simp only [if_neg (Nat.not_le.mpr (h c hc))]
      rfl
  exact iterate_inr hone

end Grammar

namespace Expr

variable {e t f : Expr} {as : List Expr} {l : Lexeme} {ls rest : List Lexeme} {s : ParserState}
  {m power : Nat} {g : Rules}

/-- The result is the expression up to labels, and the given words are left. -/
def Yields (e : Expr) (rest : List Lexeme) (r : EStateM.Result Failure ParserState Expr) : Prop :=
  ∃ e' s', r = .ok e' s' ∧ s'.Reads rest ∧ e'.relabeled .erased = e.relabeled .erased

/-- A rule that reads an expression wherever nothing goes on behind it. -/
def ReadBy (e : Expr) (rule : Parser Expr) : Prop :=
  ∀ {s : ParserState} {rest : List Lexeme}, s.Reads (e.lexemes ++ rest) → Follows 0 rest →
    e.Yields rest (rule s)

/-! ### Arguments -/

/-- Expressions with commas between them are read one by one. -/
theorem sepBy_yields {rule : Parser Expr} (he : e.ReadBy rule) (has : ∀ a ∈ as, a.ReadBy rule)
    {rounds : Nat} (hrounds : as.length < rounds) (found : List Expr)
    (hs : s.Reads (e.lexemes ++ (furtherLexemes as ++ Sign.rparen.lexeme :: rest))) :
    ∃ es s', iterate (oneSeparated Sign.comma rule) rounds found s = .ok (found.reverse ++ es) s' ∧
      s'.Reads (Sign.rparen.lexeme :: rest) ∧
      allRelabeled .erased es = allRelabeled .erased (e :: as) := by
  induction as generalizing e s found rounds with
  | nil =>
    obtain ⟨rounds, rfl⟩ := Nat.exists_eq_succ_of_ne_zero (Nat.ne_zero_of_lt hrounds)
    obtain ⟨e', s', hrule, hs', he'⟩ := he hs (.sign nofun nofun)
    have hnext : s'.next.kind ≠ Sign.comma := by rw [hs'.sign]; exact nofun
    have hlast := oneSeparated_last found hrule hnext
    refine ⟨[e'], s', ?_, hs', by rw [allRelabeled, allRelabeled, he']; rfl⟩
    rw [iterate_inr hlast, List.reverse_cons]
  | cons a as ih =>
    obtain ⟨rounds, rfl⟩ := Nat.exists_eq_succ_of_ne_zero (Nat.ne_zero_of_lt hrounds)
    obtain ⟨ha, has⟩ := List.forall_mem_cons.mp has
    rw [furtherLexemes_cons, List.cons_append] at hs
    obtain ⟨e', s', hrule, hs', he'⟩ := he hs (.sign nofun nofun)
    have hmore := oneSeparated_more found hrule hs'.sign
    obtain ⟨es, s'', hes, hs'', has'⟩ := ih ha has (Nat.lt_of_succ_lt_succ hrounds) (e' :: found)
      (by rw [← List.append_assoc]; exact hs'.advance)
    refine ⟨e' :: es, s'', ?_, hs'', by rw [allRelabeled, allRelabeled, he', has']⟩
    rw [iterate_inl hmore, hes, List.reverse_cons, List.append_assoc, List.singleton_append]

/-- Arguments in parentheses are read. -/
theorem arguments_yields (has : ∀ a ∈ as, a.WellBound ∧ a.ReadBy (g.expr 0))
    (hrounds : as.length ≤ g.rounds)
    (hs : s.Reads (Sign.lparen.lexeme :: (argLexemes as ++ Sign.rparen.lexeme :: rest))) :
    ∃ es s', Grammar.arguments g s = .ok es s' ∧ s'.Reads rest ∧
      allRelabeled .erased es = allRelabeled .erased as := by
  rw [Grammar.arguments, bind_ok (discard_ok (expect_ok hs.sign)), bind_ok (check_eq _ _)]
  have hs := hs.advance
  cases as with
  | nil =>
    rw [argLexemes_nil, List.nil_append] at hs
    rw [decide_eq_true hs.sign, if_pos rfl, bind_ok (pure_eq [] _)]
    beta_reduce
    rw [bind_ok (discard_ok (expect_ok hs.sign))]
    exact ⟨[], _, rfl, hs.advance, rfl⟩
  | cons e as =>
    obtain ⟨⟨he, heread⟩, has⟩ := List.forall_mem_cons.mp has
    rw [argLexemes_cons, List.append_assoc] at hs
    -- no expression starts with a closing parenthesis
    have hopen : s.advance.next.kind ≠ Sign.rparen := by
      obtain ⟨l, ls, hls, hl⟩ := he.head
      rw [hls, List.cons_append] at hs
      rw [hs.kind]
      exact (WellBound.ne_of_head hl).1
    obtain ⟨es, s', hes, hs', hsame⟩ := sepBy_yields heread (fun a ha => (has a ha).2)
      (Nat.lt_of_succ_le hrounds) [] hs
    rw [decide_eq_false hopen, if_neg Bool.false_ne_true, sepBy_eq, bind_ok hes]
    beta_reduce
    rw [bind_ok (discard_ok (expect_ok hs'.sign))]
    exact ⟨es, _, rfl, hs'.advance, hsame⟩

/-- A callee is called with the arguments that follow. -/
theorem callIfArgs_yields {f' : Expr} (hf : f'.relabeled .erased = f.relabeled .erased)
    (has : ∀ a ∈ as, a.WellBound ∧ a.ReadBy (g.expr 0)) (hrounds : as.length ≤ g.rounds)
    (hs : s.Reads (Sign.lparen.lexeme :: (argLexemes as ++ Sign.rparen.lexeme :: rest)))
    (id : Nat) (start span : Span) :
    (call id f as span).Yields rest (Grammar.callIfArgs g f' start s) := by
  obtain ⟨es, s', hes, hs', hsame⟩ := arguments_yields has hrounds hs
  rw [Grammar.callIfArgs, bind_ok (check_eq _ _), decide_eq_true hs.sign, if_pos rfl,
    Grammar.callOf, bind_ok hes, bind_ok (freshCall_eq s'), bind_ok (spanFrom_eq _ _)]
  exact ⟨_, _, rfl, hs'.withCall _, by rw [relabeled, relabeled, hf, hsame]; rfl⟩

/-- Where no arguments follow, nothing is called. -/
theorem callIfArgs_of_ne (h : s.next.kind ≠ Sign.lparen) (start : Span) :
    Grammar.callIfArgs g f start s = .ok f s := by
  rw [Grammar.callIfArgs, bind_ok (check_eq _ _), decide_eq_false h]
  rfl

theorem callIfArgs_none {n : Nat} (hs : s.Reads rest) (hrest : Follows n rest) (start : Span) :
    Grammar.callIfArgs g f start s = .ok f s := by
  refine callIfArgs_of_ne ?_ start
  cases rest with
  | nil => rw [hs.kind_end]; exact nofun
  | cons l ls => rw [hs.kind]; exact (hrest l rfl).1

/-! ### Expressions -/

/-- At some round of the loop over operators, the expression is what stands to the left. -/
def ReachedAt (m power : Nat) (s : ParserState) (rest : List Lexeme) (e : Expr) : Prop :=
  ∃ k e' s', Grammar.expr (grammar (m + 1)) power s
      = Grammar.operatorsWithin (grammar (m + 1)) power k e' s' ∧
    m < k + e.lexemes.length ∧ s'.Reads rest ∧ e'.relabeled .erased = e.relabeled .erased

/-- Wherever the words of the expression are next and it is tight enough, it is reached. -/
def Reached (e : Expr) : Prop :=
  ∀ ⦃m power : Nat⦄ ⦃s : ParserState⦄ ⦃rest : List Lexeme⦄, e.lexemes.length ≤ m →
    power ≤ e.tightness → s.Reads (e.lexemes ++ rest) → Follows e.reach rest →
    ReachedAt m power s rest e

/-- An operand is reached at the first round. -/
theorem reachedAt_operand (h : e.Yields rest (Grammar.operand (grammar (m + 1)) s))
    (hne : 0 < e.lexemes.length) : ReachedAt m power s rest e := by
  obtain ⟨e', s', hoperand, hs', he'⟩ := h
  refine ⟨m, e', s', ?_, Nat.lt_add_of_pos_right hne, hs', he'⟩
  rw [Grammar.expr, bind_ok hoperand, Grammar.operators_eq]
  rfl

/-- An operator takes one round. -/
theorem ReachedAt.step {c : Grammar.Continuation} (h : ReachedAt m power s (l :: ls) t)
    (hc : Grammar.Continuation.ofKind? l.1 = some c) (hpower : power ≤ c.power)
    (hlength : t.lexemes.length < e.lexemes.length) (hm : e.lexemes.length ≤ m)
    (hparse : ∀ {t' s'}, s'.Reads (l :: ls) → t'.relabeled .erased = t.relabeled .erased →
      e.Yields rest (c.parse (grammar (m + 1)) t' s')) : ReachedAt m power s rest e := by
  obtain ⟨k, t', s', hreached, hk, hs', ht'⟩ := h
  obtain ⟨e', s'', hyields, hs'', he'⟩ := hparse hs' ht'
  obtain ⟨k, rfl⟩ : ∃ n, k = n + 1 := ⟨k - 1, by omega⟩
  refine ⟨k, e', s'', ?_, by omega, hs'', he'⟩
  rw [hreached, Grammar.operatorsWithin_take (by rw [hs'.kind]; exact hc) hpower hyields]

/-- Where no tight enough operator follows, an expression that is reached is read. -/
theorem Reached.yields (h : e.Reached) (hbound : e.WellBound) (hm : e.lexemes.length ≤ m)
    (hpower : power ≤ e.tightness) (hs : s.Reads (e.lexemes ++ rest)) (hrest : Follows power rest) :
    e.Yields rest (Grammar.expr (grammar (m + 1)) power s) := by
  obtain ⟨k, e', s', hreached, hk, hs', he'⟩ :=
    h hm hpower hs (hrest.mono (hpower.trans hbound.tightness_le_reach))
  obtain ⟨k, rfl⟩ : ∃ n, k = n + 1 := ⟨k - 1, by omega⟩
  refine ⟨e', s', ?_, hs', he'⟩
  rw [hreached, Grammar.operatorsWithin_stop]
  intro c hc
  cases rest with
  | nil => rw [hs'.kind_end] at hc; cases hc
  | cons l ls => rw [hs'.kind] at hc; exact (hrest l rfl).2 c hc

/-- What is reached is read by the rule for expressions of any kind. -/
theorem Reached.readBy (h : e.Reached) (hbound : e.WellBound) (hm : e.lexemes.length ≤ m) :
    e.ReadBy (Grammar.expr (grammar (m + 1)) 0) :=
  fun hs hrest => h.yields hbound hm (Nat.zero_le _) hs hrest

/-! ### Each form is reached -/

theorem length_le_furtherLexemes (as : List Expr) : as.length ≤ (furtherLexemes as).length := by
  induction as with
  | nil => exact Nat.zero_le _
  | cons a as ih =>
    rw [furtherLexemes_cons, List.length_cons, List.length_cons, List.length_append]
    omega

theorem length_le_argLexemes (as : List Expr) : as.length ≤ (argLexemes as).length + 1 := by
  cases as with
  | nil => exact Nat.zero_le _
  | cons a as =>
    have := length_le_furtherLexemes as
    rw [argLexemes_cons, List.length_cons, List.length_append]
    omega

theorem length_le_of_mem {a : Expr} (ha : a ∈ as) :
    a.lexemes.length ≤ (furtherLexemes as).length := by
  induction as with
  | nil => cases ha
  | cons b as ih =>
    rw [furtherLexemes_cons, List.length_cons, List.length_append]
    rcases List.mem_cons.mp ha with rfl | ha
    · omega
    · have := ih ha
      omega

/-- An argument is no longer than all of them. -/
theorem length_le_of_mem_args {a : Expr} (ha : a ∈ as) :
    a.lexemes.length ≤ (argLexemes as).length := by
  cases as with
  | nil => cases ha
  | cons b as =>
    rw [argLexemes_cons, List.length_append]
    rcases List.mem_cons.mp ha with rfl | ha
    · omega
    · have := length_le_of_mem ha
      omega

/-- An operand that starts with an identifier, but not with a lambda, is this name, or a call of
it. -/
theorem operand_of_identifier (h : s.next.kind = .identifier)
    (harrow : (s.nth 1).kind ≠ Sign.arrow) :
    Grammar.operand g s
      = Grammar.callIfArgs g (.name ⟨s.next.text, s.next.span⟩) s.next.span s.advance := by
  rw [Grammar.operand, bind_ok (peek_eq s)]
  simp only [h]
  rw [bind_ok (checkNth_eq 1 Sign.arrow s), decide_eq_false harrow,
    if_neg Bool.false_ne_true, bind_ok (discard_ok (advance_eq s))]

theorem operand_name {i : Ident} (hs : s.Reads (i.lexeme :: ls)) :
    ∃ span, Grammar.operand g s = Grammar.callIfArgs g (.name ⟨i.name, span⟩) span s.advance := by
  refine ⟨s.next.span, ?_⟩
  rw [operand_of_identifier hs.name (hs.nth_kind_ne 1 rfl nofun), hs.text]
  rfl

theorem operand_sign {sign : Sign} (hs : s.Reads (sign.lexeme :: ls)) :
    Grammar.operand g s = Grammar.signOperand g sign s := by
  rw [Grammar.operand, bind_ok (peek_eq s)]
  simp only [hs.sign]

/-- Behind a point and an identifier it is the member, or a call of it. -/
theorem memberAccess_of_identifier (hdot : s.next.kind = Sign.dot)
    (hname : s.advance.next.kind = .identifier) :
    Grammar.memberAccess g t s
      = Grammar.callIfArgs g (.field t ⟨s.advance.next.text, s.advance.next.span⟩
          (t.span.merge s.advance.next.span)) t.span s.advance.advance := by
  have hne : ∀ k, k ≠ .identifier → s.advance.next.kind ≠ k := fun k hk h =>
    hk (h.symm.trans hname)
  have hargs : Grammar.typeArgs? g s.advance = .ok [] s.advance := by
    rw [Grammar.typeArgs?, bind_ok (check_eq _ _), decide_eq_false (hne Sign.less nofun)]
    rfl
  rw [Grammar.memberAccess, bind_ok (expect_ok hdot)]
  rw [bind_ok (eat_no (hne Keyword.kwClass nofun)), if_neg Bool.false_ne_true,
    bind_ok (eat_no (hne Keyword.kwThis nofun)), if_neg Bool.false_ne_true,
    bind_ok (discard_ok hargs), bind_ok (identifier_ok hname)]

theorem memberAccess_name {n : Ident} (hs : s.Reads (Sign.dot.lexeme :: n.lexeme :: ls)) :
    ∃ n' span, Ident.relabeled .erased n' = Ident.relabeled .erased n ∧
      Grammar.memberAccess g t s
        = Grammar.callIfArgs g (.field t n' span) t.span s.advance.advance :=
  ⟨⟨s.advance.next.text, s.advance.next.span⟩, t.span.merge s.advance.next.span,
    by rw [hs.advance.text]; rfl, memberAccess_of_identifier hs.sign hs.advance.name⟩

theorem reached_name {i : Ident} : (name i).Reached := by
  intro m power s rest _ _ hs hrest
  rw [lexemes_name, List.singleton_append] at hs
  obtain ⟨span, hoperand⟩ := operand_name (g := grammar (m + 1)) hs
  have hyields : (name i).Yields rest (Grammar.operand (grammar (m + 1)) s) :=
    ⟨_, _, hoperand.trans (callIfArgs_none hs.advance hrest _), hs.advance, rfl⟩
  exact reachedAt_operand hyields Nat.one_pos

theorem reached_field {n : Ident} {span : Span} (ht : t.WellBound) (hreached : t.Reached)
    (htight : Power.access ≤ t.tightness) : (field t n span).Reached := by
  intro m power s rest hm hpower hs hrest
  have hlength : (field t n span).lexemes.length = t.lexemes.length + 2 := by
    rw [lexemes_field, List.length_append]
    rfl
  rw [lexemes_field, List.append_assoc] at hs
  have hdot : Follows t.reach (Sign.dot.lexeme :: n.lexeme :: rest) :=
    .sign nofun fun c hc => by cases hc; exact ht.access_lt_reach htight
  refine (hreached (by omega) (hpower.trans htight) hs hdot).step rfl hpower (by omega) hm ?_
  intro t' s' hs' ht'
  obtain ⟨n', span', hn', hmember⟩ := memberAccess_name (g := grammar (m + 1)) (t := t') hs'
  refine ⟨_, _, hmember.trans (callIfArgs_none hs'.advance.advance hrest _),
    hs'.advance.advance, ?_⟩
  rw [relabeled, relabeled, ht', hn']
  rfl

theorem reached_callName {id : Nat} {i : Ident} {span : Span}
    (has : ∀ a ∈ as, a.WellBound ∧ a.Reached) : (call id (.name i) as span).Reached := by
  intro m power s rest hm _ hs _
  have hwords : (call id (.name i) as span).lexemes
      = i.lexeme :: Sign.lparen.lexeme :: (argLexemes as ++ [Sign.rparen.lexeme]) := by
    rw [lexemes_call, lexemes_name, List.singleton_append]
  have hcount := length_le_argLexemes as
  rw [hwords, List.length_cons, List.length_cons, List.length_append, List.length_singleton] at hm
  rw [hwords, List.cons_append, List.cons_append, List.append_assoc] at hs
  obtain ⟨span', hoperand⟩ := operand_name (g := grammar (m + 1)) hs
  obtain ⟨m, rfl⟩ : ∃ n, m = n + 1 := ⟨m - 1, by omega⟩
  refine reachedAt_operand ?_ (by rw [hwords]; exact Nat.succ_pos _)
  rw [hoperand]
  refine callIfArgs_yields rfl (fun a ha => ⟨(has a ha).1, ?_⟩)
    (show as.length ≤ m + 1 by omega) hs.advance _ _ _
  exact (has a ha).2.readBy (has a ha).1 (by have := length_le_of_mem_args ha; omega)

theorem reached_callMember {id : Nat} {n : Ident} {span span' : Span} (ht : t.WellBound)
    (hreached : t.Reached) (htight : Power.access ≤ t.tightness)
    (has : ∀ a ∈ as, a.WellBound ∧ a.Reached) : (call id (.field t n span) as span').Reached := by
  intro m power s rest hm hpower hs hrest
  have hwords : (call id (.field t n span) as span').lexemes
      = t.lexemes ++ Sign.dot.lexeme :: n.lexeme :: Sign.lparen.lexeme ::
        (argLexemes as ++ [Sign.rparen.lexeme]) := by
    rw [lexemes_call, lexemes_field, List.append_assoc]
    rfl
  have hcount := length_le_argLexemes as
  have hlength : (call id (.field t n span) as span').lexemes.length
      = t.lexemes.length + (argLexemes as).length + 4 := by
    rw [hwords]
    simp only [List.length_append, List.length_cons, List.length_nil]
    omega
  have hdot : ∀ ls, Follows t.reach (Sign.dot.lexeme :: ls) := fun _ =>
    .sign nofun fun c hc => by cases hc; exact ht.access_lt_reach htight
  rw [hwords, List.append_assoc, List.cons_append, List.cons_append, List.cons_append,
    List.append_assoc] at hs
  -- the target does not take the dot, and the name behind it is called
  refine (hreached (by omega) (hpower.trans htight) hs (hdot _)).step rfl hpower (by omega) hm ?_
  intro t' s' hs' ht'
  obtain ⟨n', start, hn', hmember⟩ := memberAccess_name (g := grammar (m + 1)) (t := t') hs'
  obtain ⟨m, rfl⟩ : ∃ n, m = n + 1 := ⟨m - 1, by omega⟩
  rw [Grammar.Continuation.parse, hmember]
  refine callIfArgs_yields (by rw [relabeled, relabeled, ht', hn']; rfl)
    (fun a ha => ⟨(has a ha).1, ?_⟩) (show as.length ≤ m + 1 by omega) hs'.advance.advance _ _ _
  exact (has a ha).2.readBy (has a ha).1 (by have := length_le_of_mem_args ha; omega)

/-- A parenthesis before plain words is no beginning of a lambda or a cast. -/
theorem signOperand_paren (hs : s.Reads ls) :
    Grammar.signOperand g .lparen s = Grammar.parenthesized g s := by
  have hplain : Lexeme.ArePlain (s.ahead.map Token.lexeme) := hs.ahead ▸ hs.plain
  have hsign : Grammar.signOperand g .lparen = (do
      let ts := (← get).ahead
      if Lookahead.isLambda ts then Grammar.lambda g
      else if Lookahead.isCast ts then Grammar.cast g
      else Grammar.parenthesized g) := rfl
  rw [hsign, bind_ok (get_eq s)]
  simp only [Lookahead.isLambda_plain hplain, Lookahead.isCast_plain hplain,
    if_neg Bool.false_ne_true]

theorem signOperand_unary (op : UnaryOp) :
    Grammar.signOperand g op.sign = (do
      let t ← Parser.advance
      let operand ← g.expr Power.unary
      return .unary op operand (t.span.merge operand.span)) := by
  cases op <;> rfl

theorem reached_paren {span : Span} (he : e.WellBound) (hreached : e.Reached) :
    (paren e span).Reached := by
  intro m power s rest hm _ hs _
  rw [lexemes_paren, List.length_cons, List.length_append, List.length_singleton] at hm
  rw [lexemes_paren, List.cons_append, List.append_assoc] at hs
  obtain ⟨m, rfl⟩ : ∃ n, m = n + 1 := ⟨m - 1, by omega⟩
  obtain ⟨e', s', hexpr, hs', he'⟩ :=
    hreached.readBy he (m := m) (by omega) hs.advance (.sign nofun nofun)
  have hoperand : Grammar.operand (grammar (m + 1 + 1)) s
      = .ok (.paren e' (s.next.span.merge s'.next.span)) s'.advance := by
    rw [operand_sign hs, signOperand_paren hs, Grammar.parenthesized,
      bind_ok (expect_ok hs.sign), bind_ok (p := (grammar (m + 1 + 1)).expr 0) hexpr,
      bind_ok (expect_ok hs'.sign), pure_eq]
  refine reachedAt_operand ⟨_, _, hoperand, hs'.advance, ?_⟩ (Nat.succ_pos _)
  rw [relabeled, relabeled, he']
  rfl

theorem reached_unary {op : UnaryOp} {span : Span} (he : e.WellBound) (hreached : e.Reached)
    (htight : Power.unary ≤ e.tightness) : (unary op e span).Reached := by
  intro m power s rest hm _ hs hrest
  rw [lexemes_unary, List.length_cons] at hm
  rw [lexemes_unary, List.cons_append] at hs
  obtain ⟨m, rfl⟩ : ∃ n, m = n + 1 := ⟨m - 1, by omega⟩
  obtain ⟨e', s', hexpr, hs', he'⟩ :=
    hreached.yields he (m := m) (by omega) htight hs.advance hrest
  have hoperand : Grammar.operand (grammar (m + 1 + 1)) s
      = .ok (.unary op e' (s.next.span.merge e'.span)) s' := by
    rw [operand_sign hs, signOperand_unary, bind_ok (advance_eq s),
      bind_ok (p := (grammar (m + 1 + 1)).expr Power.unary) hexpr, pure_eq]
  refine reachedAt_operand ⟨_, _, hoperand, hs', ?_⟩ (Nat.succ_pos _)
  rw [relabeled, relabeled, he']
  rfl

theorem reached_update {op : UpdateOp} {span : Span} (he : e.WellBound) (hreached : e.Reached)
    (htight : Power.access ≤ e.tightness) : (update e op span).Reached := by
  intro m power s rest hm hpower hs _
  have hlength : (update e op span).lexemes.length = e.lexemes.length + 1 := by
    rw [lexemes_update, List.length_append]
    rfl
  have hsign := Grammar.Continuation.ofSign?_update op
  rw [lexemes_update, List.append_assoc] at hs
  have hop : Follows e.reach (op.sign.lexeme :: rest) :=
    .sign (by cases op <;> exact nofun) fun c hc => by
      rw [hsign] at hc
      exact Option.some.inj hc ▸ he.access_lt_reach htight
  refine (hreached (by omega) (hpower.trans htight) hs hop).step hsign hpower (by omega) hm ?_
  intro e' s' hs' he'
  refine ⟨_, _, by rw [Grammar.Continuation.parse, bind_ok (advance_eq s')]; rfl, hs'.advance, ?_⟩
  rw [relabeled, relabeled, he']
  rfl

theorem reached_index {i : Expr} {span : Span} (ht : t.WellBound) (hreached : t.Reached)
    (htight : Power.access ≤ t.tightness) (hi : i.WellBound) (hireached : i.Reached) :
    (index t i span).Reached := by
  intro m power s rest hm hpower hs _
  have hlength : (index t i span).lexemes.length = t.lexemes.length + i.lexemes.length + 2 := by
    rw [lexemes_index]
    simp only [List.length_append, List.length_cons, List.length_nil]
    omega
  rw [lexemes_index, List.append_assoc, List.cons_append, List.append_assoc] at hs
  have hopen : Follows t.reach
      (Sign.lbracket.lexeme :: (i.lexemes ++ ([Sign.rbracket.lexeme] ++ rest))) :=
    .sign nofun fun c hc => by cases hc; exact ht.access_lt_reach htight
  refine (hreached (by omega) (hpower.trans htight) hs hopen).step rfl hpower (by omega) hm ?_
  intro t' s' hs' ht'
  obtain ⟨m, rfl⟩ : ∃ n, m = n + 1 := ⟨m - 1, by omega⟩
  obtain ⟨i', s'', hexpr, hs'', hi'⟩ :=
    hireached.readBy hi (m := m) (by omega) hs'.advance (.sign nofun nofun)
  -- an expression stands between the brackets, so they are no pair of a type
  have hne : (s'.nth 1).kind ≠ Sign.rbracket := by
    obtain ⟨l, ls, hls, hl⟩ := hi.head
    rw [hls, List.cons_append] at hs'
    rw [hs'.nth_one]
    exact (WellBound.ne_of_head hl).2
  have hindexing : Grammar.indexing (grammar (m + 1 + 1)) t' s'
      = .ok (.index t' i' (t'.span.merge s''.next.span)) s''.advance := by
    rw [Grammar.indexing, bind_ok (checkNth_eq _ _ _), decide_eq_false hne,
      if_neg Bool.false_ne_true, bind_ok (discard_ok (expect_ok hs'.sign)),
      bind_ok (p := (grammar (m + 1 + 1)).expr 0) hexpr, bind_ok (expect_ok hs''.sign), pure_eq]
  refine ⟨_, _, hindexing, hs''.advance, ?_⟩
  rw [relabeled, relabeled, ht', hi']
  rfl

theorem reached_binary {l r : Expr} {op : BinaryOp} {span : Span} (hl : l.WellBound)
    (hlreached : l.Reached) (hr : r.WellBound) (hrreached : r.Reached)
    (hleft : op.leftPower ≤ l.tightness) (hright : op.rightPower ≤ r.tightness) :
    (binary l op r span).Reached := by
  intro m power s rest hm hpower hs hrest
  have hlength : (binary l op r span).lexemes.length
      = l.lexemes.length + r.lexemes.length + 1 := by
    rw [lexemes_binary, List.length_append, List.length_cons]
    omega
  have hsign := Grammar.Continuation.ofSign?_binary op
  rw [lexemes_binary, List.append_assoc, List.cons_append] at hs
  have hop : Follows l.reach (op.sign.lexeme :: (r.lexemes ++ rest)) :=
    .sign (by cases op <;> exact nofun) fun c hc => by
      rw [hsign] at hc
      exact Option.some.inj hc ▸ hl.leftPower_lt_reach hleft
  -- the left operand does not take the operator, and the right one reads all that is left
  refine (hlreached (by omega) (hpower.trans hleft) hs hop).step hsign hpower (by omega) hm ?_
  intro l' s' hs' hl'
  obtain ⟨m, rfl⟩ : ∃ n, m = n + 1 := ⟨m - 1, by omega⟩
  obtain ⟨r', s'', hexpr, hs'', hr'⟩ :=
    hrreached.yields hr (m := m) (by omega) hright hs'.advance hrest
  have hparse : (Grammar.Continuation.binary op).parse (grammar (m + 1 + 1)) l' s'
      = .ok (.binary l' op r' (l'.span.merge r'.span)) s'' := by
    rw [Grammar.Continuation.parse, bind_ok (discard_ok (advance_eq s')),
      bind_ok (p := (grammar (m + 1 + 1)).expr op.rightPower) hexpr, pure_eq]
  refine ⟨_, _, hparse, hs'', ?_⟩
  rw [relabeled, relabeled, hl', hr']
  rfl

theorem reached_assign {v : Expr} {op : AssignOp} {span : Span} (ht : t.WellBound)
    (htreached : t.Reached) (hv : v.WellBound) (hvreached : v.Reached)
    (htight : Power.assignment < t.tightness) : (assign t op v span).Reached := by
  intro m power s rest hm hpower hs hrest
  have hlength : (assign t op v span).lexemes.length
      = t.lexemes.length + v.lexemes.length + 1 := by
    rw [lexemes_assign, List.length_append, List.length_cons]
    omega
  have hsign := Grammar.Continuation.ofSign?_assign op
  rw [lexemes_assign, List.append_assoc, List.cons_append] at hs
  have hop : Follows t.reach (op.sign.lexeme :: (v.lexemes ++ rest)) :=
    .sign (by cases op <;> exact nofun) fun c hc => by
      rw [hsign] at hc
      exact Option.some.inj hc ▸ htight.trans_le ht.tightness_le_reach
  refine (htreached (by omega) (hpower.trans htight.le) hs hop).step hsign hpower (by omega) hm ?_
  intro t' s' hs' ht'
  obtain ⟨m, rfl⟩ : ∃ n, m = n + 1 := ⟨m - 1, by omega⟩
  obtain ⟨v', s'', hexpr, hs'', hv'⟩ :=
    hvreached.yields hv (m := m) (by omega) v.one_le_tightness hs'.advance hrest
  have hparse : (Grammar.Continuation.assign op).parse (grammar (m + 1 + 1)) t' s'
      = .ok (.assign t' op v' (t'.span.merge v'.span)) s'' := by
    rw [Grammar.Continuation.parse, bind_ok (discard_ok (advance_eq s')),
      bind_ok (p := (grammar (m + 1 + 1)).expr Power.assignment) hexpr, pure_eq]
  refine ⟨_, _, hparse, hs'', ?_⟩
  rw [relabeled, relabeled, ht', hv']
  rfl

/-- **A well-bound expression is reached** wherever it is tight enough. -/
theorem WellBound.reached (h : e.WellBound) : e.Reached := by
  induction h with
  | name => exact reached_name
  | paren he ih => exact reached_paren he ih
  | field ht htight _ ih => exact reached_field ht ih htight
  | index ht htight hi iht ihi => exact reached_index ht iht htight hi ihi
  | callName _ has ih => exact reached_callName fun a ha => ⟨has a ha, ih a ha⟩
  | callMember ht htight _ has iht ih =>
    exact reached_callMember ht iht htight fun a ha => ⟨has a ha, ih a ha⟩
  | unary he htight ih => exact reached_unary he ih htight
  | update he htight ih => exact reached_update he ih htight
  | binary hl hr hleft hright ihl ihr => exact reached_binary hl ihl hr ihr hleft hright
  | assign ht hv htight iht ihv => exact reached_assign ht iht hv ihv htight

end Expr

/-! ### Whole texts -/

namespace Expr

end Expr

end JavaGraft

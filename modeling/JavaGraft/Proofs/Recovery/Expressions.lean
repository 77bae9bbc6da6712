import JavaGraft.Grammar.Expr
import JavaGraft.Proofs.Recovery.Types

/-!
# What the rules for expressions keep

The rules for expressions keep bounds and braces if the recursive parts do. Two errors are noticed
only when a token is consumed already that does not stand for itself: a faulty literal, and a
`.class` behind what is no type.
-/

namespace JavaGraft.Grammar

open Enclosure RunsFrom

variable {c : Enclosure} {g : Rules} {n r : Nat} (h : g.Keep c n)

include h

/-! ### Parts of operands -/

theorem runs_arguments (hr : 8 * r ≤ n + 6) : c.Moves r (arguments g) := by
  unfold arguments
  refine (expect rfl).discard.bind fun _ => joinNext (.pure rfl) ?_ fun args => ?_
  · exact (sepBy rfl (h.expr 0 (by omega)) (rounds_suffice h (by omega))).stays.anywhere
  · exact (expect rfl).stays.discard.bind fun _ => .pure rfl

theorem runs_callOf (callee : Expr) (start : Span) (hr : 8 * r ≤ n + 6) :
    c.Moves r (callOf g callee start) := by
  unfold callOf
  refine (runs_arguments h hr).bind fun args => freshCall.bind fun id => ?_
  exact (spanFrom _).bind fun _ => .pure rfl

theorem runs_callIfArgs (callee : Expr) (start : Span) (hr : 8 * r ≤ n + 6) :
    c.Stays r (callIfArgs g callee start) :=
  ifNext (runs_callOf h callee start hr).stays.anywhere (.pure rfl)

theorem runs_braces (hr : 8 * r ≤ n + 6) : c.Moves r (braces g) := by
  unfold braces
  refine open_bind fun first => ?_
  refine (sepUntil rfl (h.expr 0 (by omega)) (rounds_suffice h (by omega))).bind fun elements => ?_
  exact close_bind fun last => .pure rfl

theorem runs_arrayInit (hr : 8 * r ≤ n + 6) : c.Moves r (arrayInit g) :=
  (runs_braces h hr).bind fun _ => .pure rfl

/-! ### What follows an operand directly -/

omit h in
/-- A sign behind which a `class` may be rejected for what stands before it. -/
theorem expect_ifClass {α : Type} {start : ParserState → Prop} {take : α → Nat} {sign : Sign}
    (hinner : (TokenKind.sign sign).isInner) (hgreater : sign ≠ .greater) (hshr : sign ≠ .shr)
    {p q : Token → Parser α}
    (hp : ∀ t, c.Runs (r - 1) 0 (fun a => take a - 1) (p t) ∨
      p t = Parser.reject .notATypeName t.span)
    (hq : ∀ t, c.Runs (r - 1) 0 (fun a => take a - 1) (q t)) :
    c.RunsFrom start r 0 take (Parser.expect sign >>= fun t =>
      Parser.eat Keyword.kwClass >>= fun b => if b then p t else q t) := by
  refine expect_bind fun s hs hfinish hremaining => ?_
  have hnext : s.next.kind = .sign sign := hs
  have hinner : s.next.kind.isInner := by rwa [hnext]
  have hfinish' : s.advance.finish.kind = .endOfSource := by rwa [ParserState.finish_advance]
  have hremaining' := ParserState.remaining_advance_of_inner hinner hfinish
  rw [Parser.bind_ok (Parser.advance_eq s)]
  have hrun (hchoice : c.RunsFrom (fun u => u = s.advance) (r - 1) 0 (fun a => take a - 1)
      (Parser.eat Keyword.kwClass >>= fun b => if b then p s.next else q s.next)) :=
    EndsWell.advanced hinner hfinish (hchoice s.advance rfl hfinish' (by omega))
  rcases hp s.next with hp | hreject
  · exact hrun (ifEat rfl (hp.weaken (fun _ => id) (Nat.sub_le _ _) fun _ => Nat.sub_le _ _)
      (hq _).anywhere)
  · by_cases hclass : s.advance.next.kind = Keyword.kwClass
    · -- the `class` is taken, and the sign before it is rejected
      rw [Parser.bind_ok (Parser.eat_ok hclass), if_pos rfl, hreject]
      have hinner' : s.advance.next.kind.isInner := by rw [hclass]; rfl
      have hremaining'' := ParserState.remaining_advance_of_inner hinner' hfinish'
      have hlater : c.Later 0 s s.advance.advance :=
        (Later.advance (TokenKind.ne_rbrace_of_inner hinner)).trans
          (.advance (TokenKind.ne_rbrace_of_inner hinner'))
      refine ⟨by omega, hlater, fun _ he depth hdepth hwithin => ?_⟩
      refine ParserState.next_ne_rbrace (by rwa [ParserState.finish_advance]) ?_
      rw [ParserState.closesNext_advance hclass]
      exact hwithin.behind (by omega) (by rw [hnext]; simpa using hgreater)
        (by rw [hnext]; simpa using hshr) he (.inl rfl) rfl
    · rw [Parser.bind_ok (Parser.eat_no hclass)]
      exact .advanced hinner hfinish (hq s.next s.advance trivial hfinish' (by omega))

theorem runs_memberAccess (target : Expr) (hr : 8 * r ≤ n + 6) :
    c.Moves r (memberAccess g target) := by
  unfold memberAccess
  have hdot : (TokenKind.sign .dot).isInner := rfl
  refine expect_ifClass hdot nofun nofun (fun dot => ?_) fun dot => ifEat rfl ?_ ?_
  · cases chainType? target 0 with
    | none => exact .inr rfl
    | some t => exact .inl ((spanFrom _).bind fun _ => .pure rfl)
  · exact (spanFrom _).bind fun _ => .pure rfl
  · refine (runs_typeArgs? h (by omega)).anywhere.discard.bind fun _ => ?_
    exact identifier.stays.bind fun name => runs_callIfArgs h _ _ (by omega)

theorem runs_indexing (target : Expr) (hr : 8 * r ≤ n + 6) : c.Moves r (indexing g target) := by
  unfold indexing
  refine ifNth ?_ ?_
  · refine dims.anywhere.bind fun n => (expect rfl).discard.bind fun _ => expect_bind ?_
    refine advance_orReject (fun s hs => by rw [hs]; exact ⟨rfl, nofun, nofun⟩) fun word => ?_
    cases chainType? target n with
    | none => exact .inr ⟨_, .inl rfl, rfl⟩
    | some t => exact .inl ((spanFrom _).bind fun _ => .pure rfl)
  · refine (expect rfl).anywhere.discard.bind fun _ => ?_
    refine (h.expr 0 (by omega)).stays.bind fun index => ?_
    exact (expect rfl).stays.bind fun close => .pure rfl

omit h in
theorem runs_methodRef (target : Expr) : c.Moves r (methodRef target) := by
  unfold methodRef
  refine (expect rfl).discard.bind fun _ => peek_bind fun t => ite (fun ht => ?_) fun _ => ?_
  · have hadvance : c.RunsFrom (fun s => s.next = t ∧ True) (r - 1) 0 (fun _ => 1)
        Parser.advance := advance fun s hs => by
          rw [hs.1]
          rcases ht with ht | ht <;> rw [ht] <;> rfl
    exact hadvance.stays.discard.bind fun _ => .pure rfl
  · exact rejectFound rfl nofun

/-! ### Operands -/

theorem runs_arrayDims (hr : 8 * r ≤ n + 6) : c.Stays r (arrayDims g) := by
  unfold arrayDims
  refine iterate (fun found => ?_) (rounds_suffice h (by omega)) _
  obtain ⟨n, lengths⟩ := found
  refine unlessNext (.pure rfl) (ifNth ?_ (ite (fun _ => ?_) fun _ => .pure rfl))
  · exact advance_twice (fun s hs => by rw [hs.1, hs.2.1]; exact ⟨rfl, rfl⟩) (.pure rfl)
  · have hadvance : c.RunsFrom (fun s => (s.nth 1).kind ≠ Sign.rbracket ∧
        s.next.kind = Sign.lbracket ∧ True) r 0 (fun _ => 1) Parser.advance :=
      advance fun s hs => by rw [hs.2.1]; rfl
    refine hadvance.discard.bind fun _ => (h.expr 0 (by omega)).stays.bind fun length => ?_
    exact (expect rfl).stays.discard.bind fun _ => .pure rfl

theorem runs_creation (hr : 8 * r ≤ n + 6) : c.Moves r (creation g) := by
  unfold creation
  refine (expect rfl).bind fun start => (runs_typeArgs? h (by omega)).discard.bind fun _ => ?_
  refine (runs_plainType h (by omega)).stays.bind fun plain => ifNext ?_ ?_
  · refine (runs_arrayDims h (by omega)).anywhere.bind fun found => ifNext ?_ ?_
    · refine (runs_braces h (by omega)).stays.anywhere.bind fun elements => ?_
      exact (spanFrom _).bind fun _ => .pure rfl
    · exact (spanFrom _).bind fun _ => .pure rfl
  · refine (runs_arguments h (by omega)).stays.anywhere.bind fun args => ifNext ?_ ?_
    · refine (h.classBody "" (by omega)).stays.anywhere.bind fun body => ?_
      exact (spanFrom _).bind fun _ => .pure rfl
    · exact (spanFrom _).bind fun _ => .pure rfl

theorem runs_cast (hr : 8 * r ≤ n + 6) : c.Moves r (cast g) := by
  unfold cast
  refine (expect rfl).bind fun first => (h.type (by omega)).stays.bind fun type => ?_
  refine (expect rfl).stays.discard.bind fun _ => ?_
  exact (h.expr _ (by omega)).stays.bind fun operand => .pure rfl

theorem runs_lambdaParam (hr : 8 * r ≤ n + 4) : c.Moves r (lambdaParam g) := by
  unfold lambdaParam
  have htype : c.Stays r (some <$> g.type) := (h.type (by omega)).stays.map fun _ => rfl
  refine (eat rfl).discard.bind fun _ => getting fun s => getting fun t => ?_
  refine ite (fun _ => ?_) fun _ => htype.bind fun type => identifier.bind fun _ => .pure rfl
  rw [pure_bind]
  exact identifier.bind fun _ => .pure rfl

theorem runs_lambdaParams (hr : 8 * r ≤ n + 6) : c.Moves r (lambdaParams g) := by
  unfold lambdaParams
  refine ifNext (identifier.anywhere.bind fun _ => .pure rfl) ?_
  refine (expect rfl).anywhere.discard.bind fun _ => ?_
  refine (sepUntil rfl (runs_lambdaParam h (by omega)) (rounds_suffice h (by omega))).bind
    fun params => ?_
  exact (expect rfl).stays.discard.bind fun _ => .pure rfl

theorem runs_lambda (hr : 8 * r ≤ n + 6) : c.Moves r (lambda g) := by
  unfold lambda
  refine peeking fun t => (runs_lambdaParams h hr).bind fun params => ?_
  refine (expect rfl).stays.discard.bind fun _ => ifNext ?_ ?_
  · refine (h.block (by omega)).stays.anywhere.bind fun body => ?_
    exact (spanFrom _).bind fun _ => .pure rfl
  · refine (h.expr 0 (by omega)).stays.anywhere.bind fun body => ?_
    exact (spanFrom _).bind fun _ => .pure rfl

theorem runs_parenthesized (hr : 8 * r ≤ n + 6) : c.Moves r (parenthesized g) := by
  unfold parenthesized
  refine (expect rfl).bind fun first => (h.expr 0 (by omega)).stays.bind fun inner => ?_
  exact (expect rfl).stays.bind fun last => .pure rfl

theorem runs_primitiveClass (hr : 8 * r ≤ n + 4) : c.Moves r (primitiveClass g) := by
  unfold primitiveClass
  refine peeking fun t => (h.type (by omega)).bind fun type => ?_
  refine (expect rfl).stays.discard.bind fun _ => (expect rfl).stays.discard.bind fun _ => ?_
  exact (spanFrom _).bind fun _ => .pure rfl

omit h in
theorem runs_literal (kind : LiteralKind) :
    c.RunsFrom (fun s => s.next.kind = .literal kind) r 0 (fun _ => 1) (literal kind) := by
  unfold literal
  refine advance_orReject (fun s hs => by rw [hs]; exact ⟨rfl, nofun, nofun⟩) fun t => ?_
  cases Literal.ofText kind t.text.toList with
  | ok value => exact .inl (.pure rfl)
  | error fault => exact .inr ⟨_, .inr ⟨_, _, rfl⟩, rfl⟩

theorem runs_wordOperand (word : Keyword) (hr : 8 * r ≤ n + 4) :
    c.RunsFrom (fun s => s.next.kind = .keyword word) r 0 (fun _ => 1) (wordOperand g word) := by
  have hadvance : c.RunsFrom (fun s => s.next.kind = .keyword word) r 0 (fun _ => 1)
      Parser.advance := advance fun s hs => by rw [hs]; rfl
  unfold wordOperand
  split
  · exact hadvance.bind fun _ => .pure rfl
  · exact hadvance.bind fun t => runs_callIfArgs h _ _ (by omega)
  · exact hadvance.bind fun t => runs_callIfArgs h _ _ (by omega)
  · exact (runs_creation h (by omega)).anywhere
  · exact ite (fun _ => (runs_primitiveClass h hr).anywhere) fun _ => rejectFound rfl nofun

omit h in
theorem isInner_of_unaryOp {sign : Sign} {op : UnaryOp} (hop : UnaryOp.ofSign? sign = some op) :
    (TokenKind.sign sign).isInner := by
  cases sign <;> first | rfl | cases hop

theorem runs_signOperand (mark : Sign) (hr : 8 * r ≤ n + 4) :
    c.RunsFrom (fun s => s.next.kind = .sign mark) r 0 (fun _ => 1) (signOperand g mark) := by
  unfold signOperand
  cases hop : UnaryOp.ofSign? mark with
  | some op =>
    have hadvance : c.RunsFrom (fun s => s.next.kind = .sign mark) r 0 (fun _ => 1)
        Parser.advance := advance fun s hs => by rw [hs]; exact isInner_of_unaryOp hop
    exact hadvance.bind fun t => (h.expr _ (by omega)).stays.bind fun _ => .pure rfl
  | none =>
    split
    · next heq => cases heq
    · refine getting fun s => ite (fun _ => runs_lambda h (by omega)) fun _ => ?_
      exact ite (fun _ => runs_cast h (by omega)) fun _ => runs_parenthesized h (by omega)
    · exact (runs_arrayInit h (by omega)).anywhere
    · exact rejectFound rfl nofun

theorem runs_operand (hr : 8 * r ≤ n + 4) : c.Moves r (operand g) := by
  unfold operand
  refine peek_bind fun t => ?_
  split
  · next kind ht => exact (runs_literal kind).weaken (fun s hs => hs.1 ▸ ht) le_rfl fun _ => le_rfl
  · next ht =>
    have hadvance : c.RunsFrom (fun s => (s.nth 1).kind ≠ Sign.arrow ∧ s.next = t ∧ True) r 0
        (fun _ => 1) Parser.advance := advance fun s hs => by rw [hs.2.1, ht]; rfl
    refine ifNth (runs_lambda h (by omega)).anywhere ?_
    exact hadvance.discard.bind fun _ => runs_callIfArgs h _ _ (by omega)
  · next word ht =>
    exact (runs_wordOperand h word hr).weaken (fun s hs => hs.1 ▸ ht) le_rfl fun _ => le_rfl
  · next sign ht =>
    exact (runs_signOperand h sign hr).weaken (fun s hs => hs.1 ▸ ht) le_rfl fun _ => le_rfl
  · exact rejectFound rfl nofun
  · next ht =>
    refine rejectNext fun s hs hnext => ?_
    rw [hs.1, ht] at hnext
    cases hnext

/-! ### Operators -/

theorem runs_conditional (condition : Expr) (hr : 8 * r ≤ n + 6) :
    c.Moves r (conditional g condition) := by
  unfold conditional
  refine (expect rfl).discard.bind fun _ => (h.expr _ (by omega)).stays.bind fun yes => ?_
  refine (expect rfl).stays.discard.bind fun _ => ?_
  exact (h.expr _ (by omega)).stays.bind fun no => .pure rfl

theorem runs_typeTest (value : Expr) (hr : 8 * r ≤ n + 6) : c.Moves r (typeTest g value) := by
  unfold typeTest
  refine (expect rfl).discard.bind fun _ => (eat rfl).discard.bind fun _ => ?_
  refine (h.type (by omega)).stays.bind fun type => (eat? rfl).stays.bind fun binding => ?_
  exact (spanFrom _).bind fun _ => .pure rfl

omit h in
theorem isInner_of_continuation {kind : TokenKind} {k : Continuation}
    (hk : Continuation.ofKind? kind = some k) : kind.isInner := by
  unfold Continuation.ofKind? at hk
  split at hk
  · next sign => cases sign <;> first | rfl | cases hk
  · rfl
  · cases hk

theorem runs_continuation (left : Expr) (k : Continuation) (hr : 8 * r ≤ n + 4) :
    c.RunsFrom (fun s => s.next.kind.isInner) r 0 (fun _ => 1) (k.parse g left) := by
  have hadvance : c.RunsFrom (fun s => s.next.kind.isInner) r 0 (fun _ => 1) Parser.advance :=
    advance fun s hs => hs
  cases k with
  | update op => exact hadvance.bind fun t => .pure rfl
  | member => exact (runs_memberAccess h left (by omega)).anywhere
  | index => exact (runs_indexing h left (by omega)).anywhere
  | methodRef => exact (runs_methodRef left).anywhere
  | conditional => exact (runs_conditional h left (by omega)).anywhere
  | typeTest => exact (runs_typeTest h left (by omega)).anywhere
  | assign op =>
    exact hadvance.discard.bind fun _ => (h.expr _ (by omega)).stays.bind fun _ => .pure rfl
  | binary op =>
    exact hadvance.discard.bind fun _ => (h.expr _ (by omega)).stays.bind fun _ => .pure rfl

theorem runs_operators (power : Nat) (first : Expr) (hr : 8 * r ≤ n + 4) :
    c.Stays r (operators g power first) := by
  unfold operators
  refine iterate (fun left => peek_bind fun t => ?_) (rounds_suffice h (by omega)) _
  cases hk : Continuation.ofKind? t.kind with
  | none => exact .pure rfl
  | some k =>
    refine ite (fun _ => ?_) fun _ => .pure rfl
    refine RunsFrom.bind ((runs_continuation h left k hr).weaken (fun s hs => ?_) le_rfl
      fun _ => le_rfl) fun e => .pure rfl
    rw [hs.1]
    exact isInner_of_continuation hk

theorem runs_expr (power : Nat) (hr : 8 * r ≤ n + 4) : c.Moves r (expr g power) :=
  (runs_operand h hr).bind fun first => (runs_operators h power first (by omega)).stays

end JavaGraft.Grammar

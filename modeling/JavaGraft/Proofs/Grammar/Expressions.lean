import JavaGraft.Grammar.Expr
import JavaGraft.Proofs.Grammar.Lookahead
import JavaGraft.Proofs.Grammar.Types

/-!
# Two runs of the rules for expressions

The rules for expressions have corresponding runs if the recursive parts have. A call is numbered
when its arguments have been read, in both runs, so the numbers of calls correspond like those
still to come.
-/

namespace JavaGraft.Grammar

open Correspondence

variable {c : Correspondence} {g g' : Rules} (hg : c.Respects g g')

include hg

/-! ### Parts of operands -/

theorem parallel_arguments :
    c.Parallel (c.SameList Expr.relabeled) (arguments g) (arguments g') := by
  unfold arguments
  refine (Parallel.discard (.expect _)).bind fun _ _ _ => ?_
  refine .joining (R := c.SameList Expr.relabeled) (.check _) (.pure rfl)
    (.sepBy hg.rounds _ (hg.expr 0)) fun as as' has => ?_
  exact (Parallel.discard (.expect _)).bind fun _ _ _ => .pure has

theorem parallel_callOf {callee callee' : Expr} {start start' : Span}
    (hcallee : c.Same Expr.relabeled callee callee') (hstart : c.SameSpan start start') :
    c.Parallel (c.Same Expr.relabeled) (callOf g callee start) (callOf g' callee' start') := by
  unfold callOf
  refine (parallel_arguments hg).bind fun as as' has => ?_
  refine Parallel.freshCall.bind fun id id' hid => ?_
  refine (Parallel.spanFrom hstart).bind fun s s' hs => .pure ?_
  simp only [Same, Expr.relabeled, Expr.allRelabeled_eq_map, hid, hcallee, has, hs]

theorem parallel_callIfArgs {callee callee' : Expr} {start start' : Span}
    (hcallee : c.Same Expr.relabeled callee callee') (hstart : c.SameSpan start start') :
    c.Parallel (c.Same Expr.relabeled) (callIfArgs g callee start)
      (callIfArgs g' callee' start') :=
  .whether (.check _) (parallel_callOf hg hcallee hstart) (.pure hcallee)

theorem parallel_braces :
    c.Parallel (fun x x' => c.SameList Expr.relabeled x.1 x'.1 ∧ c.SameSpan x.2 x'.2)
      (braces g) (braces g') := by
  unfold braces
  refine (Parallel.expect _).bind fun t t' ht => ?_
  refine (Parallel.sepUntil hg.rounds _ _ (hg.expr 0)).bind fun es es' hes => ?_
  exact (Parallel.expect _).bind fun u u' hu => .pure ⟨hes, ht.span.merge hu.span⟩

theorem parallel_arrayInit :
    c.Parallel (c.Same Expr.relabeled) (arrayInit g) (arrayInit g') := by
  unfold arrayInit
  refine (parallel_braces hg).bind fun x x' hx => .pure ?_
  simp only [Same, Expr.relabeled, Expr.allRelabeled_eq_map, hx.1, hx.2]

omit hg in
theorem chainType?_relabeled (ρ : Relabeling) (e : Expr) (dims : Nat) :
    chainType? (e.relabeled ρ) dims = (chainType? e dims).map (TypeExpr.relabeled ρ) := by
  simp only [chainType?, Expr.chain?_relabeled, Expr.span_relabeled, Option.map_map]
  cases e.chain? <;> rfl

omit hg in
theorem same_chainType? {e e' : Expr} (he : c.Same Expr.relabeled e e') (dims : Nat) :
    c.SameOption TypeExpr.relabeled (chainType? e dims) (chainType? e' dims) := by
  rw [SameOption, ← chainType?_relabeled, ← chainType?_relabeled, he]

/-! ### What follows an operand directly -/

theorem parallel_memberAccess {target target' : Expr}
    (htarget : c.Same Expr.relabeled target target') :
    c.Parallel (c.Same Expr.relabeled) (memberAccess g target) (memberAccess g' target') := by
  have hstart : c.SameSpan target.span target'.span := Same.span Expr.span_relabeled htarget
  unfold memberAccess
  refine (Parallel.expect _).bind fun dot dot' hdot => ?_
  refine .whether (.eat _) ?_ (.whether (.eat _) ?_ ?_)
  · have ht := same_chainType? htarget 0
    cases h : chainType? target 0 <;> cases h' : chainType? target' 0 <;>
      simp only [h, h', SameOption, Option.map_some, Option.map_none, reduceCtorEq,
        Option.some.injEq] at ht
    · exact .reject _ hdot.span
    · refine (Parallel.spanFrom hstart).bind fun s s' hs => .pure ?_
      simp only [Same, Expr.relabeled, ht, hs]
  · refine (Parallel.spanFrom hstart).bind fun s s' hs => .pure ?_
    simp only [Same, Expr.relabeled, hs]
  · refine (Parallel.discard (parallel_typeArgs? hg)).bind fun _ _ _ => ?_
    refine Parallel.identifier.bind fun i i' hi => parallel_callIfArgs hg ?_ hstart
    simp only [Same, Expr.relabeled, htarget, hi,
      hstart.merge (Same.span Ident.span_relabeled hi)]

theorem parallel_indexing {target target' : Expr}
    (htarget : c.Same Expr.relabeled target target') :
    c.Parallel (c.Same Expr.relabeled) (indexing g target) (indexing g' target') := by
  have hstart : c.SameSpan target.span target'.span := Same.span Expr.span_relabeled htarget
  unfold indexing
  refine .whether (.checkNth _ _) ?_ ?_
  · refine Parallel.dims.bind fun n n' hn => (Parallel.discard (.expect _)).bind fun _ _ _ => ?_
    refine (Parallel.expect _).bind fun word word' hword => ?_
    subst hn
    have ht := same_chainType? htarget n
    cases h : chainType? target n <;> cases h' : chainType? target' n <;>
      simp only [h, h', SameOption, Option.map_some, Option.map_none, reduceCtorEq,
        Option.some.injEq] at ht
    · exact .reject _ hword.span
    · refine (Parallel.spanFrom hstart).bind fun s s' hs => .pure ?_
      simp only [Same, Expr.relabeled, ht, hs]
  · refine (Parallel.discard (.expect _)).bind fun _ _ _ => (hg.expr 0).bind fun i i' hi => ?_
    refine (Parallel.expect _).bind fun t t' ht => .pure ?_
    simp only [Same, Expr.relabeled, htarget, hi, hstart.merge ht.span]

omit hg in
theorem parallel_methodRef {target target' : Expr}
    (htarget : c.Same Expr.relabeled target target') :
    c.Parallel (c.Same Expr.relabeled) (methodRef target) (methodRef target') := by
  have hstart : c.SameSpan target.span target'.span := Same.span Expr.span_relabeled htarget
  unfold methodRef
  refine (Parallel.discard (.expect _)).bind fun _ _ _ => Parallel.peek.bind fun t t' ht => ?_
  refine .ite (by rw [ht.kind]) ?_ (.rejectNext _)
  refine (Parallel.discard .advance).bind fun _ _ _ => .pure ?_
  simp only [Same, Expr.relabeled, Ident.relabeled, htarget, ht.text, ht.span,
    hstart.merge ht.span]

/-! ### Operands -/

/-- Brackets read so far that correspond. -/
def SameDims (c : Correspondence) (x x' : Nat × List Expr) : Prop :=
  x.1 = x'.1 ∧ c.SameList Expr.relabeled x.2 x'.2

theorem parallel_arrayDims : c.Parallel (SameDims c) (arrayDims g) (arrayDims g') := by
  unfold arrayDims
  refine .iterate (B := SameDims c) (fun x x' hx => ?_) hg.rounds ⟨rfl, rfl⟩
  obtain ⟨n, lengths⟩ := x
  obtain ⟨n', lengths'⟩ := x'
  obtain ⟨rfl, hlengths⟩ := hx
  have hlength : lengths.length = lengths'.length := by
    simpa only [List.length_map] using congrArg List.length hlengths
  refine (Parallel.check _).bind fun b b' hb => ?_
  refine .ite (by rw [hb]) (.pure (.inr ⟨rfl, Parallel.same_reverse hlengths⟩)) ?_
  refine .whether (.checkNth _ _) ?_ (.ite (by rw [hlength]) ?_ ?_)
  · refine (Parallel.discard .advance).bind fun _ _ _ => ?_
    exact (Parallel.discard .advance).bind fun _ _ _ => .pure (.inl ⟨rfl, hlengths⟩)
  · refine (Parallel.discard .advance).bind fun _ _ _ => (hg.expr 0).bind fun e e' he => ?_
    refine (Parallel.discard (.expect _)).bind fun _ _ _ => ?_
    exact .pure (.inl ⟨rfl, Parallel.same_cons he hlengths⟩)
  · exact .pure (.inr ⟨rfl, Parallel.same_reverse hlengths⟩)

theorem parallel_creation : c.Parallel (c.Same Expr.relabeled) (creation g) (creation g') := by
  unfold creation
  refine (Parallel.expect _).bind fun t t' ht => ?_
  refine (Parallel.discard (parallel_typeArgs? hg)).bind fun _ _ _ => ?_
  refine (parallel_plainType hg).bind fun plain plain' hplain => .whether (.check _) ?_ ?_
  · refine (parallel_arrayDims hg).bind fun x x' hx => ?_
    have htype : c.Same TypeExpr.relabeled { plain with dims := x.1 }
        { plain' with dims := x'.1 } := by
      rw [hx.1]
      exact same_withDims hplain x'.1 (Same.span TypeExpr.span_relabeled hplain)
    refine .whether (.check _) ?_ ?_
    · refine (parallel_braces hg).bind fun y y' hy => ?_
      refine (Parallel.spanFrom ht.span).bind fun s s' hs => .pure ?_
      simp only [Same, Expr.relabeled, Expr.allRelabeled_eq_map, htype, hx.2, hy.1, hy.2, hs]
    · refine (Parallel.spanFrom ht.span).bind fun s s' hs => .pure ?_
      simp only [Same, Expr.relabeled, Expr.allRelabeled_eq_map, htype, hx.2, hs]
  · refine (parallel_arguments hg).bind fun as as' has => .whether (.check _) ?_ ?_
    · refine (hg.classBody _).bind fun ms ms' hms => ?_
      refine (Parallel.spanFrom ht.span).bind fun s s' hs => .pure ?_
      simp only [Same, Expr.relabeled, Expr.allRelabeled_eq_map, Member.allRelabeled_eq_map,
        hplain, has, hms, hs]
    · refine (Parallel.spanFrom ht.span).bind fun s s' hs => .pure ?_
      simp only [Same, Expr.relabeled, Expr.allRelabeled_eq_map, hplain, has, hs]

theorem parallel_cast : c.Parallel (c.Same Expr.relabeled) (cast g) (cast g') := by
  unfold cast
  refine (Parallel.expect _).bind fun t t' ht => hg.type.bind fun type type' htype => ?_
  refine (Parallel.discard (.expect _)).bind fun _ _ _ => (hg.expr _).bind fun e e' he => .pure ?_
  simp only [Same, Expr.relabeled, htype, he, ht.span.merge (Same.span Expr.span_relabeled he)]

theorem parallel_lambdaParam :
    c.Parallel (c.Same LambdaParam.relabeled) (lambdaParam g) (lambdaParam g') := by
  have hend : ∀ t t', c.SameOption TypeExpr.relabeled t t' →
      c.Parallel (c.Same LambdaParam.relabeled) (do return ⟨t, ← Parser.identifier⟩)
        (do return ⟨t', ← Parser.identifier⟩) := by
    intro t t' ht
    refine Parallel.identifier.bind fun i i' hi => .pure ?_
    simp only [Same, LambdaParam.relabeled, ht, hi]
  unfold lambdaParam
  refine (Parallel.discard (.eat _)).bind fun _ _ _ => ?_
  refine Parallel.get.bind fun s s' hs => Parallel.get.bind fun t t' ht => ?_
  refine .ite (by simp only [(hs.nth 1).kind, ht.next.kind]) (hend _ _ rfl) ?_
  exact hg.type.wrap.bind hend

theorem parallel_lambdaParams :
    c.Parallel (c.SameList LambdaParam.relabeled) (lambdaParams g) (lambdaParams g') := by
  unfold lambdaParams
  refine .whether (.check _) ?_ ?_
  · refine Parallel.identifier.bind fun i i' hi => .pure ?_
    simp only [SameList, List.map_cons, List.map_nil, LambdaParam.relabeled, Option.map_none, hi]
  · refine (Parallel.discard (.expect _)).bind fun _ _ _ => ?_
    refine (Parallel.sepUntil hg.rounds _ _ (parallel_lambdaParam hg)).bind fun ps ps' hps => ?_
    exact (Parallel.discard (.expect _)).bind fun _ _ _ => .pure hps

theorem parallel_lambda : c.Parallel (c.Same Expr.relabeled) (lambda g) (lambda g') := by
  unfold lambda
  refine Parallel.peek.bind fun t t' ht => (parallel_lambdaParams hg).bind fun ps ps' hps => ?_
  refine (Parallel.discard (.expect _)).bind fun _ _ _ => .whether (.check _) ?_ ?_
  · refine hg.block.bind fun b b' hb => (Parallel.spanFrom ht.span).bind fun s s' hs => .pure ?_
    simp only [Same, Expr.relabeled, hps, hb, hs]
  · refine (hg.expr 0).bind fun e e' he => (Parallel.spanFrom ht.span).bind fun s s' hs => .pure ?_
    simp only [Same, Expr.relabeled, hps, he, hs]

theorem parallel_parenthesized :
    c.Parallel (c.Same Expr.relabeled) (parenthesized g) (parenthesized g') := by
  unfold parenthesized
  refine (Parallel.expect _).bind fun t t' ht => (hg.expr 0).bind fun e e' he => ?_
  refine (Parallel.expect _).bind fun u u' hu => .pure ?_
  simp only [Same, Expr.relabeled, he, ht.span.merge hu.span]

theorem parallel_primitiveClass :
    c.Parallel (c.Same Expr.relabeled) (primitiveClass g) (primitiveClass g') := by
  unfold primitiveClass
  refine Parallel.peek.bind fun t t' ht => hg.type.bind fun type type' htype => ?_
  refine (Parallel.discard (.expect _)).bind fun _ _ _ => ?_
  refine (Parallel.discard (.expect _)).bind fun _ _ _ => ?_
  refine (Parallel.spanFrom ht.span).bind fun s s' hs => .pure ?_
  simp only [Same, Expr.relabeled, htype, hs]

omit hg in
theorem parallel_literal (kind : LiteralKind) :
    c.Parallel (c.Same Expr.relabeled) (literal kind) (literal kind) := by
  unfold literal
  refine Parallel.advance.bind fun t t' ht => ?_
  rw [ht.text]
  cases Literal.ofText kind t'.text.toList with
  | ok value =>
    refine .pure ?_
    simp only [Same, Expr.relabeled, ht.span]
  | error fault => exact .reject _ ht.span

theorem parallel_wordOperand (word : Keyword) :
    c.Parallel (c.Same Expr.relabeled) (wordOperand g word) (wordOperand g' word) := by
  unfold wordOperand
  split
  · refine Parallel.advance.bind fun t t' ht => .pure ?_
    simp only [Same, Expr.relabeled, ht.span]
  · refine Parallel.advance.bind fun t t' ht => parallel_callIfArgs hg ?_ ht.span
    simp only [Same, Expr.relabeled, ht.span]
  · refine Parallel.advance.bind fun t t' ht => parallel_callIfArgs hg ?_ ht.span
    simp only [Same, Expr.relabeled, ht.span]
  · exact parallel_creation hg
  · exact .ite .rfl (parallel_primitiveClass hg) (.rejectNext _)

theorem parallel_signOperand (sign : Sign) :
    c.Parallel (c.Same Expr.relabeled) (signOperand g sign) (signOperand g' sign) := by
  unfold signOperand
  split
  · refine Parallel.advance.bind fun t t' ht => (hg.expr _).bind fun e e' he => .pure ?_
    simp only [Same, Expr.relabeled, he, ht.span.merge (Same.span Expr.span_relabeled he)]
  · refine Parallel.get.bind fun s s' hs => ?_
    refine .ite (by rw [Lookahead.isLambda_congr hs.ahead]) (parallel_lambda hg) ?_
    exact .ite (by rw [Lookahead.isCast_congr hs.ahead]) (parallel_cast hg)
      (parallel_parenthesized hg)
  · exact parallel_arrayInit hg
  · exact .rejectNext _

theorem parallel_operand : c.Parallel (c.Same Expr.relabeled) (operand g) (operand g') := by
  unfold operand
  refine Parallel.peek.bind fun t t' ht => ?_
  rw [ht.kind]
  split
  · exact parallel_literal _
  · refine .whether (.checkNth _ _) (parallel_lambda hg) ?_
    refine (Parallel.discard .advance).bind fun _ _ _ => parallel_callIfArgs hg ?_ ht.span
    simp only [Same, Expr.relabeled, Ident.relabeled, ht.text, ht.span]
  · exact parallel_wordOperand hg _
  · exact parallel_signOperand hg _
  · exact .rejectNext _
  · exact .rejectNext _

/-! ### Operators -/

theorem parallel_conditional {condition condition' : Expr}
    (hcondition : c.Same Expr.relabeled condition condition') :
    c.Parallel (c.Same Expr.relabeled) (conditional g condition) (conditional g' condition') := by
  unfold conditional
  refine (Parallel.discard (.expect _)).bind fun _ _ _ => (hg.expr _).bind fun a a' ha => ?_
  refine (Parallel.discard (.expect _)).bind fun _ _ _ => (hg.expr _).bind fun b b' hb => .pure ?_
  have hspan := (Same.span Expr.span_relabeled hcondition).merge (Same.span Expr.span_relabeled hb)
  simp only [Same, Expr.relabeled, hcondition, ha, hb, hspan]

theorem parallel_typeTest {value value' : Expr} (hvalue : c.Same Expr.relabeled value value') :
    c.Parallel (c.Same Expr.relabeled) (typeTest g value) (typeTest g' value') := by
  unfold typeTest
  refine (Parallel.discard (.expect _)).bind fun _ _ _ => ?_
  refine (Parallel.discard (.eat _)).bind fun _ _ _ => hg.type.bind fun type type' htype => ?_
  refine (Parallel.eat? _).bind fun name name' hname => ?_
  refine (Parallel.spanFrom (Same.span Expr.span_relabeled hvalue)).bind fun s s' hs => .pure ?_
  cases hname with
  | none => simp only [Same, Expr.relabeled, hvalue, htype, Option.map_none, hs]
  | some ht =>
    simp only [Same, Expr.relabeled, hvalue, htype, Option.map_some, Ident.relabeled, ht.text,
      ht.span, hs]

theorem parallel_continuation {left left' : Expr} (hleft : c.Same Expr.relabeled left left')
    (k : Continuation) :
    c.Parallel (c.Same Expr.relabeled) (k.parse g left) (k.parse g' left') := by
  have hstart : c.SameSpan left.span left'.span := Same.span Expr.span_relabeled hleft
  cases k with
  | update op =>
    refine Parallel.advance.bind fun t t' ht => .pure ?_
    simp only [Same, Expr.relabeled, hleft, hstart.merge ht.span]
  | member => exact parallel_memberAccess hg hleft
  | index => exact parallel_indexing hg hleft
  | methodRef => exact parallel_methodRef hleft
  | conditional => exact parallel_conditional hg hleft
  | typeTest => exact parallel_typeTest hg hleft
  | assign op =>
    refine (Parallel.discard .advance).bind fun _ _ _ => (hg.expr _).bind fun e e' he => .pure ?_
    simp only [Same, Expr.relabeled, hleft, he, hstart.merge (Same.span Expr.span_relabeled he)]
  | binary op =>
    refine (Parallel.discard .advance).bind fun _ _ _ => (hg.expr _).bind fun e e' he => .pure ?_
    simp only [Same, Expr.relabeled, hleft, he, hstart.merge (Same.span Expr.span_relabeled he)]

theorem parallel_expr (power : Nat) :
    c.Parallel (c.Same Expr.relabeled) (expr g power) (expr g' power) := by
  unfold expr operators
  refine (parallel_operand hg).bind fun first first' hfirst => ?_
  refine .iterate (fun left left' hleft => ?_) hg.rounds hfirst
  refine Parallel.peek.bind fun t t' ht => ?_
  rw [ht.kind]
  cases Continuation.ofKind? t'.kind with
  | none => exact .pure (.inr hleft)
  | some k =>
    refine .ite .rfl ?_ (.pure (.inr hleft))
    exact (parallel_continuation hg hleft k).bind fun e e' he => .pure (.inl he)

end JavaGraft.Grammar

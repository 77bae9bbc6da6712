import JavaGraft.Proofs.Course.Charting
import JavaGraft.Proofs.Course.Expressions

/-!
# What the rules for expressions chart

An expression is charted as if it filled a slot, since whoever reads it decides what becomes of it
(`JavaGraft.Expr.chart`): an operator behind an operand drops the places inside the parentheses of
the operand, and takes over the place of the operand for the node that the two become.
-/

namespace JavaGraft

open Course

/-- **The rules of a grammar chart** the spots of their results, and expressions with their own
places. -/
structure Rules.Charts (source : List Char) (g : Rules) : Prop where
  gathers : g.Gathers source
  annot : Course.Charts source [] g.annot fun a => AnnotArg.allSpots a.args
  block : Course.Charts source [] g.block Block.spots
  classBody (name : String) : Course.Charts source [] (g.classBody name) Member.allSpots
  typeDecl (m : Modifiers) :
    Course.Charts source (Annot.allSpots m.annots) (g.typeDecl m) TypeDecl.spots
  expr (power : Nat) : Course.Charts source [] (g.expr power) Expr.chart
  element : Course.Charts source [] g.element Element.spots
  stmt : Course.Charts source [] g.stmt Stmt.spots

namespace Rules.Charts

variable {source : List Char} {g : Rules} (h : g.Charts source)

include h

/-- An expression within another one. -/
theorem inner (power : Nat) :
    Course.Charts source [] (g.expr power) (Expr.spots .inside) :=
  (h.expr power).narrow Expr.inner_sublist_chart

/-- An expression in a slot. -/
theorem slot (power : Nat) :
    Course.Charts source [] (g.expr power) (Expr.spots .slot) :=
  (h.expr power).narrow Expr.slot_sublist_chart

end Rules.Charts

/-- Two places, the one charted before the other. -/
theorem pair_sublist {x y : Nat} {xs ys : List Nat} (hx : x ∈ xs) (hy : y ∈ ys) :
    [x, y].Sublist (xs ++ ys) :=
  (List.singleton_sublist.mpr hx).append (List.singleton_sublist.mpr hy)

namespace Grammar

variable {source : List Char} {g : Rules} (h : g.Charts source)

/-- A node of a single place, which is charted already. -/
theorem charts_spanned {start : ParserState → Prop} {acc : List Nat} {base : Span}
    {build : Span → Expr} (hbase : base.offset ∈ acc)
    (hbuild : ∀ span, (build span).chart = [span.offset]) :
    ChartsFrom source start acc (Parser.spanFrom base >>= fun span => pure (build span))
      Expr.chart := by
  refine .spanning hbase fun span hspan => .drop (.pure rfl) ?_
  rw [hbuild, hspan]
  exact List.singleton_sublist.mpr hbase

/-- A node that ends where the part read last does. -/
theorem charts_merged {start : ParserState → Prop} {acc : List Nat} {first last : Span}
    {build : Span → Expr} (inside : List Nat) (hlast : [first.offset, last.offset].Sublist acc)
    (hbuild : ∀ span, (build span).chart = span.offset :: inside)
    (hinside : (first.offset :: inside).Sublist acc) :
    ChartsFrom source start acc (pure (build (first.merge last))) Expr.chart := by
  refine .merging hlast fun hspan => .drop (.pure rfl) ?_
  rw [hbuild, hspan]
  exact hinside

/-- A class literal of a chain of names. -/
theorem charts_chainClass {start : ParserState → Prop} (target : Expr) (n : Nat) (place : Span) :
    ChartsFrom source start target.chart
      (match chainType? target n with
        | none => Parser.reject .notATypeName place
        | some t => do return .classLit t (← Parser.spanFrom target.span) : Parser Expr)
      Expr.chart := by
  cases chainType? target n with
  | none => exact .reject
  | some t => exact charts_spanned target.start_mem_chart fun _ => rfl

include h

/-! ### Parts of operands -/

theorem charts_arguments : Charts source [] (arguments g) (Expr.allSpots .inside) := by
  unfold arguments
  have hargs : Charts source [] (Parser.sepBy g.rounds Sign.comma (g.expr 0))
      (Expr.allSpots .inside) :=
    (Charts.sepBy rfl (h.inner 0)).congr (Expr.allSpots_eq _)
  refine .skip (expect rfl).discard.stays fun _ => .joinNext _ (.pure rfl) hargs fun args => ?_
  exact .skip (expect rfl).discard.stays fun _ => .pure rfl

theorem charts_callOf (callee : Expr) (start : Span) :
    Charts source (start.offset :: callee.spots .inside) (callOf g callee start)
      Expr.chart := by
  unfold callOf
  refine (charts_arguments h).bind fun args => .freshCall fun id => ?_
  refine .spanning (List.mem_append_left _ List.mem_cons_self) fun span hspan => .pure ?_
  rw [Expr.chart_call, hspan, List.cons_append]

theorem charts_callIfArgs (callee : Expr) {start : Span}
    (hcallee : callee.chart = start.offset :: callee.spots .inside) :
    Charts source (start.offset :: callee.spots .inside) (callIfArgs g callee start)
      Expr.chart :=
  .ifNext (charts_callOf h callee start) (.pure hcallee)

theorem charts_braces : Charts source [] (braces g) fun x =>
    x.2.offset :: Expr.allSpots .inside x.1 := by
  unfold braces
  have helements : Charts source [] (Parser.sepUntil g.rounds Sign.comma Sign.rbrace (g.expr 0))
      (Expr.allSpots .inside) :=
    (Charts.sepUntil rfl (h.inner 0)).congr (Expr.allSpots_eq _)
  refine .bind (.expect rfl) fun first => helements.bind fun es => ?_
  refine .bind (.expect rfl) fun last => .merging (a := first.span) (b := last.span) ?_ fun hspan =>
    .drop (.pure rfl) ?_
  · exact pair_sublist (by simp) (by simp)
  · simp [hspan]

theorem charts_elements :
    Charts source [] (braces g) fun x => Expr.allSpots .inside x.1 :=
  (charts_braces h).narrow fun _ => List.sublist_cons_self _ _

theorem charts_arrayInit : Charts source [] (arrayInit g) Expr.chart := by
  unfold arrayInit
  exact (charts_braces h).bind fun x => .pure rfl

/-! ### What follows an operand directly -/

theorem charts_memberAccess (target : Expr) :
    Charts source target.chart (memberAccess g target) Expr.chart := by
  unfold memberAccess
  refine .skip (expect rfl).stays fun dot => .ifEat rfl (charts_chainClass target 0 _) ?_
  refine .ifEat rfl (charts_spanned target.start_mem_chart fun _ => rfl) ?_
  refine .skip (gathers_typeArgs? h.gathers).discard fun _ => ?_
  refine .bind (.node (fun i => i.span.offset) identifier fun _ => rfl) fun name => ?_
  refine .merging (a := target.span) (b := name.span) ?_ fun hspan => .drop
    (charts_callIfArgs h (.field target name (target.span.merge name.span)) ?_) ?_
  · exact pair_sublist target.start_mem_chart (List.mem_singleton.mpr rfl)
  · exact congrArg (· :: _) hspan
  · exact target.outer_sublist_chart.trans (List.sublist_append_left _ _)

theorem charts_indexing (target : Expr) :
    Charts source target.chart (indexing g target) Expr.chart := by
  unfold indexing
  refine .ifNth ?_ ?_
  · refine .skip dims fun n => .skip (expect rfl).discard.stays fun _ => ?_
    exact .skip (expect rfl).stays fun word => charts_chainClass target n _
  · refine .skip (expect rfl).discard.stays fun _ => (h.inner 0).bind fun index => ?_
    refine .bind (.expect rfl) fun close => charts_merged
      (target.spots .inside ++ index.spots .inside) ?_
      (fun span => by simp [Expr.chart, Expr.spots, Expr.span]) ?_
    · exact pair_sublist (List.mem_append_left _ target.start_mem_chart)
        (List.mem_singleton.mpr rfl)
    · exact (target.outer_sublist_chart.append (.refl _)).trans (List.sublist_append_left _ _)

omit h in
theorem charts_methodRef (target : Expr) :
    Charts source target.chart (methodRef target) Expr.chart := by
  unfold methodRef
  refine .skip (expect rfl).discard.stays fun _ => .peek_bind fun t _ _ => .ite (fun ht => ?_)
    fun _ => .rejectNext
  have hkind : t.kind.hasText := by rcases ht with ht | ht <;> rw [ht] <;> rfl
  refine .bind (.known (fun _ hs => hs.1) hkind) fun _ =>
    charts_merged (target.spots .inside) ?_ (fun span => rfl) ?_
  · exact pair_sublist target.start_mem_chart (List.mem_singleton.mpr rfl)
  · exact target.outer_sublist_chart.trans (List.sublist_append_left _ _)

/-! ### Operands -/

theorem charts_arrayDims : Charts source [] (arrayDims g) fun x => Expr.allSpots .inside x.2 := by
  unfold arrayDims
  refine Charts.iterate (fun found => Expr.allSpots .inside found.2.reverse)
    (fun found => ?_) g.rounds (0, [])
  obtain ⟨n, lengths⟩ := found
  refine .unlessNext (.pure rfl) (.ifNth ?_ (.ite (fun _ => ?_) fun _ => .pure rfl))
  · exact .skip advance fun _ => .skip advance fun _ => .pure rfl
  · refine .skip advance fun _ => (h.inner 0).bind fun length => ?_
    exact .skip (expect rfl).discard.stays fun _ => .pure (by simp [Expr.allSpots_eq])

theorem charts_creation : Charts source [] (creation g) Expr.chart := by
  unfold creation
  refine .bind (.expect rfl) fun start => .skip (gathers_typeArgs? h.gathers).discard fun _ => ?_
  refine .skip (gathers_plainType h.gathers).stays fun plain => .ifNext ?_ ?_
  · refine (charts_arrayDims h).bind fun found => .ifNext ?_ ?_
    · refine (charts_elements h).bind fun elements => .spanning (by simp) fun span hspan => .pure ?_
      simp [Expr.chart, Expr.spots, Expr.span, hspan]
    · refine .spanning (by simp) fun span hspan => .pure ?_
      simp [Expr.chart, Expr.spots, Expr.span, hspan]
  · refine (charts_arguments h).bind fun args => .ifNext ?_ ?_
    · refine (h.classBody "").bind fun body => .spanning (by simp) fun span hspan => .pure ?_
      simp [Expr.chart, Expr.spots, Expr.span, hspan]
    · refine .spanning (by simp) fun span hspan => .pure ?_
      simp [Expr.chart, Expr.spots, Expr.span, hspan]

/-- A node of a token and the operand behind it. -/
theorem charts_prefixed {power : Nat} {first : Span} {build : Expr → Span → Expr}
    (hbuild : ∀ e span, (build e span).chart = span.offset :: e.spots .inside) :
    Charts source [first.offset] (do
      let e ← g.expr power
      return build e (first.merge e.span)) Expr.chart := by
  refine (h.expr power).bind fun e => charts_merged _ ?_ (hbuild e) ?_
  · exact pair_sublist (List.mem_singleton.mpr rfl) e.start_mem_chart
  · exact e.inner_sublist_chart.cons_cons _

theorem charts_cast : Charts source [] (cast g) Expr.chart := by
  unfold cast
  refine .bind (.expect rfl) fun first => .skip h.gathers.type.stays fun type => ?_
  exact .skip (expect rfl).discard.stays fun _ => charts_prefixed h fun e span => rfl

theorem charts_lambda : Charts source [] (lambda g) Expr.chart := by
  unfold lambda
  refine .peek_bind fun t _ _ => .bind (.lead (gathers_lambdaParams h.gathers)) fun params => ?_
  refine .skip (expect rfl).discard.stays fun _ => .ifNext ?_ ?_
  · refine h.block.bind fun body => .spanning (by simp) fun span hspan => .pure ?_
    simp [Expr.chart, Expr.spots, Expr.span, hspan]
  · refine (h.inner 0).bind fun body => .spanning (by simp) fun span hspan => .pure ?_
    simp [Expr.chart, Expr.spots, Expr.span, hspan]

theorem charts_parenthesized : Charts source [] (parenthesized g) Expr.chart := by
  unfold parenthesized
  refine .bind (.expect rfl) fun first => (h.expr 0).bind fun inner => ?_
  refine .bind (.expect rfl) fun last => charts_merged inner.chart ?_ (fun span => rfl) ?_
  · exact pair_sublist (by simp) (by simp)
  · exact List.sublist_append_left _ _

theorem charts_primitiveClass : Charts source [] (primitiveClass g) Expr.chart := by
  unfold primitiveClass
  refine .peek_bind fun t _ _ => .bind (.lead h.gathers.type) fun type => ?_
  refine .skip (expect rfl).discard.stays fun _ => .skip (expect rfl).discard.stays fun _ => ?_
  exact charts_spanned (by simp) fun _ => rfl

omit h in
theorem charts_literal (kind : LiteralKind) :
    ChartsFrom source (fun s => s.next.kind = .literal kind) [] (literal kind) Expr.chart := by
  unfold literal
  refine .bind (.advance fun s hs => by rw [hs]; rfl) fun t => ?_
  cases Literal.ofText kind t.text.toList with
  | ok value => exact .pure rfl
  | error fault => exact .reject

theorem charts_wordOperand (word : Keyword) :
    ChartsFrom source (fun s => s.next.kind = .keyword word) [] (wordOperand g word)
      Expr.chart := by
  have hadvance : ChartsFrom source (fun s => s.next.kind = .keyword word) [] Parser.advance
      fun t => [t.span.offset] := .advance fun s hs => by rw [hs]; rfl
  unfold wordOperand
  split
  · exact hadvance.bind fun _ => .pure rfl
  · exact hadvance.bind fun t => charts_callIfArgs h (.this t.span) rfl
  · exact hadvance.bind fun t => charts_callIfArgs h (.super t.span) rfl
  · exact (charts_creation h).anywhere
  · exact .ite (fun _ => (charts_primitiveClass h).anywhere) fun _ => .rejectNext

theorem charts_signOperand (mark : Sign) :
    ChartsFrom source (fun s => s.next.kind = .sign mark) [] (signOperand g mark) Expr.chart := by
  unfold signOperand
  cases UnaryOp.ofSign? mark with
  | some op =>
    refine .bind (.advance fun s hs => by rw [hs]; rfl) fun t => ?_
    exact charts_prefixed h fun e span => rfl
  | none =>
    split
    · next heq => cases heq
    · refine .getting fun s => .ite (fun _ => (charts_lambda h).anywhere) fun _ => ?_
      exact .ite (fun _ => (charts_cast h).anywhere) fun _ => (charts_parenthesized h).anywhere
    · exact (charts_arrayInit h).anywhere
    · exact .rejectNext

theorem charts_operand : Charts source [] (operand g) Expr.chart := by
  unfold operand
  refine .peek_bind fun t _ _ => ?_
  split
  · next kind ht => exact (charts_literal kind).weaken fun s hs => by rw [hs.1]; exact ht
  · next ht =>
    refine .ifNth (charts_lambda h).anywhere ?_
    refine .bind (.known (t := t) (fun _ hs => hs.1) (by rw [ht]; rfl)) fun _ => ?_
    exact charts_callIfArgs h (.name ⟨t.text, t.span⟩) rfl
  · next word ht => exact (charts_wordOperand h word).weaken fun s hs => by rw [hs.1]; exact ht
  · next sign ht => exact (charts_signOperand h sign).weaken fun s hs => by rw [hs.1]; exact ht
  · exact .rejectNext
  · exact .rejectNext

/-! ### Operators -/

/-- A node of two operands. -/
theorem charts_joined {power : Nat} {left : Expr} {build : Expr → Span → Expr}
    (hbuild : ∀ right span, (build right span).chart = span.offset ::
      (left.spots .inside ++ right.spots .inside)) :
    Charts source left.chart (do
      let right ← g.expr power
      return build right (left.span.merge right.span)) Expr.chart := by
  refine (h.expr power).bind fun right => charts_merged _ ?_ (hbuild right) ?_
  · exact pair_sublist left.start_mem_chart right.start_mem_chart
  · exact left.outer_sublist_chart.append right.inner_sublist_chart

theorem charts_conditional (condition : Expr) :
    Charts source condition.chart (conditional g condition) Expr.chart := by
  unfold conditional
  refine .skip (expect rfl).discard.stays fun _ => (h.inner _).bind fun yes => ?_
  refine .skip (expect rfl).discard.stays fun _ => (h.expr _).bind fun no => ?_
  refine charts_merged (condition.spots .inside ++ yes.spots .inside ++ no.spots .inside) ?_
    (fun span => by simp [Expr.chart, Expr.spots, Expr.span]) ?_
  · exact pair_sublist (List.mem_append_left _ condition.start_mem_chart) no.start_mem_chart
  · have hyes := List.Sublist.refl (yes.spots .inside)
    simpa using (condition.outer_sublist_chart.append hyes).append no.inner_sublist_chart

theorem charts_typeTest (value : Expr) :
    Charts source value.chart (typeTest g value) Expr.chart := by
  unfold typeTest
  refine .skip (expect rfl).discard.stays fun _ => .skip (eat rfl).discard fun _ => ?_
  refine .skip h.gathers.type.stays fun type => .skip (eat? rfl) fun binding => ?_
  refine .spanning value.start_mem_chart fun span hspan => .drop (.pure rfl) ?_
  rw [show Expr.chart (.instanceOf value type (binding.map fun t => ⟨t.text, t.span⟩) span) =
    span.offset :: value.spots .inside from rfl, hspan]
  exact value.outer_sublist_chart

theorem charts_continuation (left : Expr) (k : Continuation) :
    ChartsFrom source (fun s => s.next.kind.hasText) left.chart (k.parse g left) Expr.chart := by
  cases k with
  | update op =>
    refine .bind (.advance fun _ hs => hs) fun t =>
      charts_merged (left.spots .inside) ?_ (fun span => rfl) ?_
    · exact pair_sublist left.start_mem_chart (List.mem_singleton.mpr rfl)
    · exact left.outer_sublist_chart.trans (List.sublist_append_left _ _)
  | member => exact (charts_memberAccess h left).anywhere
  | index => exact (charts_indexing h left).anywhere
  | methodRef => exact (charts_methodRef left).anywhere
  | conditional => exact (charts_conditional h left).anywhere
  | typeTest => exact (charts_typeTest h left).anywhere
  | assign op =>
    exact .skip advance.anywhere fun _ => charts_joined h fun right span => by
      simp [Expr.chart, Expr.spots, Expr.span]
  | binary op =>
    exact .skip advance.anywhere fun _ => charts_joined h fun right span => by
      simp [Expr.chart, Expr.spots, Expr.span]

theorem charts_expr (power : Nat) : Charts source [] (expr g power) Expr.chart := by
  unfold expr
  refine (charts_operand h).seq fun first => ?_
  unfold operators
  refine Charts.iterate Expr.chart (fun left => .peek_bind fun t _ _ => ?_) g.rounds first
  cases hk : Continuation.ofKind? t.kind with
  | none => exact .pure rfl
  | some k =>
    refine .ite (fun _ => ?_) fun _ => .pure rfl
    refine ChartsFrom.seq ((charts_continuation h left k).weaken fun s hs => ?_) fun e => .pure rfl
    rw [hs.1]
    exact hasText_of_continuation hk

end Grammar

end JavaGraft

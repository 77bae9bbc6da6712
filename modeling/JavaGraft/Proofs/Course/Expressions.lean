import JavaGraft.Grammar.Expr
import JavaGraft.Proofs.Course.Types

/-!
# What the rules for expressions gather

The operators behind an operand have it as their base: what they read becomes, with the operand, the
children of a node that takes the operand's place. The only nodes that are read twice are the names
of a chain before `.class`, which are read as an expression first and as a type then.
-/

namespace JavaGraft

open Course

/-! ### Chains of names -/

/-- The names of a chain stand within it. -/
theorem Expr.names_of_chain? {source : List Char} {e : Expr} {names : List Ident}
    (h : e.chain? = some names) (hsound : e.extent.Sound source) :
    ∀ i ∈ names, e.span.Contains i.span ∧ i.extent.Sound source := by
  fun_induction Expr.chain? e generalizing names with
  | case1 i =>
    cases h
    exact List.forall_mem_singleton.mpr ⟨⟨le_rfl, le_rfl⟩, hsound⟩
  | case2 target i span ih =>
    obtain ⟨inner, hinner, rfl⟩ := Option.map_eq_some_iff.mp h
    rw [Expr.extent] at hsound
    cases hsound with
    | node _ hwithin hparts =>
      have htarget := hwithin target.extent (by simp)
      rw [Expr.span_extent] at htarget
      intro j hj
      rcases List.mem_append.mp hj with hj | hj
      · obtain ⟨hcontains, hj⟩ := ih hinner (hparts target.extent (by simp)) j hj
        exact ⟨⟨htarget.1.trans hcontains.1, hcontains.2.trans htarget.2⟩, hj⟩
      · rw [List.mem_singleton.mp hj]
        exact ⟨hwithin i.extent (by simp), hparts i.extent (by simp)⟩
  | case3 e _ _ => cases h

/-- The names of a chain stand in its tree in their order. -/
theorem Expr.names_sublist {e : Expr} {names : List Ident} (h : e.chain? = some names) :
    (Extent.allPlaces (names.map Ident.extent)).Sublist e.extent.places := by
  fun_induction Expr.chain? e generalizing names with
  | case1 i =>
    cases h
    rw [List.map_singleton, Extent.allPlaces_cons, Extent.allPlaces_nil, List.append_nil]
    exact .refl _
  | case2 target i span ih =>
    obtain ⟨inner, hinner, rfl⟩ := Option.map_eq_some_iff.mp h
    rw [List.map_append, Extent.allPlaces_append, Expr.extent, Extent.places_node,
      Extent.allPlaces_cons]
    exact ((ih hinner).append (.refl _)).cons span
  | case3 e _ _ => cases h

namespace Grammar

variable {source : List Char} {g : Rules}

/-- A chain of names may be read as a type. -/
theorem sound_chainType {e : Expr} {n : Nat} {t : TypeExpr} (ht : chainType? e n = some t)
    (hsound : e.extent.Sound source) : t.extent.Sound source := by
  obtain ⟨names, hnames, rfl⟩ := Option.map_eq_some_iff.mp ht
  have hchain := Expr.names_of_chain? hnames hsound
  have hspan : e.span.LiesIn source := e.span_extent ▸ hsound.liesIn
  have hpath : (Path.extent ⟨names, e.span⟩).Sound source :=
    .node hspan (List.forall_mem_map.mpr fun i hi => (hchain i hi).1)
      (List.forall_mem_map.mpr fun i hi => (hchain i hi).2)
  refine .node hspan ?_ ?_
  · exact List.forall_mem_singleton.mpr ⟨le_rfl, le_rfl⟩
  · exact List.forall_mem_singleton.mpr hpath

/-- What is in order stays so where a chain of names is read as a type. -/
theorem ordered_chainType {e : Expr} {n : Nat} {t : TypeExpr} (ht : chainType? e n = some t)
    (hsound : e.extent.Sound source) (hordered : Extent.InOrder [e.extent]) :
    Extent.InOrder [t.extent] := by
  obtain ⟨names, hnames, rfl⟩ := Option.map_eq_some_iff.mp ht
  have hsublist := Expr.names_sublist hnames
  have hinner : Extent.InOrder (names.map Ident.extent) := by
    rw [Extent.InOrder, Extent.allPlaces_cons, Extent.allPlaces_nil, List.append_nil] at hordered
    exact hordered.sublist hsublist
  have hstart : ∀ b ∈ Extent.allPlaces (names.map Ident.extent), e.span.offset ≤ b.offset :=
    fun b hb => e.span_extent ▸ (hsound.contains b (hsublist.subset hb)).1
  refine Extent.inOrder_node.mpr ⟨?_, Extent.inOrder_node.mpr ⟨hstart, hinner⟩⟩
  -- the path of the type has the place of the chain as well
  simpa [TypeBase.extents, TypeArg.extents, Path.extent] using hstart

/-- A class literal of a chain of names. -/
theorem gathers_chainClass {start : ParserState → Prop} {target : Expr} {x : Extent} {n : Nat}
    {place : Span} (hx : x.span = place) :
    GathersFrom source start target.span .tight ([target.extent] ++ [x])
      (match chainType? target n with
        | none => Parser.reject .notATypeName place
        | some t => do return .classLit t (← Parser.spanFrom target.span) : Parser Expr) .tight
      fun e => [e.extent] := by
  cases ht : chainType? target n with
  | none => exact .reject nofun (List.mem_append_right _ (List.mem_singleton.mpr rfl)) hx
  | some t =>
    have hspan : t.extent.span = target.extent.span := by
      obtain ⟨names, -, rfl⟩ := Option.map_eq_some_iff.mp ht
      rw [TypeExpr.span_extent, Expr.span_extent]
    refine GathersFrom.drop ?_ (List.sublist_append_left _ _)
    exact .exchange (sound_chainType ht) (ordered_chainType ht) hspan t.calls_extent
      (.close fun _ => rfl)

variable (h : g.Gathers source)

include h

/-! ### Parts of operands -/

theorem gathers_arguments : Moves source (arguments g) fun es => es.map Expr.extent := by
  unfold arguments
  refine fun _ _ => (expect rfl).discard.skip fun _ => .joinNext (fun es => es.map Expr.extent)
    (fun _ _ => .pure rfl) ?_ fun args => ?_
  · exact (sepBy rfl (h.expr 0)).stays.anywhere
  · exact (expect rfl).discard.skip fun _ => .pure rfl

theorem gathers_callOf (callee : Expr) (start : Span) :
    Gathers source start .tight [callee.extent] (callOf g callee start) .tight
      fun e => [e.extent] := by
  unfold callOf
  refine (gathers_arguments h).bind fun args => .close_call fun id span => ?_
  simp [Expr.extent, Expr.extents_eq_map]

theorem gathers_callIfArgs (callee : Expr) (start : Span) :
    Gathers source start .tight [callee.extent] (callIfArgs g callee start) .tight
      fun e => [e.extent] :=
  .ifNext (gathers_callOf h callee start).anywhere (.pure rfl)

theorem gathers_braces : Moves source (braces g) fun x =>
    [.node x.2 none (x.1.map Expr.extent)] := by
  unfold braces
  refine (expect rfl).lead_skip (fun _ => rfl) fun first => ?_
  exact (sepUntil rfl (h.expr 0)).bind fun elements => .close_by (expect rfl) fun last => rfl

theorem gathers_arrayInit : Moves source (arrayInit g) fun e => [e.extent] := by
  unfold arrayInit
  refine fun _ _ => (gathers_braces h).bind fun x => .pure ?_
  simp [Expr.extent, Expr.extents_eq_map]

/-! ### What follows an operand directly -/

theorem gathers_memberAccess (target : Expr) :
    Gathers source target.span .tight [target.extent] (memberAccess g target) .tight
      fun e => [e.extent] := by
  unfold memberAccess
  refine (expect rfl).bind fun dot => .ifEat rfl (gathers_chainClass rfl) (.ifEat rfl ?_ ?_)
  · exact GathersFrom.drop (.close fun _ => rfl) (List.nil_sublist _)
  · refine GathersFrom.drop ?_ (List.sublist_append_left _ _)
    refine (gathers_typeArgs? h).discard.anywhere.skip fun _ => ?_
    refine .through (fun name => [name.extent]) identifier (fun _ => .refl _) fun name => ?_
    exact gathers_callIfArgs h (.field target name (target.span.merge name.span)) target.span

theorem gathers_indexing (target : Expr) :
    Gathers source target.span .tight [target.extent] (indexing g target) .tight
      fun e => [e.extent] := by
  unfold indexing
  refine .ifNth ?_ ?_
  · refine dims.anywhere.skip fun n => (expect rfl).discard.skip fun _ => ?_
    exact (expect rfl).bind fun word => gathers_chainClass rfl
  · refine (expect rfl).discard.anywhere.skip fun _ => (h.expr 0).bind fun index => ?_
    exact .close_by (expect rfl) fun close => rfl

omit h in
theorem gathers_methodRef (target : Expr) :
    Gathers source target.span .tight [target.extent] (methodRef target) .tight
      fun e => [e.extent] := by
  unfold methodRef
  refine (expect rfl).discard.skip fun _ => .peek_bind fun t => .ite (fun ht => ?_) fun _ => ?_
  · have hkind : t.kind.hasText := by rcases ht with ht | ht <;> rw [ht] <;> rfl
    exact .close_with (.known (fun _ hs => hs.1) hkind) fun _ => rfl
  · exact .rejectNext fun _ _ => nofun

/-! ### Operands -/

theorem gathers_arrayDims : Stays source (arrayDims g) fun x => x.2.map Expr.extent := by
  unfold arrayDims
  refine fun _ _ => loop (fun found => found.2.reverse.map Expr.extent) (fun found => ?_) g.rounds
    (0, [])
  obtain ⟨n, lengths⟩ := found
  refine .unlessNext (.pure rfl) (.ifNth ?_ (.ite (fun _ => ?_) fun _ => .pure rfl))
  · exact advance.anywhere.skip fun _ => advance.skip fun _ => .pure rfl
  · refine advance.anywhere.skip fun _ => (h.expr 0).stays.bind fun length => ?_
    exact (expect rfl).discard.stays.skip fun _ => .pure (by simp)

theorem gathers_creation : Moves source (creation g) fun e => [e.extent] := by
  unfold creation
  refine (expect rfl).lead_skip (fun _ => rfl) fun start => ?_
  refine (gathers_typeArgs? h).discard.skip fun _ => (gathers_plainType h).bind fun plain => ?_
  have htype (n : Nat) : ({ plain with dims := n } : TypeExpr).extent = plain.extent := by
    cases plain
    rfl
  refine .ifNext ?_ ?_
  · refine (gathers_arrayDims h).anywhere.bind fun found => .ifNext ?_ ?_
    · refine (gathers_braces h).anywhere.bind fun elements => .close fun span => ?_
      simp [Expr.extent, Expr.extents_eq_map, htype]
    · exact .close fun span => by simp [Expr.extent, Expr.extents_eq_map, htype]
  · refine (gathers_arguments h).anywhere.bind fun args => .ifNext ?_ ?_
    · refine (h.classBody "").anywhere.bind fun body => .close fun span => ?_
      simp [Expr.extent, Expr.extents_eq_map, Member.extents_eq_map]
    · exact .close fun span => by simp [Expr.extent, Expr.extents_eq_map]

theorem gathers_cast : Moves source (cast g) fun e => [e.extent] := by
  unfold cast
  refine (expect rfl).lead_skip (fun _ => rfl) fun first => h.type.bind fun type => ?_
  refine (expect rfl).discard.skip fun _ => .close_with (h.expr _) fun operand => ?_
  simp [Expr.extent]

theorem gathers_lambdaParam : Moves source (lambdaParam g) LambdaParam.extents := by
  unfold lambdaParam
  refine fun _ _ => (eat rfl).discard.skip fun _ => .getting fun s => .getting fun t => ?_
  refine .ite (fun _ => ?_) fun _ => ?_
  · rw [pure_bind]
    exact identifier.bind fun _ => .pure rfl
  · have htype : Moves source (some <$> g.type) fun t => t.toList.map TypeExpr.extent :=
      h.type.map fun _ => rfl
    exact htype.bind fun type => identifier.bind fun _ => .pure rfl

theorem gathers_lambdaParams :
    Moves source (lambdaParams g) fun ps => ps.flatMap LambdaParam.extents := by
  unfold lambdaParams
  refine fun _ _ => .ifNext (identifier.anywhere.bind fun _ => .pure rfl) ?_
  refine (expect rfl).discard.anywhere.skip fun _ => ?_
  refine (sepUntil_flat rfl (gathers_lambdaParam h)).bind fun params => ?_
  exact (expect rfl).discard.skip fun _ => .pure rfl

theorem gathers_lambda : Moves source (lambda g) fun e => [e.extent] := by
  unfold lambda
  refine .of_peek fun t => (gathers_lambdaParams h).anywhere.bind fun params => ?_
  refine (expect rfl).discard.skip fun _ => .ifNext ?_ ?_
  · exact h.block.anywhere.bind fun body => .close fun span => by simp [Expr.extent]
  · exact (h.expr 0).anywhere.bind fun body => .close fun span => by simp [Expr.extent]

theorem gathers_parenthesized : Moves source (parenthesized g) fun e => [e.extent] := by
  unfold parenthesized
  refine (expect rfl).lead_skip (fun _ => rfl) fun first => (h.expr 0).bind fun inner => ?_
  exact .close_by (expect rfl) fun last => rfl

theorem gathers_primitiveClass : Moves source (primitiveClass g) fun e => [e.extent] := by
  unfold primitiveClass
  refine .of_peek fun t => h.type.anywhere.bind fun type => (expect rfl).discard.skip fun _ => ?_
  exact (expect rfl).discard.skip fun _ => .close fun span => rfl

omit h in
theorem gathers_literal (kind : LiteralKind) :
    MovesFrom source (fun s => s.next.kind = .literal kind) (literal kind)
      fun e => [e.extent] := by
  unfold literal
  have hadvance : MovesFrom source (fun s => s.next.kind = .literal kind) Parser.advance
      fun t => [.leaf t.span] := .advance fun s hs => by rw [hs]; rfl
  refine fun _ _ => hadvance.bind fun t => ?_
  cases Literal.ofText kind t.text.toList with
  | ok value => exact .pure rfl
  | error fault => exact .reject nofun (List.mem_singleton.mpr rfl) rfl

theorem gathers_wordOperand (word : Keyword) :
    MovesFrom source (fun s => s.next.kind = .keyword word) (wordOperand g word)
      fun e => [e.extent] := by
  have hadvance : MovesFrom source (fun s => s.next.kind = .keyword word) Parser.advance
      fun t => [.leaf t.span] := .advance fun s hs => by rw [hs]; rfl
  unfold wordOperand
  split
  · exact fun _ _ => hadvance.bind fun _ => .pure rfl
  · exact hadvance.lead (fun _ => rfl) fun t => gathers_callIfArgs h (.this t.span) t.span
  · exact hadvance.lead (fun _ => rfl) fun t => gathers_callIfArgs h (.super t.span) t.span
  · exact (gathers_creation h).anywhere
  · refine fun _ _ => .ite (fun _ => (gathers_primitiveClass h).anywhere _ _) fun _ => ?_
    exact .rejectNext fun _ _ => nofun

theorem gathers_signOperand (mark : Sign) :
    MovesFrom source (fun s => s.next.kind = .sign mark) (signOperand g mark)
      fun e => [e.extent] := by
  unfold signOperand
  cases UnaryOp.ofSign? mark with
  | some op =>
    have hadvance : MovesFrom source (fun s => s.next.kind = .sign mark) Parser.advance
        fun t => [.leaf t.span] := .advance fun s hs => by rw [hs]; rfl
    refine hadvance.lead_skip (fun _ => rfl) fun t => .close_with (h.expr _) fun operand => ?_
    simp [Expr.extent]
  | none =>
    split
    · next heq => cases heq
    · refine fun _ _ => .getting fun s => ?_
      refine .ite (fun _ => (gathers_lambda h).anywhere _ _) fun _ => ?_
      exact .ite (fun _ => (gathers_cast h).anywhere _ _) fun _ =>
        (gathers_parenthesized h).anywhere _ _
    · exact (gathers_arrayInit h).anywhere
    · exact fun _ _ => .rejectNext fun _ _ => nofun

theorem gathers_operand : Moves source (operand g) fun e => [e.extent] := by
  unfold operand
  refine .of_peek fun t => ?_
  split
  · next kind ht => exact (gathers_literal kind).weaken (fun s hs => by rw [hs.1]; exact ht) _ _
  · next ht =>
    have hadvance : MovesFrom source (fun s => (s.nth 1).kind ≠ Sign.arrow ∧ s.next = t ∧ True)
        (discard Parser.advance) fun _ => [.leaf t.span] :=
      .known (fun _ hs => hs.2.1) (by rw [ht]; rfl)
    refine .ifNth ((gathers_lambda h).anywhere _ _) (hadvance.bind fun _ => ?_)
    exact gathers_callIfArgs h (.name ⟨t.text, t.span⟩) t.span
  · next word ht =>
    exact (gathers_wordOperand h word).weaken (fun s hs => by rw [hs.1]; exact ht) _ _
  · next sign ht =>
    exact (gathers_signOperand h sign).weaken (fun s hs => by rw [hs.1]; exact ht) _ _
  · exact .rejectNext fun _ _ => nofun
  · exact .rejectNext fun _ _ => nofun

/-! ### Operators -/

theorem gathers_conditional (condition : Expr) :
    Gathers source condition.span .tight [condition.extent] (conditional g condition) .tight
      fun e => [e.extent] := by
  unfold conditional
  refine (expect rfl).discard.skip fun _ => (h.expr _).bind fun yes => ?_
  refine (expect rfl).discard.skip fun _ => .close_with (h.expr _) fun no => ?_
  simp [Expr.extent]

theorem gathers_typeTest (value : Expr) :
    Gathers source value.span .tight [value.extent] (typeTest g value) .tight
      fun e => [e.extent] := by
  unfold typeTest
  refine (expect rfl).discard.skip fun _ => (eat rfl).discard.skip fun _ => ?_
  refine h.type.bind fun type => (eat? rfl).bind fun binding => .close fun span => ?_
  cases binding <;> simp [Expr.extent, Ident.extent]

theorem gathers_continuation (left : Expr) (k : Continuation) :
    GathersFrom source (fun s => s.next.kind.hasText) left.span .tight [left.extent]
      (k.parse g left) .tight fun e => [e.extent] := by
  cases k with
  | update op => exact .close_by (.advance fun _ hs => hs) fun t => rfl
  | member => exact (gathers_memberAccess h left).anywhere
  | index => exact (gathers_indexing h left).anywhere
  | methodRef => exact (gathers_methodRef left).anywhere
  | conditional => exact (gathers_conditional h left).anywhere
  | typeTest => exact (gathers_typeTest h left).anywhere
  | assign op =>
    exact advance.anywhere.skip fun _ => .close_with (h.expr _) fun _ => by simp [Expr.extent]
  | binary op =>
    exact advance.anywhere.skip fun _ => .close_with (h.expr _) fun _ => by simp [Expr.extent]

omit h in
theorem hasText_of_continuation {kind : TokenKind} {k : Continuation}
    (hk : Continuation.ofKind? kind = some k) : kind.hasText := by
  cases kind <;> first | rfl | cases hk

theorem gathers_operators (power : Nat) (first : Expr) {base : Span} :
    Gathers source base .tight [first.extent] (operators g power first) .tight
      fun e => [e.extent] := by
  unfold operators
  refine loop (fun left => [left.extent]) (fun left => .peek_bind fun t => ?_) g.rounds first
  cases hk : Continuation.ofKind? t.kind with
  | none => exact .pure rfl
  | some k =>
    refine .ite (fun _ => ?_) fun _ => .pure rfl
    have hparse : GathersFrom source (fun s => s.next = t ∧ True) base .tight [left.extent]
        (k.parse g left) .tight fun e => [e.extent] :=
      ((gathers_continuation h left k).rebase left.span_extent).weaken fun s hs => by
        rw [hs.1]
        exact hasText_of_continuation hk
    exact hparse.seq fun e => .pure rfl

theorem gathers_expr (power : Nat) : Moves source (expr g power) fun e => [e.extent] :=
  fun _ _ => (gathers_operand h).bind fun first => gathers_operators h power first

end Grammar

end JavaGraft

import JavaGraft.Proofs.Course.ExpressionCharts
import JavaGraft.Proofs.Course.Statements

/-!
# What the rules for annotations and statements chart

A statement puts its expressions into slots, so from here on spots are charted. Modifiers are those
of a type or of something else, which is known only behind them: for a type, the spots of their
annotations are kept, for anything else they are dropped.
-/

namespace JavaGraft

open Course

namespace Grammar

variable {source : List Char} {g : Rules} (h : g.Charts source)

include h

/-! ### Annotations and modifiers -/

theorem charts_elementList : Charts source [] (elementList g) Element.spots := by
  unfold elementList
  have hitems : Charts source [] (Parser.sepUntil g.rounds Sign.comma Sign.rbrace g.element)
      Element.allSpots :=
    (Charts.sepUntil rfl h.element).congr Element.allSpots_eq
  refine .skip (expect rfl).stays fun first => hitems.bind fun items => ?_
  exact .skip (expect rfl).stays fun last => .pure rfl

theorem charts_element : Charts source [] (element g) Element.spots := by
  unfold element
  refine .peeking fun t => ?_
  split
  · exact h.annot.bind fun a => by cases a; exact .pure rfl
  · exact charts_elementList h
  · exact (h.inner _).bind fun _ => .pure rfl

theorem charts_namedArg : Charts source [] (namedArg g) fun a => a.value.spots := by
  unfold namedArg
  refine .skip identifier.stays fun name => .skip (expect rfl).discard.stays fun _ => ?_
  exact h.element.bind fun value => .closing fun span => .pure rfl

theorem charts_annotArgs : Charts source [] (annotArgs g) AnnotArg.allSpots := by
  unfold annotArgs
  refine .getting fun s => .getting fun t => .ite (fun _ => ?_) fun _ => .ifNext (.pure rfl) ?_
  · exact (Charts.sepBy rfl (charts_namedArg h)).congr AnnotArg.allSpots_eq
  · exact h.element.bind fun value => .pure (by simp [AnnotArg.allSpots])

theorem charts_annot : Charts source [] (annot g) fun a => AnnotArg.allSpots a.args := by
  unfold annot
  refine .skip (expect rfl).stays fun start => .skip gathers_path.stays fun name => ?_
  refine .ifEat rfl ?_ (.given (.closing fun span => .pure rfl))
  refine (charts_annotArgs h).bind fun args => .skip (expect rfl).discard.stays fun _ => ?_
  exact .given (.closing fun span => .pure rfl)

theorem charts_annot? : Charts source [] (annot? g)
    fun a => a.toList.flatMap fun a => AnnotArg.allSpots a.args := by
  unfold annot?
  refine .getting fun s => .getting fun t => .ite (fun _ => ?_) fun _ => .pure rfl
  exact h.annot.bind fun a => .pure (by simp)

theorem charts_modifierStep (found : Flags × List Annot) :
    Charts source (Annot.allSpots found.2.reverse) (modifierStep g found)
      (Sum.elim (fun found => Annot.allSpots found.2.reverse)
        fun found => Annot.allSpots found.2) := by
  unfold modifierStep
  refine (charts_annot? h).bind fun a => ?_
  cases a with
  | some a => exact .pure (by simp [Annot.allSpots_eq])
  | none =>
    refine .drop (.peek_bind fun t ht _ => .getting fun s => ?_) (List.sublist_append_left _ _)
    cases modifierFlag? t (s.nth 1) with
    | none => exact .pure rfl
    | some flag =>
      refine .skip advance.anywhere fun _ => .ite (fun _ => ?_) fun _ => .pure rfl
      exact .recording ⟨ht, nofun⟩ (.pure rfl)

/-- The annotations among modifiers. -/
theorem charts_modifiers : Charts source [] (modifiers g) fun m => Annot.allSpots m.annots := by
  unfold modifiers
  exact .peeking fun t => .seq (Charts.iterate
    (fun found => Annot.allSpots found.2.reverse) (charts_modifierStep h)
    g.rounds (.none, [])) fun found => .getting fun s => .pure rfl

/-! ### Variables -/

theorem charts_varDeclarator : Charts source [] (varDeclarator g)
    fun v => Expr.optionSpots v.init := by
  unfold varDeclarator
  have hinit (b : Bool) : Charts source [] (some <$> if b then arrayInit g else g.expr 0)
      Expr.optionSpots :=
    .map (.ite (fun _ => (charts_arrayInit h).narrow Expr.slot_sublist_chart) fun _ => h.slot 0)
      fun _ => rfl
  have hlook : Stays source (Parser.check Sign.lbrace) fun _ => [] :=
    fun _ _ => .looks (fun s => ⟨_, rfl⟩) fun _ => .refl _
  refine .skip identifier.stays fun name => .skip dims fun n => .ifEat rfl (.skip hlook fun b => ?_)
    (.given (.closing fun span => .pure rfl))
  exact (hinit b).bind fun init => .closing fun span => .pure rfl

theorem charts_varDeclarators : Charts source [] (varDeclarators g) VarDeclarator.allSpots :=
  (Charts.sepBy rfl (charts_varDeclarator h)).congr VarDeclarator.allSpots_eq

theorem charts_openLocalVar (m : Modifiers) (start : Span) :
    Charts source [] (openLocalVar g m start) Stmt.spots := by
  unfold openLocalVar
  refine .skip h.gathers.type.stays fun type => (charts_varDeclarators h).bind fun vars => ?_
  exact .closing fun span => .pure (Stmt.spots_localVar ..)

theorem charts_localVar (m : Modifiers) (start : Span) :
    Charts source [] (localVar g m start) Stmt.spots := by
  unfold localVar
  refine .skip h.gathers.type.stays fun type => (charts_varDeclarators h).bind fun vars => ?_
  exact .skip (expect rfl).discard.stays fun _ =>
    .closing fun span => .pure (Stmt.spots_localVar ..)

theorem charts_declaration : Charts source [] (declaration g) Stmt.spots := by
  unfold declaration
  refine .peeking fun t => (charts_modifiers h).bind fun m => .peeking fun u => .ite (fun _ => ?_)
    fun _ => .drop (charts_localVar h m t.span) (List.nil_sublist _)
  exact ChartsFrom.seq (h.typeDecl m) fun d => .pure rfl

/-! ### Simple statements -/

theorem charts_condition : Charts source [] (condition g) (Expr.spots .slot) := by
  unfold condition
  refine .skip (expect rfl).discard.stays fun _ => (h.slot 0).bind fun e => ?_
  exact .skip (expect rfl).discard.stays fun _ => .pure rfl

theorem charts_exprStmt : Charts source [] (exprStmt g) Stmt.spots := by
  unfold exprStmt
  refine .peeking fun t => (h.slot 0).bind fun e => ?_
  exact .skip (expect rfl).discard.stays fun _ => .closing fun span => .pure rfl

/-- An expression that may be left out. -/
theorem charts_some :
    Charts source [] (some <$> g.expr 0) Expr.optionSpots :=
  (h.slot 0).map fun _ => rfl

theorem charts_returning : Charts source [] (returning g) Stmt.spots := by
  unfold returning
  refine .skip (expect rfl).stays fun start => ?_
  refine .joinNext Expr.optionSpots (.pure rfl) (charts_some h)
    fun value => .skip (expect rfl).discard.stays fun _ => .closing fun span => .pure rfl

omit h in
theorem charts_jump {build : Option Ident → Span → Stmt}
    (hbuild : ∀ i span, (build i span).spots = []) :
    Charts source [] (jump build) Stmt.spots := by
  unfold jump
  refine .advancing fun start => .skip (eat? rfl) fun label => ?_
  exact .skip (expect rfl).discard.stays fun _ => .closing fun span => .pure (hbuild _ _)

theorem charts_throwing : Charts source [] (throwing g) Stmt.spots := by
  unfold throwing
  refine .skip (expect rfl).stays fun start => (h.slot 0).bind fun e => ?_
  exact .skip (expect rfl).discard.stays fun _ => .closing fun span => .pure rfl

theorem charts_assertion : Charts source [] (assertion g) Stmt.spots := by
  unfold assertion
  refine .skip (expect rfl).stays fun start => (h.slot 0).bind fun e => ?_
  refine .joinEat rfl Expr.optionSpots (charts_some h) (.pure rfl)
    fun message => .skip (expect rfl).discard.stays fun _ => .closing fun span => .pure ?_
  simp [Stmt.spots]

/-! ### Statements with bodies -/

theorem charts_stmts {more : Parser Bool} (test : ParserState → Bool)
    (hmore : ∀ s, more s = .ok (test s) s) : Charts source []
    (Parser.collectWhile g.rounds more (Parser.recovering (some <$> g.stmt))) Stmt.allSpots := by
  have hstmt : Charts source [] (some <$> g.stmt) fun a => a.toList.flatMap Stmt.spots :=
    h.stmt.map fun a => by simp
  have hgathers : Stays source (some <$> g.stmt) fun a => a.toList.map Stmt.extent :=
    (h.gathers.stmt.map fun _ => rfl).stays
  exact (Charts.collectWhile test hmore (.recovering hgathers hstmt)).congr Stmt.allSpots_eq

theorem charts_block : Charts source [] (block g) Block.spots := by
  unfold block
  refine .skip (expect rfl).stays fun first => (charts_stmts h _ (before_eq _)).bind fun stmts => ?_
  exact .skip (expect rfl).stays fun last => .pure rfl

theorem charts_ifStmt : Charts source [] (ifStmt g) Stmt.spots := by
  unfold ifStmt
  refine .skip (expect rfl).stays fun start => (charts_condition h).bind fun e => ?_
  refine h.stmt.bind fun yes => .ifEat rfl (h.stmt.bind fun no => .closing fun span => .pure ?_)
    (.closing fun span => .pure ?_) <;> simp [Stmt.spots]

theorem charts_whileStmt : Charts source [] (whileStmt g) Stmt.spots := by
  unfold whileStmt
  refine .skip (expect rfl).stays fun start => (charts_condition h).bind fun e => ?_
  exact h.stmt.bind fun body => .closing fun span => .pure (by simp [Stmt.spots])

theorem charts_doStmt : Charts source [] (doStmt g) Stmt.spots := by
  unfold doStmt
  refine .skip (expect rfl).stays fun start => h.stmt.bind fun body => ?_
  refine .skip (expect rfl).discard.stays fun _ => (charts_condition h).bind fun e => ?_
  refine .skip (expect rfl).discard.stays fun _ => .closing fun span => .pure ?_
  simp [Stmt.spots]

theorem charts_forEach (m : Modifiers) (start : Span) :
    Charts source [] (forEach g m start) Stmt.spots := by
  unfold forEach
  refine .skip h.gathers.type.stays fun type => .skip identifier.stays fun name => ?_
  refine .skip (expect rfl).discard.stays fun _ => (h.slot 0).bind fun iterable => ?_
  refine .skip (expect rfl).discard.stays fun _ => h.stmt.bind fun body => ?_
  exact .closing fun span => .pure (by simp [Stmt.spots])

theorem charts_exprs : Charts source [] (Parser.sepBy g.rounds Sign.comma (g.expr 0))
    (Expr.allSpots .slot) :=
  (Charts.sepBy rfl (h.slot 0)).congr (Expr.allSpots_eq _)

theorem charts_forInit (declares : Bool) (m : Modifiers) (start : Span) :
    Charts source [] (forInit g declares m start) Stmt.allSpots := by
  unfold forInit
  refine .ite (fun _ => ?_) fun _ => .ifNext (.pure rfl) ?_
  · exact (charts_openLocalVar h m start).bind fun a => .pure (by simp [Stmt.allSpots])
  · refine (charts_exprs h).bind fun es => .pure ?_
    simp [Stmt.allSpots_eq, Expr.allSpots_eq, List.flatMap_map, Stmt.spots]

theorem charts_forLoop (declares : Bool) (m : Modifiers) (initStart start : Span) :
    Charts source [] (forLoop g declares m initStart start) Stmt.spots := by
  unfold forLoop
  refine (charts_forInit h declares m initStart).bind fun init => ?_
  refine .skip (expect rfl).discard.stays fun _ => ?_
  refine .joinNext Expr.optionSpots (.pure rfl) (charts_some h)
    fun e => .skip (expect rfl).discard.stays fun _ => ?_
  refine .joinNext (Expr.allSpots .slot) (.pure rfl) (charts_exprs h)
    fun updates => .skip (expect rfl).discard.stays fun _ => ?_
  exact h.stmt.bind fun body => .closing fun span => .pure (by simp [Stmt.spots])

theorem charts_forStmt : Charts source [] (forStmt g) Stmt.spots := by
  unfold forStmt
  refine .skip (expect rfl).stays fun start => .skip (expect rfl).discard.stays fun _ => ?_
  refine .peeking fun t => .pass (charts_modifiers h) fun m => .getting fun s => ?_
  exact .ite (fun _ => charts_forEach h m _) fun _ => charts_forLoop h _ m _ _

theorem charts_resource : Charts source [] (resource g) Stmt.spots := by
  unfold resource
  refine .peeking fun t => .pass (charts_modifiers h) fun m => .getting fun s => ?_
  refine .ite (fun _ => charts_openLocalVar h m _) fun _ => ?_
  exact (h.slot 0).bind fun e => .pure rfl

theorem charts_catchClause? : Charts source [] (catchClause? g)
    fun c => c.toList.flatMap fun c => c.body.spots := by
  unfold catchClause?
  refine .skip (eat? rfl) fun t => ?_
  cases t with
  | none => exact .pure rfl
  | some t =>
    refine .skip (expect rfl).discard.stays fun _ => .pass (charts_modifiers h) fun m => ?_
    refine .skip (sepBy rfl h.gathers.type).stays fun types => .skip identifier.stays fun name => ?_
    refine .skip (expect rfl).discard.stays fun _ => h.block.bind fun body => ?_
    exact .closing fun span => .pure (by simp)

theorem charts_tryRest (start : Span) (resources : List Stmt) :
    Charts source (Stmt.allSpots resources) (tryRest g start resources) Stmt.spots := by
  unfold tryRest
  have hcatches : Charts source [] (Parser.collect g.rounds (catchClause? g))
      CatchClause.allSpots :=
    (Charts.collect (charts_catchClause? h)).congr CatchClause.allSpots_eq
  have hfinish : Charts source [] (some <$> g.block) Block.optionSpots := h.block.map fun _ => rfl
  refine h.block.bind fun body => hcatches.bind fun catches => ?_
  refine .joinEat rfl _ hfinish (.pure rfl) fun finish => .ite (fun _ => .rejectNext) fun _ => ?_
  exact .closing fun span => .pure (by simp [Stmt.spots])

theorem charts_tryStmt : Charts source [] (tryStmt g) Stmt.spots := by
  rw [tryStmt_eq]
  have hresources : Charts source []
      (Parser.sepUntil g.rounds Sign.semicolon Sign.rparen (resource g)) Stmt.allSpots :=
    (Charts.sepUntil rfl (charts_resource h)).congr Stmt.allSpots_eq
  refine .skip (expect rfl).stays fun start => ?_
  refine .ifEat rfl ?_ (.given (charts_tryRest h start.span []))
  refine hresources.bind fun resources => .skip (expect rfl).discard.stays fun _ => ?_
  exact .given (charts_tryRest h start.span resources)

/-! ### Switches -/

theorem charts_caseLabels : Charts source [] (caseLabels g) (Expr.allSpots .inside) := by
  have hlabel : Charts source [] (caseLabel g) (Expr.spots .inside) := by
    unfold caseLabel
    refine .getting fun s => .getting fun t => .ite (fun _ => ?_) fun _ => h.inner _
    exact .skip identifier.stays fun _ => .pure rfl
  unfold caseLabels
  refine .ifEat rfl (.pure rfl) (.skip (expect rfl).discard.stays fun _ => ?_)
  exact (Charts.sepBy rfl hlabel).congr (Expr.allSpots_eq _)

theorem charts_switchCase : Charts source [] (switchCase g) fun c =>
    Expr.allSpots .inside c.labels ++ Stmt.allSpots c.body := by
  unfold switchCase
  refine .peeking fun t => (charts_caseLabels h).bind fun labels => .ifEat rfl ?_ ?_
  · refine h.stmt.bind fun a => .given (.closing fun span => .pure ?_)
    simp [Stmt.allSpots]
  · refine .skip (expect rfl).discard.stays fun _ => ?_
    refine (charts_stmts h _ fun s => rfl).bind fun body => .closing fun span => .pure ?_
    simp

theorem charts_switch : Charts source [] (switch g) Stmt.spots := by
  unfold switch
  have hcases : Charts source []
      (Parser.collectWhile g.rounds (Parser.before Sign.rbrace) (some <$> switchCase g))
      SwitchCase.allSpots :=
    (Charts.collectWhile _ (before_eq _) ((charts_switchCase h).map fun c => by simp)).congr
      SwitchCase.allSpots_eq
  refine .skip (expect rfl).stays fun start => (charts_condition h).bind fun e => ?_
  refine .skip (expect rfl).discard.stays fun _ => hcases.bind fun cases => ?_
  refine .skip (expect rfl).discard.stays fun _ => .closing fun span => .pure ?_
  simp [Stmt.spots]

theorem charts_synchronizedStmt : Charts source [] (synchronizedStmt g) Stmt.spots := by
  unfold synchronizedStmt
  refine .skip (expect rfl).stays fun start => (charts_condition h).bind fun e => ?_
  exact h.block.bind fun body => .closing fun span => .pure (by simp [Stmt.spots])

theorem charts_labeled : Charts source [] (labeled g) Stmt.spots := by
  unfold labeled
  refine .skip identifier.stays fun label => .skip (expect rfl).discard.stays fun _ => ?_
  exact h.stmt.bind fun body => .closing fun span => .pure rfl

/-! ### All statements -/

theorem charts_varOrExpr : Charts source [] (varOrExpr g) Stmt.spots := by
  unfold varOrExpr
  exact .getting fun s => .ite (fun _ => charts_localVar h _ _) fun _ => charts_exprStmt h

theorem charts_wordStmt (word : Keyword) : Charts source [] (wordStmt g word) Stmt.spots := by
  unfold wordStmt
  split
  · exact charts_ifStmt h
  · exact charts_whileStmt h
  · exact charts_doStmt h
  · exact charts_forStmt h
  · exact charts_returning h
  · exact charts_jump fun _ _ => rfl
  · exact charts_jump fun _ _ => rfl
  · exact charts_throwing h
  · exact charts_tryStmt h
  · exact charts_switch h
  · exact .ifNth (charts_synchronizedStmt h) (charts_varOrExpr h)
  · exact charts_assertion h
  all_goals
    first
    | exact charts_declaration h
    | exact charts_varOrExpr h

theorem charts_stmt : Charts source [] (stmt g) Stmt.spots := by
  unfold stmt
  refine .peeking fun t => ?_
  split
  · exact h.block.bind fun b => .pure rfl
  · exact .advancing fun t => .pure rfl
  · exact charts_declaration h
  · exact .ifNth (charts_labeled h) (charts_varOrExpr h)
  · exact charts_wordStmt h _
  · exact charts_varOrExpr h

end Grammar

end JavaGraft

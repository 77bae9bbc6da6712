import JavaGraft.Grammar.Stmt
import JavaGraft.Proofs.Course.Expressions

/-!
# What the rules for statements gather

The span of a declaration starts where its modifiers do. In a loop over numbers it is not the base
of the loop, which starts before it; the declaration is read from its own base on and then held from
that of the loop on.
-/

namespace JavaGraft.Grammar

open Course

variable {source : List Char} {g : Rules} (h : g.Gathers source)

include h

/-! ### Variables -/

theorem gathers_varDeclarator : Moves source (varDeclarator g) fun v => [v.extent] := by
  unfold varDeclarator
  have hinit (b : Bool) :
      Moves source (if b then arrayInit g else g.expr 0) fun e => [e.extent] :=
    fun _ _ => .ite (fun _ => gathers_arrayInit h _ _) fun _ => h.expr 0 _ _
  have hsome (b : Bool) : Moves source (some <$> if b then arrayInit g else g.expr 0)
      fun e => e.toList.map Expr.extent := (hinit b).map fun _ => rfl
  have hlook : Stays source (Parser.check Sign.lbrace) fun _ => [] :=
    fun _ _ => .looks (fun s => ⟨_, rfl⟩) fun _ => .refl _
  refine identifier.lead (fun _ => rfl) fun name => dims.skip fun n => .ifEat rfl ?_ ?_
  · refine hlook.skip fun b => (hsome b).bind fun init => .close fun span => ?_
    simp [VarDeclarator.extent, Expr.optionExtents_eq_map]
  · exact .close fun _ => rfl

theorem gathers_varDeclarators :
    Moves source (varDeclarators g) fun vs => vs.map VarDeclarator.extent :=
  sepBy rfl (gathers_varDeclarator h)

theorem gathers_openLocalVar (m : Modifiers) (start : Span) :
    Gathers source start .loose m.extents (openLocalVar g m start) .tight
      fun a => [a.extent] := by
  unfold openLocalVar
  refine h.type.bind fun type => (gathers_varDeclarators h).bind fun vars => .close fun span => ?_
  simp [Stmt.extent, VarDeclarator.extents_eq_map]

theorem gathers_localVar (m : Modifiers) (start : Span) :
    Gathers source start .loose m.extents (localVar g m start) .tight fun a => [a.extent] := by
  unfold localVar
  refine h.type.bind fun type => (gathers_varDeclarators h).bind fun vars => ?_
  refine (expect rfl).discard.skip fun _ => .close fun span => ?_
  simp [Stmt.extent, VarDeclarator.extents_eq_map]

theorem gathers_declaration : Moves source (declaration g) fun a => [a.extent] := by
  unfold declaration
  refine .of_peek fun t => gathers_behindModifiers h (fun _ hs => hs.1) fun m => ?_
  refine .peek_bind fun u => .ite (fun _ => ?_) fun _ => (gathers_localVar h m t.span).anywhere
  exact ((h.typeDecl t.span t m).weaken fun s hs => hs.2).seq fun d => .pure rfl

/-! ### Simple statements -/

theorem gathers_condition : Moves source (condition g) fun e => [e.extent] := by
  unfold condition
  refine fun _ _ => (expect rfl).discard.skip fun _ => (h.expr 0).bind fun e => ?_
  exact (expect rfl).discard.skip fun _ => .pure rfl

theorem gathers_exprStmt : Moves source (exprStmt g) fun a => [a.extent] := by
  unfold exprStmt
  refine .of_peek fun t => (h.expr 0).anywhere.bind fun e => ?_
  exact (expect rfl).discard.skip fun _ => .close fun span => rfl

/-- An expression that may be left out. -/
theorem gathers_some : Moves source (some <$> g.expr 0) fun e => e.toList.map Expr.extent :=
  (h.expr 0).map fun _ => rfl

theorem gathers_returning : Moves source (returning g) fun a => [a.extent] := by
  unfold returning
  refine (expect rfl).lead_skip (fun _ => rfl) fun start => ?_
  refine .joinNext (fun e => e.toList.map Expr.extent) (fun _ _ => .pure rfl)
    (gathers_some h).stays.anywhere fun value => (expect rfl).discard.skip fun _ => ?_
  exact .close fun span => by simp [Stmt.extent, Expr.optionExtents_eq_map]

omit h in
theorem gathers_jump {build : Option Ident → Span → Stmt}
    (hbuild : ∀ i span, (build i span).extent = .node span none (i.toList.map Ident.extent)) :
    MovesFrom source (fun s => s.next.kind.hasText) (jump build) fun a => [a.extent] := by
  have hadvance : MovesFrom source (fun s => s.next.kind.hasText) Parser.advance
      fun t => [.leaf t.span] := .advance fun _ hs => hs
  unfold jump
  refine hadvance.lead_skip (fun _ => rfl) fun start => (eat? rfl).bind fun label => ?_
  refine (expect rfl).discard.skip fun _ => .close fun span => ?_
  rw [hbuild]
  cases label <;> rfl

theorem gathers_throwing : Moves source (throwing g) fun a => [a.extent] := by
  unfold throwing
  refine (expect rfl).lead_skip (fun _ => rfl) fun start => (h.expr 0).bind fun e => ?_
  exact (expect rfl).discard.skip fun _ => .close fun span => rfl

theorem gathers_assertion : Moves source (assertion g) fun a => [a.extent] := by
  unfold assertion
  refine (expect rfl).lead_skip (fun _ => rfl) fun start => (h.expr 0).bind fun e => ?_
  have hclose (message : Option Expr) : Gathers source start.span .tight
      ([] ++ [e.extent] ++ message.toList.map Expr.extent) (do
        discard (Parser.expect Sign.semicolon)
        return .assertion e message (← Parser.spanFrom start.span) : Parser Stmt) .tight
      fun a => [a.extent] :=
    (expect rfl).discard.skip fun _ => .close fun span => by
      simp [Stmt.extent, Expr.optionExtents_eq_map]
  exact .joinEat rfl (fun e => e.toList.map Expr.extent) (gathers_some h).stays
    (fun _ _ => .pure rfl) hclose hclose

/-! ### Statements with bodies -/

theorem gathers_stmts {close : TokenKind} : Stays source
    (Parser.collectWhile g.rounds (Parser.before close) (Parser.recovering (some <$> g.stmt)))
    fun as => as.map Stmt.extent :=
  collectBefore (h.stmt.map fun _ => rfl).stays.recovering

theorem gathers_block : Moves source (block g) fun b => [b.extent] := by
  unfold block
  refine (expect rfl).lead_skip (fun _ => rfl) fun first => (gathers_stmts h).bind fun stmts => ?_
  exact .close_by (expect rfl) fun last => by simp [Block.extent, Stmt.extents_eq_map]

theorem gathers_ifStmt : Moves source (ifStmt g) fun a => [a.extent] := by
  unfold ifStmt
  refine (expect rfl).lead_skip (fun _ => rfl) fun start => (gathers_condition h).bind fun e => ?_
  refine h.stmt.bind fun yes => .ifEat rfl ?_ ?_
  · exact h.stmt.bind fun no => .close fun span => rfl
  · exact .close fun span => rfl

theorem gathers_whileStmt : Moves source (whileStmt g) fun a => [a.extent] := by
  unfold whileStmt
  refine (expect rfl).lead_skip (fun _ => rfl) fun start => (gathers_condition h).bind fun e => ?_
  exact h.stmt.bind fun body => .close fun span => rfl

theorem gathers_doStmt : Moves source (doStmt g) fun a => [a.extent] := by
  unfold doStmt
  refine (expect rfl).lead_skip (fun _ => rfl) fun start => h.stmt.bind fun body => ?_
  refine (expect rfl).discard.skip fun _ => (gathers_condition h).bind fun e => ?_
  exact (expect rfl).discard.skip fun _ => .close fun span => rfl

theorem gathers_forEach (m : Modifiers) (start : Span) :
    Gathers source start .loose m.extents (forEach g m start) .tight fun a => [a.extent] := by
  unfold forEach
  refine h.type.bind fun type => identifier.bind fun name => (expect rfl).discard.skip fun _ => ?_
  refine (h.expr 0).bind fun iterable => (expect rfl).discard.skip fun _ => ?_
  exact h.stmt.bind fun body => .close fun span => by simp [Stmt.extent]

omit h in
/-- Where modifiers lead to, they are held from their first token on. -/
theorem held_lead {base : Span} {t : Token} {m : Modifiers} {s : ParserState} {first : Nat}
    (hlead : m.Lead source base t s) (hheld : Held source base first .loose s m.extents) :
    Held source t.span first .loose s m.extents := by
  refine ⟨hlead.liesIn, hlead.past, hheld.sound, fun x hx => ?_, hheld.before, hheld.ordered,
    hheld.since, hheld.distinct, hheld.numbers⟩
  rw [Modifiers.extents_of_present hlead.present, List.mem_singleton] at hx
  rw [hx]
  exact hlead.offset.ge

theorem gathers_forInit (declares : Bool) (m : Modifiers) (start : Span) (t : Token) :
    GathersFrom source (m.Lead source start t) start .loose m.extents
      (forInit g declares m t.span) .loose fun as => as.map Stmt.extent := by
  unfold forInit
  refine .ite (fun _ => ?_) fun _ => .drop (.ifNext (.pure rfl) ?_) (List.nil_sublist _)
  · have hvar : GathersFrom source (m.Lead source start t) start .loose m.extents
        (openLocalVar g m t.span) .tight fun a => [a.extent] :=
      (gathers_openLocalVar h m t.span).anywhere.rebase_when fun s first hlead _ hheld =>
        ⟨held_lead hlead hheld, hlead.offset_le, hlead.stop_le⟩
    exact (hvar.seq fun a => .pure rfl).loosen
  · refine (sepBy rfl (h.expr 0)).stays.anywhere.bind fun es => .wrapped ?_
    simp [Stmt.extent, Function.comp_def]

theorem gathers_forLoop (declares : Bool) (m : Modifiers) (start : Span) (t : Token) :
    GathersFrom source (m.Lead source start t) start .loose m.extents
      (forLoop g declares m t.span start) .tight fun a => [a.extent] := by
  unfold forLoop
  refine (gathers_forInit h declares m start t).seq fun init => ?_
  refine (expect rfl).discard.skip fun _ => ?_
  refine .joinNext (fun e => e.toList.map Expr.extent) (fun _ _ => .pure rfl)
    (gathers_some h).stays.anywhere fun e => (expect rfl).discard.skip fun _ => ?_
  refine .joinNext (fun es => es.map Expr.extent) (fun _ _ => .pure rfl)
    (sepBy rfl (h.expr 0)).stays.anywhere fun updates => (expect rfl).discard.skip fun _ => ?_
  refine h.stmt.bind fun body => .close fun span => ?_
  simp [Stmt.extent, Stmt.extents_eq_map, Expr.extents_eq_map, Expr.optionExtents_eq_map]

theorem gathers_forStmt : Moves source (forStmt g) fun a => [a.extent] := by
  unfold forStmt
  refine (expect rfl).lead_skip (fun _ => rfl) fun start => (expect rfl).discard.skip fun _ => ?_
  refine .peek_bind fun t => gathers_behindModifiers h (fun _ hs => hs.1) fun m => ?_
  refine .getting fun s => .ite (fun _ => (gathers_forEach h m _).anywhere) fun _ => ?_
  exact gathers_forLoop h _ m _ t

theorem gathers_resource : Moves source (resource g) fun a => [a.extent] := by
  unfold resource
  refine .of_peek fun t => gathers_behindModifiers h (fun _ hs => hs.1) fun m => ?_
  refine .getting fun s => .ite (fun _ => (gathers_openLocalVar h m t.span).anywhere) fun _ => ?_
  refine .drop ((h.expr 0).anywhere.bind fun e => .wrapped ?_) (List.nil_sublist _)
  simp [Stmt.extent]

theorem gathers_catchClause? :
    Stays source (catchClause? g) fun c => c.toList.map CatchClause.extent := by
  unfold catchClause?
  refine fun _ _ => .eat?_lead rfl (fun t => (expect rfl).discard.skip fun _ => ?_) (.pure rfl)
  refine .by_next fun u => gathers_behindModifiers h (fun _ hs => hs.1) fun m => ?_
  refine (sepBy rfl h.type).anywhere.bind fun types => identifier.bind fun name => ?_
  refine (expect rfl).discard.skip fun _ => h.block.bind fun body => .close fun span => ?_
  simp [CatchClause.extent]

theorem gathers_tryRest (start : Span) (resources : List Stmt) : Gathers source start .tight
    ([] ++ resources.map Stmt.extent) (tryRest g start resources) .tight fun a => [a.extent] := by
  unfold tryRest
  refine h.block.bind fun body => (collect (gathers_catchClause? h)).bind fun catches => ?_
  have hblock : Moves source (some <$> g.block) fun b => b.toList.map Block.extent :=
    h.block.map fun _ => rfl
  have hclose (finish : Option Block) : Gathers source start .tight
      ([] ++ resources.map Stmt.extent ++ [body.extent] ++ catches.map CatchClause.extent ++
        finish.toList.map Block.extent) (if catches.isEmpty && finish.isNone &&
          resources.isEmpty then Parser.rejectNext (.expectedToken "'catch' or 'finally'")
        else do return .tryCatch resources body catches finish (← Parser.spanFrom start)
        : Parser Stmt) .tight fun a => [a.extent] :=
    .ite (fun _ => .rejectNext fun _ _ => nofun) fun _ => .close fun span => by
      simp [Stmt.extent, Stmt.extents_eq_map, CatchClause.extents_eq_map,
        Block.optionExtents_eq_map]
  exact .joinEat rfl (fun b => b.toList.map Block.extent) hblock.stays (fun _ _ => .pure rfl)
    hclose hclose

theorem gathers_tryStmt : Moves source (tryStmt g) fun a => [a.extent] := by
  rw [tryStmt_eq]
  refine (expect rfl).lead_skip (fun _ => rfl) fun start => ?_
  refine .ifEat rfl ?_ (gathers_tryRest h start.span []).anywhere
  refine (sepUntil rfl (gathers_resource h)).bind fun resources => ?_
  exact (expect rfl).discard.skip fun _ => gathers_tryRest h start.span resources

/-! ### Switches -/

theorem gathers_caseLabel : Moves source (caseLabel g) fun e => [e.extent] := by
  unfold caseLabel
  refine fun _ _ => .getting fun s => .getting fun t => .ite (fun _ => ?_) fun _ => h.expr _ _ _
  exact identifier.bind fun _ => .pure rfl

theorem gathers_caseLabels : Moves source (caseLabels g) fun es => es.map Expr.extent := by
  unfold caseLabels
  refine fun _ _ => .ifEat rfl (.pure rfl) ((expect rfl).discard.anywhere.skip fun _ => ?_)
  exact sepBy rfl (gathers_caseLabel h) _ _

theorem gathers_caseBody : Stays source
    (Parser.collectWhile g.rounds caseGoesOn (Parser.recovering (some <$> g.stmt)))
    fun as => as.map Stmt.extent :=
  collectWhile (fun s => s.next.kind ≠ Keyword.kwCase && s.next.kind ≠ Keyword.kwDefault &&
      s.next.kind ≠ Sign.rbrace && s.next.kind ≠ .endOfSource) (fun _ => rfl)
    (h.stmt.map fun _ => rfl).stays.recovering.anywhere

theorem gathers_switchCase : Moves source (switchCase g) fun c => [c.extent] := by
  unfold switchCase
  refine .of_peek fun t => (gathers_caseLabels h).anywhere.bind fun labels => ?_
  refine .ifEat rfl (h.stmt.bind fun a => .close fun span => ?_) ?_
  · simp [SwitchCase.extent, Expr.extents_eq_map, Stmt.extents_eq_map]
  · refine (expect rfl).discard.anywhere.skip fun _ => (gathers_caseBody h).bind fun body => ?_
    exact .close fun span => by simp [SwitchCase.extent, Expr.extents_eq_map, Stmt.extents_eq_map]

theorem gathers_switch : Moves source (switch g) fun a => [a.extent] := by
  unfold switch
  have hcase : Moves source (some <$> switchCase g) fun c => c.toList.map SwitchCase.extent :=
    (gathers_switchCase h).map fun _ => rfl
  refine (expect rfl).lead_skip (fun _ => rfl) fun start => (gathers_condition h).bind fun e => ?_
  refine (expect rfl).discard.skip fun _ => (collectBefore hcase.stays).bind fun cases => ?_
  refine (expect rfl).discard.skip fun _ => .close fun span => ?_
  simp [Stmt.extent, SwitchCase.extents_eq_map]

theorem gathers_synchronizedStmt : Moves source (synchronizedStmt g) fun a => [a.extent] := by
  unfold synchronizedStmt
  refine (expect rfl).lead_skip (fun _ => rfl) fun start => (gathers_condition h).bind fun e => ?_
  exact h.block.bind fun body => .close fun span => rfl

theorem gathers_labeled : Moves source (labeled g) fun a => [a.extent] := by
  unfold labeled
  refine identifier.lead (fun _ => rfl) fun label => (expect rfl).discard.skip fun _ => ?_
  exact h.stmt.bind fun body => .close fun span => rfl

/-! ### All statements -/

theorem gathers_varOrExpr : Moves source (varOrExpr g) fun a => [a.extent] := by
  unfold varOrExpr
  refine fun _ _ => .get_bind fun s => .ite (fun _ => ?_) fun _ =>
    (gathers_exprStmt h).anywhere _ _
  have hvar : MovesFrom source (fun u => u = s ∧ True) (localVar g .absent s.next.span)
      fun a => [a.extent] :=
    .of_known (fun u hu => by rw [hu.1]) (gathers_localVar h .absent s.next.span).anywhere
  exact hvar _ _

theorem gathers_wordStmt (word : Keyword) :
    MovesFrom source (fun s => s.next.kind.hasText) (wordStmt g word) fun a => [a.extent] := by
  unfold wordStmt
  split
  · exact (gathers_ifStmt h).anywhere
  · exact (gathers_whileStmt h).anywhere
  · exact (gathers_doStmt h).anywhere
  · exact (gathers_forStmt h).anywhere
  · exact (gathers_returning h).anywhere
  · exact gathers_jump fun _ _ => rfl
  · exact gathers_jump fun _ _ => rfl
  · exact (gathers_throwing h).anywhere
  · exact (gathers_tryStmt h).anywhere
  · exact (gathers_switch h).anywhere
  · exact fun _ _ => .ifNth ((gathers_synchronizedStmt h).anywhere _ _)
      ((gathers_varOrExpr h).anywhere _ _)
  · exact (gathers_assertion h).anywhere
  all_goals
    first
    | exact (gathers_declaration h).anywhere
    | exact (gathers_varOrExpr h).anywhere

theorem gathers_stmt : Moves source (stmt g) fun a => [a.extent] := by
  unfold stmt
  refine .of_peek fun t => ?_
  split
  · exact h.block.anywhere.bind fun _ => .pure rfl
  · next ht =>
    have hadvance : MovesFrom source (fun s => s.next = t ∧ True) Parser.advance
        fun t => [.leaf t.span] := .advance fun s hs => by rw [hs.1, ht]; rfl
    exact hadvance.bind fun _ => .pure rfl
  · exact (gathers_declaration h).anywhere _ _
  · exact .ifNth ((gathers_labeled h).anywhere _ _) ((gathers_varOrExpr h).anywhere _ _)
  · next word ht =>
    exact (gathers_wordStmt h word).weaken (fun s hs => by rw [hs.1, ht]; rfl) _ _
  · exact (gathers_varOrExpr h).anywhere _ _

end JavaGraft.Grammar

import JavaGraft.Grammar.Stmt
import JavaGraft.Proofs.Recovery.Expressions

/-!
# What the rules for statements keep

The rules for statements keep bounds and braces if the recursive parts do. In a block, recovery from
an error in a statement starts before a token that is neither a closing brace nor the end.
-/

namespace JavaGraft.Grammar

open Enclosure RunsFrom

variable {c : Enclosure} {g : Rules} {n r : Nat} (h : g.Keep c n)

include h

/-! ### Variables -/

theorem runs_varDeclarator (hr : 8 * r ≤ n + 6) : c.Moves r (varDeclarator g) := by
  unfold varDeclarator
  have hinit (b : Bool) : c.Stays (r - 1) (if b then arrayInit g else g.expr 0) :=
    ite (fun _ => (runs_arrayInit h (by omega)).stays) fun _ => (h.expr 0 (by omega)).stays
  refine identifier.bind fun name => dims.bind fun dims => ifEat rfl ?_ ?_
  · refine (looks fun s => ⟨_, rfl⟩).bind fun b => ((hinit b).below ?_).wrap.bind fun init => ?_
    · omega
    · exact (spanFrom _).bind fun _ => .pure rfl
  · exact (spanFrom _).bind fun _ => .pure rfl

theorem runs_varDeclarators (hr : 8 * r ≤ n + 6) : c.Moves r (varDeclarators g) :=
  sepBy rfl (runs_varDeclarator h hr) (rounds_suffice h hr)

theorem runs_openLocalVar (modifiers : Modifiers) (start : Span) (hr : 8 * r ≤ n + 4) :
    c.Moves r (openLocalVar g modifiers start) := by
  unfold openLocalVar
  refine (h.type (by omega)).bind fun type => ?_
  refine (runs_varDeclarators h (by omega)).stays.bind fun vars => ?_
  exact (spanFrom _).bind fun _ => .pure rfl

theorem runs_localVar (modifiers : Modifiers) (start : Span) (hr : 8 * r ≤ n + 4) :
    c.Moves r (localVar g modifiers start) := by
  unfold localVar
  refine (h.type (by omega)).bind fun type => ?_
  refine (runs_varDeclarators h (by omega)).stays.bind fun vars => ?_
  exact (expect rfl).stays.discard.bind fun _ => (spanFrom _).bind fun _ => .pure rfl

theorem runs_declaration (hr : 8 * r ≤ n + 4) : c.Moves r (declaration g) := by
  unfold declaration
  refine peeking fun t => (runs_modifiers h (by omega)).bind fun modifiers => ?_
  refine peek_bind fun u => ite (fun hu => ?_) fun _ => ?_
  · refine RunsFrom.bind ((h.typeDecl modifiers (by omega)).weaken (fun s hs _ => ?_) le_rfl
      fun _ => le_rfl) fun _ => .pure rfl
    rw [hs.1]
    exact hu
  · exact (runs_localVar h _ _ (by omega)).anywhere

/-! ### Simple statements -/

theorem runs_condition (hr : 8 * r ≤ n + 6) : c.Moves r (condition g) := by
  unfold condition
  refine (expect rfl).discard.bind fun _ => (h.expr 0 (by omega)).stays.bind fun e => ?_
  exact (expect rfl).stays.discard.bind fun _ => .pure rfl

theorem runs_exprStmt (hr : 8 * r ≤ n + 3) : c.Moves r (exprStmt g) := by
  unfold exprStmt
  refine peeking fun t => (h.expr 0 (by omega)).bind fun e => ?_
  exact (expect rfl).stays.discard.bind fun _ => (spanFrom _).bind fun _ => .pure rfl

theorem runs_returning (hr : 8 * r ≤ n + 6) : c.Moves r (returning g) := by
  unfold returning
  refine (expect rfl).bind fun start => ?_
  refine joinNext (.pure rfl) (h.expr 0 (by omega)).stays.wrap.anywhere fun value => ?_
  exact (expect rfl).stays.discard.bind fun _ => (spanFrom _).bind fun _ => .pure rfl

omit h in
theorem runs_jump (build : Option Ident → Span → Stmt) :
    c.RunsFrom (fun s => s.next.kind.isInner) r 0 (fun _ => 1) (jump build) := by
  have hadvance : c.RunsFrom (fun s => s.next.kind.isInner) r 0 (fun _ => 1) Parser.advance :=
    advance fun _ hs => hs
  unfold jump
  refine hadvance.bind fun start => (eat? rfl).stays.bind fun label => ?_
  exact (expect rfl).stays.discard.bind fun _ => (spanFrom _).bind fun _ => .pure rfl

theorem runs_throwing (hr : 8 * r ≤ n + 6) : c.Moves r (throwing g) := by
  unfold throwing
  refine (expect rfl).bind fun start => (h.expr 0 (by omega)).stays.bind fun e => ?_
  exact (expect rfl).stays.discard.bind fun _ => (spanFrom _).bind fun _ => .pure rfl

theorem runs_assertion (hr : 8 * r ≤ n + 6) : c.Moves r (assertion g) := by
  unfold assertion
  refine (expect rfl).bind fun start => (h.expr 0 (by omega)).stays.bind fun e => ?_
  refine joinEat rfl (h.expr 0 (by omega)).stays.wrap (.pure rfl) fun message => ?_
  exact (expect rfl).stays.discard.bind fun _ => (spanFrom _).bind fun _ => .pure rfl

/-! ### Statements with bodies -/

theorem runs_block (hr : 8 * r ≤ n + 6) : c.Moves r (block g) := by
  unfold block
  refine open_bind fun first => ?_
  refine (collectBefore (recovering (h.stmt (by omega)).wrap.anywhere fun s hs => hs.2)
    (rounds_suffice h (by omega))).bind fun stmts => ?_
  exact close_bind fun last => .pure rfl

theorem runs_ifStmt (hr : 8 * r ≤ n + 6) : c.Moves r (ifStmt g) := by
  unfold ifStmt
  refine (expect rfl).bind fun start => (runs_condition h (by omega)).stays.bind fun e => ?_
  refine (h.stmt (by omega)).stays.bind fun yes => ifEat rfl ?_ ?_
  · exact (h.stmt (by omega)).stays.bind fun no => (spanFrom _).bind fun _ => .pure rfl
  · exact (spanFrom _).bind fun _ => .pure rfl

theorem runs_whileStmt (hr : 8 * r ≤ n + 6) : c.Moves r (whileStmt g) := by
  unfold whileStmt
  refine (expect rfl).bind fun start => (runs_condition h (by omega)).stays.bind fun e => ?_
  exact (h.stmt (by omega)).stays.bind fun body => (spanFrom _).bind fun _ => .pure rfl

theorem runs_doStmt (hr : 8 * r ≤ n + 6) : c.Moves r (doStmt g) := by
  unfold doStmt
  refine (expect rfl).bind fun start => (h.stmt (by omega)).stays.bind fun body => ?_
  refine (expect rfl).stays.discard.bind fun _ => ?_
  refine (runs_condition h (by omega)).stays.bind fun e => ?_
  exact (expect rfl).stays.discard.bind fun _ => (spanFrom _).bind fun _ => .pure rfl

theorem runs_forEach (modifiers : Modifiers) (start : Span) (hr : 8 * r ≤ n + 2) :
    c.Moves r (forEach g modifiers start) := by
  unfold forEach
  refine (h.type (by omega)).bind fun type => identifier.stays.bind fun name => ?_
  refine (expect rfl).stays.discard.bind fun _ => ?_
  refine (h.expr 0 (by omega)).stays.bind fun iterable => ?_
  refine (expect rfl).stays.discard.bind fun _ => (h.stmt (by omega)).stays.bind fun body => ?_
  exact (spanFrom _).bind fun _ => .pure rfl

theorem runs_forInit (declares : Bool) (modifiers : Modifiers) (start : Span)
    (hr : 8 * r ≤ n + 2) : c.Stays r (forInit g declares modifiers start) := by
  unfold forInit
  refine ite (fun _ => ?_) fun _ => ifNext (.pure rfl) ?_
  · exact (runs_openLocalVar h modifiers start (by omega)).stays.bind fun _ => .pure rfl
  · refine (sepBy rfl (h.expr 0 (by omega)) (rounds_suffice h (by omega))).stays.anywhere.bind
      fun es => .pure rfl

theorem runs_forLoop (declares : Bool) (modifiers : Modifiers) (initStart start : Span)
    (hr : 8 * r ≤ n + 2) : c.Moves r (forLoop g declares modifiers initStart start) := by
  unfold forLoop
  refine (runs_forInit h declares modifiers initStart hr).bind fun init => ?_
  refine (expect rfl).discard.bind fun _ => ?_
  refine joinNext (.pure rfl) (h.expr 0 (by omega)).stays.wrap.anywhere fun e => ?_
  refine (expect rfl).stays.discard.bind fun _ => joinNext (.pure rfl) ?_ fun updates => ?_
  · exact (sepBy rfl (h.expr 0 (by omega)) (rounds_suffice h (by omega))).stays.anywhere
  · refine (expect rfl).stays.discard.bind fun _ => (h.stmt (by omega)).stays.bind fun body => ?_
    exact (spanFrom _).bind fun _ => .pure rfl

theorem runs_forStmt (hr : 8 * r ≤ n + 6) : c.Moves r (forStmt g) := by
  unfold forStmt
  refine (expect rfl).bind fun start => (expect rfl).stays.discard.bind fun _ => ?_
  refine peeking fun t => (runs_modifiers h (by omega)).bind fun modifiers => getting fun s => ?_
  refine ite (fun _ => ?_) fun _ => ?_
  · exact (runs_forEach h _ _ (by omega)).stays
  · exact (runs_forLoop h _ _ _ _ (by omega)).stays

theorem runs_resource (hr : 8 * r ≤ n + 2) : c.Moves r (resource g) := by
  unfold resource
  refine peeking fun t => (runs_modifiers h (by omega)).bind fun modifiers => getting fun s => ?_
  refine ite (fun _ => runs_openLocalVar h _ _ (by omega)) fun _ => ?_
  exact (h.expr 0 (by omega)).bind fun e => .pure rfl

theorem runs_catchClause? (hr : 8 * r ≤ n + 6) : c.Finds r (catchClause? g) := by
  unfold catchClause?
  refine eat?_bind rfl (fun t => ?_) (.pure rfl)
  refine (expect rfl).stays.discard.bind fun _ => ?_
  refine (runs_modifiers h (by omega)).bind fun modifiers => ?_
  refine (sepBy rfl (h.type (by omega)) (rounds_suffice h (by omega))).stays.bind fun types => ?_
  refine identifier.stays.bind fun name => (expect rfl).stays.discard.bind fun _ => ?_
  exact (h.block (by omega)).stays.bind fun body => (spanFrom _).bind fun _ => .pure rfl

theorem runs_tryRest (hr : 8 * r ≤ n + 4) (start : Span) (resources : List Stmt) :
    c.Stays r (tryRest g start resources) := by
  unfold tryRest
  refine (h.block (by omega)).stays.bind fun body => ?_
  refine (collect (runs_catchClause? h (by omega)) (rounds_suffice h (by omega))).bind
    fun catches => ?_
  refine joinEat rfl (h.block (by omega)).stays.wrap (.pure rfl) fun finish => ?_
  exact ite (fun _ => rejectFound rfl nofun) fun _ => (spanFrom _).bind fun _ => .pure rfl

theorem runs_tryStmt (hr : 8 * r ≤ n + 6) : c.Moves r (tryStmt g) := by
  rw [tryStmt_eq]
  refine (expect rfl).bind fun start => ?_
  have hend (resources : List Stmt) : c.Stays (r - 1) (tryRest g start.span resources) :=
    runs_tryRest h (by omega) start.span resources
  refine ifEat rfl ?_ (hend []).anywhere
  refine (sepUntil rfl (runs_resource h (by omega)) (rounds_suffice h (by omega))).bind
    fun resources => ?_
  exact (expect rfl).stays.discard.bind fun _ => (hend resources).below (by omega)

/-! ### Switches -/

theorem runs_caseLabel (hr : 8 * r ≤ n + 3) : c.Moves r (caseLabel g) := by
  unfold caseLabel
  refine getting fun s => getting fun t => ite (fun _ => ?_) fun _ => h.expr _ (by omega)
  exact identifier.bind fun _ => .pure rfl

theorem runs_caseLabels (hr : 8 * r ≤ n + 6) : c.Moves r (caseLabels g) := by
  unfold caseLabels
  refine ifEat rfl (.pure rfl) ?_
  refine (expect rfl).anywhere.discard.bind fun _ => ?_
  exact (sepBy rfl (runs_caseLabel h (by omega)) (rounds_suffice h (by omega))).stays

theorem runs_caseBody (hr : 8 * r ≤ n + 2) :
    c.Stays r (Parser.collectWhile g.rounds caseGoesOn (Parser.recovering (some <$> g.stmt))) :=
  collectWhile (fun s => s.next.kind ≠ Keyword.kwCase && s.next.kind ≠ Keyword.kwDefault &&
      s.next.kind ≠ Sign.rbrace && s.next.kind ≠ .endOfSource) (fun _ => rfl)
    (recovering (h.stmt (by omega)).wrap.anywhere fun s hs => by
      simpa using (Bool.and_eq_true_iff.mp hs).2)
    (rounds_suffice h (by omega))

theorem runs_switchCase (hr : 8 * r ≤ n + 6) : c.Moves r (switchCase g) := by
  unfold switchCase
  refine peeking fun t => (runs_caseLabels h hr).bind fun labels => ?_
  refine ifEat rfl ?_ ?_
  · refine (h.stmt (by omega)).stays.bind fun s => (spanFrom _).bind fun _ => .pure rfl
  · refine (expect rfl).stays.anywhere.discard.bind fun _ => ?_
    refine (runs_caseBody h (by omega)).bind fun body => (spanFrom _).bind fun _ => .pure rfl

theorem runs_switch (hr : 8 * r ≤ n + 6) : c.Moves r (switch g) := by
  unfold switch
  refine (expect rfl).bind fun start => (runs_condition h (by omega)).stays.bind fun e => ?_
  refine opening ?_
  refine (collectBefore (runs_switchCase h (by omega)).wrap.anywhere
    (rounds_suffice h (by omega))).bind fun cases => closing ?_
  exact (spanFrom _).bind fun _ => .pure rfl

theorem runs_synchronizedStmt (hr : 8 * r ≤ n + 6) : c.Moves r (synchronizedStmt g) := by
  unfold synchronizedStmt
  refine (expect rfl).bind fun start => (runs_condition h (by omega)).stays.bind fun e => ?_
  exact (h.block (by omega)).stays.bind fun body => (spanFrom _).bind fun _ => .pure rfl

theorem runs_labeled (hr : 8 * r ≤ n + 6) : c.Moves r (labeled g) := by
  unfold labeled
  refine identifier.bind fun label => (expect rfl).stays.discard.bind fun _ => ?_
  exact (h.stmt (by omega)).stays.bind fun body => (spanFrom _).bind fun _ => .pure rfl

/-! ### All statements -/

theorem runs_varOrExpr (hr : 8 * r ≤ n + 3) : c.Moves r (varOrExpr g) := by
  unfold varOrExpr
  refine getting fun s => ite (fun _ => ?_) fun _ => runs_exprStmt h hr
  exact runs_localVar h _ _ (by omega)

theorem runs_wordStmt (word : Keyword) (hr : 8 * r ≤ n + 3) :
    c.RunsFrom (fun s => s.next.kind.isInner) r 0 (fun _ => 1) (wordStmt g word) := by
  unfold wordStmt
  split
  · exact (runs_ifStmt h (by omega)).anywhere
  · exact (runs_whileStmt h (by omega)).anywhere
  · exact (runs_doStmt h (by omega)).anywhere
  · exact (runs_forStmt h (by omega)).anywhere
  · exact (runs_returning h (by omega)).anywhere
  · exact runs_jump _
  · exact runs_jump _
  · exact (runs_throwing h (by omega)).anywhere
  · exact (runs_tryStmt h (by omega)).anywhere
  · exact (runs_switch h (by omega)).anywhere
  · exact ifNth (runs_synchronizedStmt h (by omega)).anywhere (runs_varOrExpr h hr).anywhere
  · exact (runs_assertion h (by omega)).anywhere
  all_goals
    first
    | exact (runs_declaration h (by omega)).anywhere
    | exact (runs_varOrExpr h hr).anywhere

theorem runs_stmt (hr : 8 * r ≤ n + 3) : c.Moves r (stmt g) := by
  unfold stmt
  refine peek_bind fun t => ?_
  have hadvance (ht : t.kind.isInner) :
      c.RunsFrom (fun s => s.next = t ∧ True) r 0 (fun _ => 1) Parser.advance :=
    advance fun s hs => by rw [hs.1]; exact ht
  split
  · exact (h.block (by omega)).anywhere.bind fun _ => .pure rfl
  · next ht => exact (hadvance (by rw [ht]; rfl)).bind fun _ => .pure rfl
  · exact (runs_declaration h (by omega)).anywhere
  · exact ifNth (runs_labeled h (by omega)).anywhere (runs_varOrExpr h hr).anywhere
  · next word ht =>
    exact (runs_wordStmt h word hr).weaken (fun s hs => by rw [hs.1, ht]; rfl) le_rfl
      fun _ => le_rfl
  · exact (runs_varOrExpr h hr).anywhere

end JavaGraft.Grammar

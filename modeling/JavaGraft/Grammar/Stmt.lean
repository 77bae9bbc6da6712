import JavaGraft.Grammar.Expr
import JavaGraft.Grammar.Modifiers

/-!
# Parsing statements

The first token of a statement decides its form, except between declarations of variables and
expressions, which are told apart by looking ahead. Errors within a block or a `switch` group are
recorded, and reading goes on at the next statement.
-/

namespace JavaGraft.Grammar

open JavaGraft.Parser

/-! ### Variables -/

/-- One variable of a declaration. -/
def varDeclarator (g : Rules) : Parser VarDeclarator := do
  let name ← identifier
  let n ← dims
  let init ←
    if ← eat Sign.assign then
      some <$> if ← check Sign.lbrace then arrayInit g else g.expr 0
    else pure none
  return ⟨name, n, init, ← spanFrom name.span⟩

/-- The variables of a declaration. -/
def varDeclarators (g : Rules) : Parser (List VarDeclarator) :=
  sepBy g.rounds Sign.comma (varDeclarator g)

/-- A declaration of variables without its end. -/
def openLocalVar (g : Rules) (modifiers : Modifiers) (start : Span) : Parser Stmt := do
  let type ← g.type
  let vars ← varDeclarators g
  return .localVar modifiers type vars (← spanFrom start)

/-- A declaration of variables. -/
def localVar (g : Rules) (modifiers : Modifiers) (start : Span) : Parser Stmt := do
  let type ← g.type
  let vars ← varDeclarators g
  discard (expect Sign.semicolon)
  return .localVar modifiers type vars (← spanFrom start)

/-- A declaration of a type or of variables, led by modifiers. -/
def declaration (g : Rules) : Parser Stmt := do
  let start := (← peek).span
  let modifiers ← modifiers g
  if startsTypeDecl (← peek).kind then return .localType (← g.typeDecl modifiers)
  else localVar g modifiers start

/-! ### Simple statements -/

/-- An expression in parentheses, without a node of its own. -/
def condition (g : Rules) : Parser Expr := do
  discard (expect Sign.lparen)
  let e ← g.expr 0
  discard (expect Sign.rparen)
  return e

/-- An expression as a statement. -/
def exprStmt (g : Rules) : Parser Stmt := do
  let start := (← peek).span
  let e ← g.expr 0
  discard (expect Sign.semicolon)
  return .expr e (← spanFrom start)

/-- A `return`. -/
def returning (g : Rules) : Parser Stmt := do
  let start := (← expect Keyword.kwReturn).span
  let value ← if ← check Sign.semicolon then pure none else some <$> g.expr 0
  discard (expect Sign.semicolon)
  return .ret value (← spanFrom start)

/-- A `break` or `continue`; `build` makes it of its label and span. -/
def jump (build : Option Ident → Span → Stmt) : Parser Stmt := do
  let start := (← advance).span
  let label ← eat? .identifier
  discard (expect Sign.semicolon)
  return build (label.map fun t => ⟨t.text, t.span⟩) (← spanFrom start)

/-- A `throw`. -/
def throwing (g : Rules) : Parser Stmt := do
  let start := (← expect Keyword.kwThrow).span
  let e ← g.expr 0
  discard (expect Sign.semicolon)
  return .throwing e (← spanFrom start)

/-- An `assert`. -/
def assertion (g : Rules) : Parser Stmt := do
  let start := (← expect Keyword.kwAssert).span
  let e ← g.expr 0
  let message ← if ← eat Sign.colon then some <$> g.expr 0 else pure none
  discard (expect Sign.semicolon)
  return .assertion e message (← spanFrom start)

/-! ### Statements with bodies -/

/-- Statements in braces; the ones with errors are left out. -/
def block (g : Rules) : Parser Block := do
  let first ← expect Sign.lbrace
  let stmts ← collectWhile g.rounds (before Sign.rbrace) (recovering (some <$> g.stmt))
  let last ← expect Sign.rbrace
  return ⟨stmts, first.span.merge last.span⟩

/-- An `if`. -/
def ifStmt (g : Rules) : Parser Stmt := do
  let start := (← expect Keyword.kwIf).span
  let e ← condition g
  let yes ← g.stmt
  if ← eat Keyword.kwElse then
    let no ← g.stmt
    return .ifElse e yes no (← spanFrom start)
  else return .ifThen e yes (← spanFrom start)

/-- A `while`. -/
def whileStmt (g : Rules) : Parser Stmt := do
  let start := (← expect Keyword.kwWhile).span
  let e ← condition g
  let body ← g.stmt
  return .whileLoop e body (← spanFrom start)

/-- A `do`. -/
def doStmt (g : Rules) : Parser Stmt := do
  let start := (← expect Keyword.kwDo).span
  let body ← g.stmt
  discard (expect Keyword.kwWhile)
  let e ← condition g
  discard (expect Sign.semicolon)
  return .doLoop body e (← spanFrom start)

/-- A loop over elements, from the type of its variable on. -/
def forEach (g : Rules) (modifiers : Modifiers) (start : Span) : Parser Stmt := do
  let type ← g.type
  let name ← identifier
  discard (expect Sign.colon)
  let iterable ← g.expr 0
  discard (expect Sign.rparen)
  let body ← g.stmt
  return .forEach modifiers type name iterable body (← spanFrom start)

/-- What a counting loop starts with: variables, or expressions. -/
def forInit (g : Rules) (declares : Bool) (modifiers : Modifiers) (start : Span) :
    Parser (List Stmt) := do
  if declares then return [← openLocalVar g modifiers start]
  else if ← check Sign.semicolon then return []
  else
    let es ← sepBy g.rounds Sign.comma (g.expr 0)
    return es.map fun e => .expr e e.span

/-- A counting loop, from its first part on. -/
def forLoop (g : Rules) (declares : Bool) (modifiers : Modifiers) (initStart start : Span) :
    Parser Stmt := do
  let init ← forInit g declares modifiers initStart
  discard (expect Sign.semicolon)
  let e ← if ← check Sign.semicolon then pure none else some <$> g.expr 0
  discard (expect Sign.semicolon)
  let updates ← if ← check Sign.rparen then pure [] else sepBy g.rounds Sign.comma (g.expr 0)
  discard (expect Sign.rparen)
  let body ← g.stmt
  return .forLoop init e updates body (← spanFrom start)

/-- A `for` of either form. -/
def forStmt (g : Rules) : Parser Stmt := do
  let start := (← expect Keyword.kwFor).span
  discard (expect Sign.lparen)
  let initStart := (← peek).span
  let modifiers ← modifiers g
  let ts := (← get).ahead
  let declares := !modifiers.flags.isEmpty || !modifiers.annots.isEmpty || Lookahead.isVarDecl ts
  if declares && Lookahead.isElementLoop ts then forEach g modifiers start
  else forLoop g declares modifiers initStart start

/-- A resource of a `try`: a variable, or an expression. -/
def resource (g : Rules) : Parser Stmt := do
  let start := (← peek).span
  let modifiers ← modifiers g
  if !modifiers.flags.isEmpty || Lookahead.isVarDecl (← get).ahead then
    openLocalVar g modifiers start
  else
    let e ← g.expr 0
    return .expr e e.span

/-- A handler, if one follows. -/
def catchClause? (g : Rules) : Parser (Option CatchClause) := do
  match ← eat? Keyword.kwCatch with
  | none => return none
  | some t =>
    discard (expect Sign.lparen)
    let modifiers ← modifiers g
    let types ← sepBy g.rounds Sign.pipe g.type
    let name ← identifier
    discard (expect Sign.rparen)
    let body ← g.block
    return some ⟨modifiers, types, name, body, ← spanFrom t.span⟩

/-- A `try`, which must have a resource, a handler or a final block. -/
def tryStmt (g : Rules) : Parser Stmt := do
  let start := (← expect Keyword.kwTry).span
  let resources ←
    if ← eat Sign.lparen then
      let rs ← sepUntil g.rounds Sign.semicolon Sign.rparen (resource g)
      discard (expect Sign.rparen)
      pure rs
    else pure []
  let body ← g.block
  let catches ← collect g.rounds (catchClause? g)
  let finish ← if ← eat Keyword.kwFinally then some <$> g.block else pure none
  if catches.isEmpty && finish.isNone && resources.isEmpty then
    rejectNext (.expectedToken "'catch' or 'finally'")
  else return .tryCatch resources body catches finish (← spanFrom start)

/-- A `try` behind its resources. -/
def tryRest (g : Rules) (start : Span) (resources : List Stmt) : Parser Stmt := do
  let body ← g.block
  let catches ← collect g.rounds (catchClause? g)
  let finish ← if ← eat Keyword.kwFinally then some <$> g.block else pure none
  if catches.isEmpty && finish.isNone && resources.isEmpty then
    rejectNext (.expectedToken "'catch' or 'finally'")
  else return .tryCatch resources body catches finish (← spanFrom start)

/-- With resources or without, a `try` ends in the same way. -/
theorem tryStmt_eq (g : Rules) : tryStmt g = (do
    let start ← expect Keyword.kwTry
    if ← eat Sign.lparen then
      let resources ← sepUntil g.rounds Sign.semicolon Sign.rparen (resource g)
      discard (expect Sign.rparen)
      tryRest g start.span resources
    else tryRest g start.span []) := rfl

/-- A label of a `switch` group. A name before an arrow is no lambda. -/
def caseLabel (g : Rules) : Parser Expr := do
  let following := ((← get).nth 1).kind
  if (← get).next.kind = .identifier ∧
      (following = Sign.arrow ∨ following = Sign.comma ∨ following = Sign.colon) then
    return .name (← identifier)
  else g.expr (Power.conditional + 1)

/-- The labels of a group; `default` has none. -/
def caseLabels (g : Rules) : Parser (List Expr) := do
  if ← eat Keyword.kwDefault then return []
  else
    discard (expect Keyword.kwCase)
    sepBy g.rounds Sign.comma (caseLabel g)

/-- Whether the statements of a group go on. -/
def caseGoesOn : Parser Bool := do
  let kind ← kindAt 0
  return kind ≠ Keyword.kwCase && kind ≠ Keyword.kwDefault && kind ≠ Sign.rbrace &&
    kind ≠ .endOfSource

/-- A group of a `switch`: one statement behind an arrow, or any number behind a colon. -/
def switchCase (g : Rules) : Parser SwitchCase := do
  let start := (← peek).span
  let labels ← caseLabels g
  let body ←
    if ← eat Sign.arrow then pure [← g.stmt]
    else
      discard (expect Sign.colon)
      collectWhile g.rounds caseGoesOn (recovering (some <$> g.stmt))
  return ⟨labels, body, ← spanFrom start⟩

/-- A `switch`. -/
def switch (g : Rules) : Parser Stmt := do
  let start := (← expect Keyword.kwSwitch).span
  let selector ← condition g
  discard (expect Sign.lbrace)
  let cases ← collectWhile g.rounds (before Sign.rbrace) (some <$> switchCase g)
  discard (expect Sign.rbrace)
  return .switch selector cases (← spanFrom start)

/-- A `synchronized` statement. -/
def synchronizedStmt (g : Rules) : Parser Stmt := do
  let start := (← expect Keyword.kwSynchronized).span
  let lock ← condition g
  let body ← g.block
  return .synchronized lock body (← spanFrom start)

/-- A statement behind a label. -/
def labeled (g : Rules) : Parser Stmt := do
  let label ← identifier
  discard (expect Sign.colon)
  let body ← g.stmt
  return .labeled label body (← spanFrom label.span)

/-! ### All statements -/

/-- A declaration of variables without modifiers, or an expression. -/
def varOrExpr (g : Rules) : Parser Stmt := do
  let s ← get
  if Lookahead.isVarDecl s.ahead then localVar g .absent s.next.span else exprStmt g

/-- A statement that starts with a keyword. -/
def wordStmt (g : Rules) (word : Keyword) : Parser Stmt := do
  match word with
  | .kwIf => ifStmt g
  | .kwWhile => whileStmt g
  | .kwDo => doStmt g
  | .kwFor => forStmt g
  | .kwReturn => returning g
  | .kwBreak => jump .breakTo
  | .kwContinue => jump .continueTo
  | .kwThrow => throwing g
  | .kwTry => tryStmt g
  | .kwSwitch => switch g
  | .kwSynchronized => if ← checkNth 1 Sign.lparen then synchronizedStmt g else varOrExpr g
  | .kwAssert => assertion g
  | .kwClass | .kwInterface | .kwEnum | .kwFinal | .kwAbstract | .kwStatic | .kwStrictfp =>
    declaration g
  | _ => varOrExpr g

/-- **A statement.** -/
def stmt (g : Rules) : Parser Stmt := do
  match (← peek).kind with
  | .sign .lbrace => return .block (← g.block)
  | .sign .semicolon => return .empty (← advance).span
  | .sign .atSign => declaration g
  | .identifier => if ← checkNth 1 Sign.colon then labeled g else varOrExpr g
  | .keyword word => wordStmt g word
  | _ => varOrExpr g

end JavaGraft.Grammar

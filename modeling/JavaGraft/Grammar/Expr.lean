import JavaGraft.Grammar.Type
import JavaGraft.Literal.Decode

/-!
# Parsing expressions

An expression is an operand followed by operators, as long as these bind tightly enough: the rule
`expr` is given the least binding power it may take, and reads the right operand of an operator
with that operator's right power. What follows an operand directly, such as a member access, binds
tightest; the branches of a conditional and the value of an assignment group to the right.

Type arguments of calls and constructors are read and dropped. An `Outer.this` becomes a plain
`this` over the whole span.
-/

namespace JavaGraft.Grammar

open JavaGraft.Parser

/-! ### Parts of operands -/

/-- Arguments in parentheses. -/
def arguments (g : Rules) : Parser (List Expr) := do
  discard (expect Sign.lparen)
  let args ← if ← check Sign.rparen then pure [] else sepBy g.rounds Sign.comma (g.expr 0)
  discard (expect Sign.rparen)
  return args

/-- The call of a callee, whose arguments follow. -/
def callOf (g : Rules) (callee : Expr) (start : Span) : Parser Expr := do
  let args ← arguments g
  let id ← freshCall
  return .call id callee args (← spanFrom start)

/-- A callee, called if arguments follow. -/
def callIfArgs (g : Rules) (callee : Expr) (start : Span) : Parser Expr := do
  if ← check Sign.lparen then callOf g callee start else return callee

/-- Elements in braces, and the span of the braces. -/
def braces (g : Rules) : Parser (List Expr × Span) := do
  let first ← expect Sign.lbrace
  let elements ← sepUntil g.rounds Sign.comma Sign.rbrace (g.expr 0)
  let last ← expect Sign.rbrace
  return (elements, first.span.merge last.span)

/-- Elements in braces as an expression. -/
def arrayInit (g : Rules) : Parser Expr := do
  let (elements, span) ← braces g
  return .arrayInit elements span

/-- A chain of names as a type with brackets. -/
def chainType? (e : Expr) (dims : Nat) : Option TypeExpr :=
  e.chain?.map fun names => ⟨.named ⟨names, e.span⟩, [], dims, e.span⟩

/-! ### What follows an operand directly -/

/-- A point and what follows it: `class`, `this`, or the name of a field or method. -/
def memberAccess (g : Rules) (target : Expr) : Parser Expr := do
  let dot ← expect Sign.dot
  let start := target.span
  if ← eat Keyword.kwClass then
    match chainType? target 0 with
    | none => reject .notATypeName dot.span
    | some t => return .classLit t (← spanFrom start)
  else if ← eat Keyword.kwThis then return .this (← spanFrom start)
  else
    discard (typeArgs? g)
    let name ← identifier
    callIfArgs g (.field target name (start.merge name.span)) start

/-- An index in brackets, or empty brackets before `.class`. -/
def indexing (g : Rules) (target : Expr) : Parser Expr := do
  if ← checkNth 1 Sign.rbracket then
    let n ← dims
    discard (expect Sign.dot)
    let word ← expect Keyword.kwClass
    match chainType? target n with
    | none => reject .notATypeName word.span
    | some t => return .classLit t (← spanFrom target.span)
  else
    discard (expect Sign.lbracket)
    let index ← g.expr 0
    let close ← expect Sign.rbracket
    return .index target index (target.span.merge close.span)

/-- Two colons and a method name, or `new`. -/
def methodRef (target : Expr) : Parser Expr := do
  discard (expect Sign.colonColon)
  let t ← peek
  if t.kind = .identifier ∨ t.kind = Keyword.kwNew then
    discard advance
    return .methodRef target ⟨t.text, t.span⟩ (target.span.merge t.span)
  else rejectNext .expectedIdentifier

/-! ### Operands -/

/-- Brackets behind the type of a new array: how many, and the lengths in the leading ones. -/
def arrayDims (g : Rules) : Parser (Nat × List Expr) :=
  iterate (fun (found : Nat × List Expr) => do
    let (n, lengths) := found
    if !(← check Sign.lbracket) then return .inr (n, lengths.reverse)
    else if ← checkNth 1 Sign.rbracket then
      discard advance
      discard advance
      return .inl (n + 1, lengths)
    else if n = lengths.length then
      discard advance
      let length ← g.expr 0
      discard (expect Sign.rbracket)
      return .inl (n + 1, length :: lengths)
    else return .inr (n, lengths.reverse)) g.rounds (0, [])

/-- A new array or object; an object may have a class body of its own. -/
def creation (g : Rules) : Parser Expr := do
  let start := (← expect Keyword.kwNew).span
  discard (typeArgs? g)
  let plain ← plainType g
  if ← check Sign.lbracket then
    let (n, lengths) ← arrayDims g
    let type := { plain with dims := n }
    if ← check Sign.lbrace then
      let (elements, inner) ← braces g
      return .newArrayOf type lengths elements inner (← spanFrom start)
    else return .newArray type lengths (← spanFrom start)
  else
    let args ← arguments g
    if ← check Sign.lbrace then
      let body ← g.classBody ""
      return .newAnonymous plain args body (← spanFrom start)
    else return .new plain args (← spanFrom start)

/-- A type in parentheses and an operand. -/
def cast (g : Rules) : Parser Expr := do
  let first ← expect Sign.lparen
  let type ← g.type
  discard (expect Sign.rparen)
  let operand ← g.expr Power.unary
  return .cast type operand (first.span.merge operand.span)

/-- A parameter of a lambda in parentheses; its type is left out if a comma or the closing
parenthesis follows the name. -/
def lambdaParam (g : Rules) : Parser LambdaParam := do
  discard (eat Keyword.kwFinal)
  let following := ((← get).nth 1).kind
  let bare := (← get).next.kind = .identifier ∧ (following = Sign.comma ∨ following = Sign.rparen)
  let type ← if bare then pure none else some <$> g.type
  return ⟨type, ← identifier⟩

/-- The parameters of a lambda. -/
def lambdaParams (g : Rules) : Parser (List LambdaParam) := do
  if ← check .identifier then return [⟨none, ← identifier⟩]
  else
    discard (expect Sign.lparen)
    let params ← sepUntil g.rounds Sign.comma Sign.rparen (lambdaParam g)
    discard (expect Sign.rparen)
    return params

/-- A lambda. -/
def lambda (g : Rules) : Parser Expr := do
  let start := (← peek).span
  let params ← lambdaParams g
  discard (expect Sign.arrow)
  if ← check Sign.lbrace then
    let body ← g.block
    return .blockLambda params body (← spanFrom start)
  else
    let body ← g.expr 0
    return .lambda params body (← spanFrom start)

/-- An expression in parentheses. -/
def parenthesized (g : Rules) : Parser Expr := do
  let first ← expect Sign.lparen
  let inner ← g.expr 0
  let last ← expect Sign.rparen
  return .paren inner (first.span.merge last.span)

/-- The class literal of a primitive type or of an array of such. -/
def primitiveClass (g : Rules) : Parser Expr := do
  let start := (← peek).span
  let type ← g.type
  discard (expect Sign.dot)
  discard (expect Keyword.kwClass)
  return .classLit type (← spanFrom start)

/-- A literal of a kind; a faulty one is consumed all the same. -/
def literal (kind : LiteralKind) : Parser Expr := do
  let t ← advance
  match Literal.ofText kind t.text.toList with
  | .ok value => return .literal value t.span
  | .error fault => reject (.badLiteral fault t.text) t.span

/-- A keyword that starts an operand. -/
def wordOperand (g : Rules) (word : Keyword) : Parser Expr := do
  match Literal.ofKeyword? word, word with
  | some value, _ => return .literal value (← advance).span
  | none, .kwThis =>
    let t ← advance
    callIfArgs g (.this t.span) t.span
  | none, .kwSuper =>
    let t ← advance
    callIfArgs g (.super t.span) t.span
  | none, .kwNew => creation g
  | none, _ =>
    if word.isPrimitive then primitiveClass g else rejectNext .expectedExpression

/-- A sign that starts an operand. -/
def signOperand (g : Rules) (sign : Sign) : Parser Expr := do
  match UnaryOp.ofSign? sign, sign with
  | some op, _ =>
    let t ← advance
    let operand ← g.expr Power.unary
    return .unary op operand (t.span.merge operand.span)
  | none, .lparen =>
    let ts := (← get).ahead
    if Lookahead.isLambda ts then lambda g
    else if Lookahead.isCast ts then cast g
    else parenthesized g
  | none, .lbrace => arrayInit g
  | none, _ => rejectNext .expectedExpression

/-- An operand, with the operators before it. -/
def operand (g : Rules) : Parser Expr := do
  let t ← peek
  match t.kind with
  | .literal kind => literal kind
  | .identifier =>
    if ← checkNth 1 Sign.arrow then lambda g
    else
      discard advance
      callIfArgs g (.name ⟨t.text, t.span⟩) t.span
  | .keyword word => wordOperand g word
  | .sign sign => signOperand g sign
  | .invalid => rejectNext .expectedExpression
  | .endOfSource => rejectNext fun _ => .endOfSource

/-! ### Operators -/

/-- The branches of a conditional. -/
def conditional (g : Rules) (condition : Expr) : Parser Expr := do
  discard (expect Sign.question)
  let yes ← g.expr (Power.conditional + 1)
  discard (expect Sign.colon)
  let no ← g.expr Power.conditional
  return .conditional condition yes no (condition.span.merge no.span)

/-- The type that a value is tested for, and the name it then has. -/
def typeTest (g : Rules) (value : Expr) : Parser Expr := do
  discard (expect Keyword.kwInstanceof)
  discard (eat Keyword.kwFinal)
  let type ← g.type
  let binding ← eat? .identifier
  return .instanceOf value type (binding.map fun t => ⟨t.text, t.span⟩) (← spanFrom value.span)

/-- What can follow an operand. -/
inductive Continuation where
  | update (op : UpdateOp)
  | member
  | index
  | methodRef
  | conditional
  | typeTest
  | assign (op : AssignOp)
  | binary (op : BinaryOp)

namespace Continuation

/-- The continuation that a sign starts. -/
def ofSign? (s : Sign) : Option Continuation :=
  match s with
  | .dot => some member
  | .lbracket => some index
  | .colonColon => some methodRef
  | .question => some conditional
  | _ =>
    match UpdateOp.ofSign? s, AssignOp.ofSign? s, BinaryOp.ofSign? s with
    | some op, _, _ => some (update op)
    | none, some op, _ => some (assign op)
    | none, none, some op => some (binary op)
    | none, none, none => none

/-- The continuation that a token starts. -/
def ofKind? : TokenKind → Option Continuation
  | .sign s => ofSign? s
  | .keyword .kwInstanceof => some typeTest
  | _ => none

/-- The binding power of a continuation towards the operand before it. -/
def power : Continuation → Nat
  | update _ | member | index | methodRef => Power.access
  | conditional => Power.conditional
  | typeTest => Power.instanceOf
  | assign _ => Power.assignment
  | binary op => op.leftPower

/-- Reads a continuation behind an operand. -/
def parse (g : Rules) (left : Expr) : Continuation → Parser Expr
  | update op => do
    let t ← advance
    return .update left op (left.span.merge t.span)
  | member => memberAccess g left
  | index => indexing g left
  | methodRef => Grammar.methodRef left
  | conditional => Grammar.conditional g left
  | typeTest => Grammar.typeTest g left
  | assign op => do
    discard advance
    let value ← g.expr Power.assignment
    return .assign left op value (left.span.merge value.span)
  | binary op => do
    discard advance
    let right ← g.expr op.rightPower
    return .binary left op right (left.span.merge right.span)

end Continuation

/-- Operators behind an operand, as long as they bind at least as tightly as `power`. -/
def operators (g : Rules) (power : Nat) : Expr → Parser Expr :=
  iterate (fun left : Expr => do
    match Continuation.ofKind? (← peek).kind with
    | some c => if power ≤ c.power then return .inl (← c.parse g left) else return .inr left
    | none => return .inr left) g.rounds

/-- **An expression** whose operators bind at least as tightly as `power`. -/
def expr (g : Rules) (power : Nat) : Parser Expr := do
  let first ← operand g
  operators g power first

end JavaGraft.Grammar

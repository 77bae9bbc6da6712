import JavaGraft.Grammar.Parser

/-!
# Looking ahead

Some forms cannot be told apart by their first token: a declaration from an expression, a cast or a
lambda from parentheses. They are decided by skipping over the tokens of a type or of parentheses
without consuming anything. Each skipper returns the tokens behind what it skipped, or nothing if
the tokens do not have that shape.

Type arguments are skipped by counting angles, so that `>>` closes two lists.
-/

namespace JavaGraft.Lookahead

/-- Whether the tokens start with one of a kind. -/
def startsWith (kind : TokenKind) (ts : List Token) : Bool := ts.head?.any fun t => t.kind = kind

/-- How a token within type arguments changes the number of open lists. -/
def angleChange? (kind : TokenKind) : Option Int :=
  match kind with
  | .sign .less => some 1
  | .sign .greater => some (-1)
  | .sign .shr => some (-2)
  | .sign .ushr => some (-3)
  | .identifier | .sign .comma | .sign .dot | .sign .question | .keyword .kwExtends
  | .keyword .kwSuper | .sign .lbracket | .sign .rbracket | .sign .amp => some 0
  | _ => if kind.isPrimitive then some 0 else none

/-- Skips type arguments of which `depth` lists are open, up to the end of the outermost one. -/
def skipTypeArgs (depth : Int) : List Token → Option (List Token)
  | [] => none
  | t :: ts =>
    match angleChange? t.kind with
    | none => none
    | some change =>
      if 0 < depth + change then skipTypeArgs (depth + change) ts
      else if depth + change = 0 then some ts
      else none

/-- Skips what follows the first segment of a named type: type arguments, and further segments. -/
def skipSegments : Nat → List Token → Option (List Token)
  | 0, _ => none
  | n + 1, ts => do
    let ts ← if startsWith Sign.less ts then skipTypeArgs 0 ts else some ts
    match ts with
    | dot :: name :: rest =>
      if dot.kind = Sign.dot ∧ name.kind = .identifier then skipSegments n rest else some ts
    | _ => some ts

/-- Skips pairs of brackets. -/
def skipDims : List Token → List Token
  | first :: second :: rest =>
    if first.kind = Sign.lbracket ∧ second.kind = Sign.rbracket then skipDims rest
    else first :: second :: rest
  | rest => rest

/-- Skips parentheses of which `depth` are open. -/
def skipParens (depth : Nat) : List Token → Option (List Token)
  | [] => none
  | t :: ts =>
    if t.kind = Sign.lparen then skipParens (depth + 1) ts
    else if t.kind = Sign.rparen then
      if depth ≤ 1 then some ts else skipParens (depth - 1) ts
    else skipParens depth ts

/-- Skips the further segments of a dotted name. -/
def skipPathTail : List Token → List Token
  | dot :: name :: rest =>
    if dot.kind = Sign.dot ∧ name.kind = .identifier then skipPathTail rest
    else dot :: name :: rest
  | rest => rest

/-- Skips one annotation. -/
def skipAnnot (ts : List Token) : Option (List Token) :=
  match ts with
  | mark :: name :: rest =>
    if mark.kind = Sign.atSign ∧ name.kind = .identifier then
      let rest := skipPathTail rest
      if startsWith Sign.lparen rest then skipParens 0 rest else some rest
    else none
  | _ => none

/-- Skips the annotations before a type. -/
def skipAnnots : Nat → List Token → Option (List Token)
  | 0, _ => none
  | n + 1, ts =>
    if startsWith Sign.atSign ts then (skipAnnot ts).bind (skipAnnots n) else some ts

/-- **Skips a type.** -/
def skipType (ts : List Token) : Option (List Token) := do
  match ← skipAnnots (ts.length + 1) ts with
  | [] => none
  | t :: rest =>
    if t.kind.isPrimitive then some (skipDims rest)
    else if t.kind = .identifier then (skipSegments (rest.length + 1) rest).map skipDims
    else none

/-- Whether a type can start with the next token. -/
def isTypeStart (ts : List Token) : Bool :=
  ts.head?.any fun t => t.kind.isPrimitive || t.kind = .identifier

/-- Whether a type and a name follow, as in a declaration. -/
def isVarDecl (ts : List Token) : Bool :=
  isTypeStart ts && (skipType ts).any (startsWith .identifier)

/-- Whether a type, any token and a colon follow, as in a loop over elements. -/
def isElementLoop (ts : List Token) : Bool :=
  (skipType ts).any fun rest => startsWith Sign.colon (rest.drop 1)

/-- The tokens behind the parenthesis that closes the first one, unless a brace or a semicolon
comes before it. -/
def afterParens (depth : Nat) : List Token → Option (List Token)
  | [] => none
  | t :: ts =>
    if t.kind = Sign.lparen then afterParens (depth + 1) ts
    else if t.kind = Sign.rparen then
      if depth ≤ 1 then some ts else afterParens (depth - 1) ts
    else if t.kind = Sign.lbrace ∨ t.kind = Sign.semicolon then none
    else afterParens depth ts

/-- Whether the parameters of a lambda follow, in parentheses. -/
def isLambda (ts : List Token) : Bool := (afterParens 0 ts).any (startsWith Sign.arrow)

/-- A token that an operand of a cast to a class can start with. -/
def startsCastOperand (kind : TokenKind) : Bool :=
  match kind with
  | .identifier | .sign .lparen | .sign .bang | .sign .tilde | .keyword .kwThis
  | .keyword .kwSuper | .keyword .kwNew => true
  | _ => kind.isLiteral || kind.isPrimitive

/-- Whether a cast follows: a type in parentheses, and an operand unless the type starts with a
primitive one. -/
def isCast (ts : List Token) : Bool :=
  let inner := ts.drop 1
  match skipType inner with
  | some (close :: rest) =>
    close.kind = Sign.rparen &&
      ((inner.head?.any fun t => t.kind.isPrimitive) ||
        rest.head?.any fun t => startsCastOperand t.kind)
  | _ => false

end JavaGraft.Lookahead

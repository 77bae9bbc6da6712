import JavaGraft.Ast.Tree
import JavaGraft.Grammar.Fault
import JavaGraft.Token.Lexer

/-!
# Parsers

A parser works on a `ParserState`: the tokens before and after the place that has been reached, the
errors recorded so far and the number of the next call. It never goes back; a parser that fails
leaves the state where the failure was noticed, and recovery continues from there.

There are two ways to fail. A parser *rejects* the source with a `ParseError`; that is the failure
that recovery catches. A parser is *exhausted* when the bound on its depth or on the rounds of a
loop is used up. The bounds are chosen in `JavaGraft.Grammar.Knot` so that no source exhausts
them.

The tokens `>>` and `>>>` close several lists of type arguments at once: `closeAngle` takes one
angle off such a token and leaves the rest of it as the next token.
-/

namespace JavaGraft

/-! ### States -/

/-- The place that a parser has reached. -/
structure ParserState where
  /-- The tokens before the place, the last one first. -/
  consumed : List Token
  /-- The tokens behind the place. -/
  ahead : List Token
  /-- The end of the source, which follows the last token. -/
  finish : Token
  /-- The errors recorded so far, in order. -/
  errors : List ParseError
  /-- The number that the next call receives. -/
  nextCall : Nat
deriving Repr

namespace ParserState

/-- The state before the first token of a source, with the lexical errors recorded. -/
def ofSource (source : List Char) (firstCall : Nat) : ParserState :=
  let read := tokenize source
  ⟨[], read.tokens.filter (·.kind ≠ .invalid), read.finish, read.errors.map .ofLexError, firstCall⟩

/-- The token that comes `n` places after the next one; behind the last one the source ends. -/
def nth (s : ParserState) (n : Nat) : Token := s.ahead.getD n s.finish

/-- The next token. -/
def next (s : ParserState) : Token := s.nth 0

/-- The last token consumed; before the first one it is the next token. -/
def previous (s : ParserState) : Token := s.consumed.headD s.next

/-- All tokens, those before the place and those behind it. -/
def tokens (s : ParserState) : List Token := s.consumed.reverse ++ s.ahead

/-- The state behind the next token; at the end it stays. -/
def advance (s : ParserState) : ParserState :=
  match s.ahead with
  | [] => s
  | t :: ts => { s with consumed := t :: s.consumed, ahead := ts }

end ParserState

/-- The number of times a token can be taken from: once for each angle, and once otherwise. -/
def Token.weight (t : Token) : Nat :=
  match t.kind with
  | .sign .shr => 2
  | .sign .ushr => 3
  | _ => 1

/-- The number of times something can be taken from tokens. -/
def Token.totalWeight : List Token → Nat
  | [] => 0
  | t :: ts => t.weight + Token.totalWeight ts

/-- The number of times something can be taken from the tokens behind a place. -/
def ParserState.remaining (s : ParserState) : Nat := Token.totalWeight s.ahead

/-! ### Failure -/

/-- How a parser fails. -/
inductive Failure where
  | rejected (error : ParseError)
  | exhausted
deriving Repr

/-- A parser of values of a type. -/
abbrev Parser := EStateM Failure ParserState

instance : Coe Sign TokenKind := ⟨.sign⟩

instance : Coe Keyword TokenKind := ⟨.keyword⟩

namespace Parser

variable {α β γ : Type}

/-- Rejects the source at a place. -/
def reject (fault : ParseFault) (span : Span) : Parser α := throw (.rejected ⟨fault, span⟩)

/-- Rejects the next token. -/
def rejectNext (fault : TokenKind → ParseFault) : Parser α := do
  let t := (← get).next
  reject (fault t.kind) t.span

/-! ### Tokens -/

/-- The next token. -/
def peek : Parser Token := return (← get).next

/-- The kind of the token that comes `n` places after the next one. -/
def kindAt (n : Nat) : Parser TokenKind := return ((← get).nth n).kind

/-- Whether the next token is of a kind. -/
def check (kind : TokenKind) : Parser Bool := return (← get).next.kind = kind

/-- Whether the token that comes `n` places after the next one is of a kind. -/
def checkNth (n : Nat) (kind : TokenKind) : Parser Bool := return ((← get).nth n).kind = kind

/-- Whether the source ends here. -/
def atEnd : Parser Bool := check .endOfSource

/-- Takes the next token. -/
def advance : Parser Token := modifyGet fun s => (s.next, s.advance)

/-- Takes the next token if it is of a kind. -/
def eat? (kind : TokenKind) : Parser (Option Token) := do
  if ← check kind then return some (← advance) else return none

/-- Takes the next token if it is of a kind, and tells whether it was. -/
def eat (kind : TokenKind) : Parser Bool := return (← eat? kind).isSome

/-- Takes the next token, which must be of a kind. -/
def expect (kind : TokenKind) : Parser Token := do
  if ← check kind then advance
  else if ← atEnd then rejectNext fun _ => .endOfSource
  else rejectNext (.expectedToken kind.description)

/-- Takes an identifier. -/
def identifier : Parser Ident := do
  let t ← expect .identifier
  return ⟨t.text, t.span⟩

/-- The span from `start` to the end of the last token consumed. -/
def spanFrom (start : Span) : Parser Span := return start.merge (← get).previous.span

/-- What a token of angles is without its first one; `none` if nothing is left. -/
def dropAngle? (kind : TokenKind) : Option (Option TokenKind) :=
  match kind with
  | .sign .greater => some none
  | .sign .shr => some (some Sign.greater)
  | .sign .ushr => some (some Sign.shr)
  | _ => none

/-- Takes one closing angle. -/
def closeAngle : Parser Unit := do
  let t ← peek
  match dropAngle? t.kind with
  | none => reject (.expectedToken "'>'" t.kind) t.span
  | some none => discard advance
  | some (some rest) =>
    let left : Token := ⟨rest, String.ofList (t.text.toList.drop 1), t.span.dropByte⟩
    modify fun s => { s with ahead := left :: s.ahead.drop 1 }

/-- Takes pairs of brackets, and tells how many there were. -/
def dims : Parser Nat := modifyGet fun s => count s 0 s.consumed s.ahead
where
  /-- The pairs of brackets that the tokens start with, `n` of them being taken already. -/
  count (s : ParserState) (n : Nat) (consumed : List Token) : List Token → Nat × ParserState
    | opening :: close :: rest =>
      if opening.kind = Sign.lbracket ∧ close.kind = Sign.rbracket then
        count s (n + 1) (close :: opening :: consumed) rest
      else (min n DataType.maxDims, { s with consumed, ahead := opening :: close :: rest })
    | rest => (min n DataType.maxDims, { s with consumed, ahead := rest })

/-- Takes the number of the next call. -/
def freshCall : Parser Nat := modifyGet fun s => (s.nextCall, { s with nextCall := s.nextCall + 1 })

/-! ### Recovery -/

/-- Records an error without failing. -/
def record (e : ParseError) : Parser Unit :=
  modify fun s => { s with errors := s.errors ++ [e] }

/-- A keyword before which a statement, a member or a type is likely to start. -/
def isBoundary : TokenKind → Bool
  | .keyword w =>
    match w with
    | .kwClass | .kwInterface | .kwEnum | .kwIf | .kwWhile | .kwFor | .kwDo | .kwReturn | .kwBreak
    | .kwContinue | .kwThrow | .kwSwitch | .kwTry | .kwPublic | .kwPrivate | .kwProtected
    | .kwStatic => true
    | _ => false
  | _ => false

/-- Skips tokens up to where a statement or member is likely to start: behind a semicolon, before a
boundary keyword, or before a closing brace. Unless the source ends at once, at least one token is
skipped, be it the closing brace itself. -/
def synchronize : Parser Unit := modify fun s => skip s true s.consumed s.ahead
where
  /-- The state after skipping; `first` tells that nothing has been skipped so far. -/
  skip (s : ParserState) (first : Bool) (consumed : List Token) : List Token → ParserState
    | [] => { s with consumed, ahead := [] }
    | t :: ts =>
      if first then
        if t.kind = Sign.rbrace then { s with consumed := t :: consumed, ahead := ts }
        else skip s false (t :: consumed) ts
      else if (consumed.head?.any fun p => p.kind = .sign .semicolon) || isBoundary t.kind
          || t.kind = Sign.rbrace then
        { s with consumed, ahead := t :: ts }
      else skip s false (t :: consumed) ts

/-- Runs a parser; if it rejects the source, the error is recorded, tokens are skipped, and there
is no result. -/
def recovering (p : Parser (Option α)) : Parser (Option α) :=
  tryCatch p fun
    | .rejected e => do
      record e
      synchronize
      return none
    | .exhausted => throw .exhausted

/-! ### Repetition -/

/-- Goes from one value to the next until a result is reached, in at most `rounds` rounds. -/
def iterate (step : β → Parser (β ⊕ γ)) : (rounds : Nat) → β → Parser γ
  | 0, _ => throw .exhausted
  | rounds + 1, b => do
    match ← step b with
    | .inl b => iterate step rounds b
    | .inr c => return c

/-- Collects results until there is none. -/
def collect (rounds : Nat) (item : Parser (Option α)) : Parser (List α) :=
  iterate (fun found : List α => do
    match ← item with
    | some a => return .inl (a :: found)
    | none => return .inr found.reverse) rounds []

/-- Collects results as long as the next token allows it; an item may be empty. -/
def collectWhile (rounds : Nat) (more : Parser Bool) (item : Parser (Option α)) :
    Parser (List α) :=
  iterate (fun found : List α => do
    if ← more then
      match ← item with
      | some a => return .inl (a :: found)
      | none => return .inl found
    else return .inr found.reverse) rounds []

/-- One or more items with a separator between them. -/
def sepBy (rounds : Nat) (separator : TokenKind) (item : Parser α) : Parser (List α) :=
  iterate (fun found : List α => do
    let a ← item
    if ← eat separator then return .inl (a :: found)
    else return .inr (a :: found).reverse) rounds []

/-- Whether the next token is neither of a kind nor the end of the source. -/
def before (close : TokenKind) : Parser Bool := do
  let kind ← kindAt 0
  return kind ≠ close && kind ≠ .endOfSource

/-- Any number of items with a separator between them, up to a closing token; the last item may be
followed by a separator as well. -/
def sepUntil (rounds : Nat) (separator close : TokenKind) (item : Parser α) : Parser (List α) :=
  iterate (fun found : List α => do
    if ← before close then
      let a ← item
      if ← eat separator then return .inl (a :: found)
      else return .inr (a :: found).reverse
    else return .inr found.reverse) rounds []

end Parser

end JavaGraft

import JavaGraft.Text.Cursor
import JavaGraft.Token.Scan

/-!
# From a text to its tokens

`Lexer.read` reads one token at a cursor, skipping margins and comments before it; a faulty piece
becomes a token of the kind `invalid` together with an error over the same span. `Lexer` is a
stream of tokens with lookahead on top of it: peeking reads ahead into a queue, and taking a token
empties the queue first. `tokenize` reads a whole text at once.
-/

namespace JavaGraft

/-- A token: its kind, its text and its place. Invalid tokens and the end of the source carry no
text. -/
structure Token where
  kind : TokenKind
  text : String
  span : Span
deriving DecidableEq, Repr

namespace Lexer

/-! ### One token -/

/-- A token, the error it stands for if it is invalid, and the place behind it. -/
structure Reading where
  token : Token
  error : Option LexError
  next : Cursor

/-- The piece at a cursor as a token. -/
def readPiece (c : Cursor) (p : Scan.Piece) : Reading :=
  let next := c.past p.text p.rest
  let span := Span.between c.position next.position
  match p.verdict with
  | .ok kind => ⟨⟨kind, String.ofList p.text, span⟩, none, next⟩
  | .error fault => ⟨⟨.invalid, "", span⟩, some ⟨fault, span⟩, next⟩

/-- The end of the source at a cursor, as a token. -/
def readEnd (c : Cursor) : Reading := ⟨⟨.endOfSource, "", .point c.position⟩, none, c⟩

/-- The next token, skipping at most `n` comments. -/
def readWithin : Nat → Cursor → Reading
  | 0, c => readEnd c
  | n + 1, c =>
    let (blank, rest) := Scan.margin c.rest
    let c := c.past blank rest
    match Scan.front c.rest with
    | .finished => readEnd c
    | .comment text rest => readWithin n (c.past text rest)
    | .piece p => readPiece c p

/-- **The next token.** A comment has at least two characters, so there are fewer comments than
characters. -/
def read (c : Cursor) : Reading := readWithin (c.rest.length + 1) c

end Lexer

/-! ### A stream with lookahead -/

/-- A stream of tokens: the place behind the last token read, the tokens read but not yet taken,
and the errors not yet fetched, both in order. -/
structure Lexer where
  place : Cursor
  queue : List Token
  errors : List LexError
deriving Repr

namespace Lexer

/-- The stream of the tokens of a text. -/
def ofText (cs : List Char) : Lexer := ⟨.ofText cs, [], []⟩

/-- Reads one token behind all that was read so far. -/
def advance (l : Lexer) : Token × Lexer :=
  let r := read l.place
  (r.token, { l with place := r.next, errors := l.errors ++ r.error.toList })

/-- Takes the next token. -/
def next (l : Lexer) : Token × Lexer :=
  match l.queue with
  | t :: ts => (t, { l with queue := ts })
  | [] => l.advance

/-- Reads `n` more tokens into the queue. -/
def fill : Nat → Lexer → Lexer
  | 0, l => l
  | n + 1, l =>
    let (t, l) := l.advance
    fill n { l with queue := l.queue ++ [t] }

/-- Shows the token that comes `n` places after the next one, without taking any. -/
def peekNth (l : Lexer) (n : Nat) : Option Token × Lexer :=
  let l := fill (n + 1 - l.queue.length) l
  (l.queue[n]?, l)

/-- Takes the next token, unless it is the end of the source. -/
def next? (l : Lexer) : Option Token × Lexer :=
  let (t, l) := l.next
  (if t.kind = .endOfSource then none else some t, l)

/-- Whether errors wait to be fetched. -/
def hasErrors (l : Lexer) : Bool := !l.errors.isEmpty

/-- Fetches the errors found since the last time. -/
def takeErrors (l : Lexer) : List LexError × Lexer := (l.errors, { l with errors := [] })

end Lexer

/-! ### A whole text -/

/-- The tokens of a text, invalid ones included, the end of the source, and the errors. -/
structure Tokens where
  tokens : List Token
  finish : Token
  errors : List LexError
deriving Repr

/-- The tokens behind a cursor, at most `n` of them. -/
def Tokens.readAll : Nat → Cursor → Tokens
  | 0, c => ⟨[], (Lexer.readEnd c).token, []⟩
  | n + 1, c =>
    let r := Lexer.read c
    if r.token.kind = .endOfSource then ⟨[], r.token, []⟩
    else
      let later := readAll n r.next
      ⟨r.token :: later.tokens, later.finish, r.error.toList ++ later.errors⟩

/-- **The tokens of a text.** Every token has at least one character, so the length of the text
bounds their number. -/
def tokenize (cs : List Char) : Tokens := Tokens.readAll (cs.length + 1) (.ofText cs)

end JavaGraft

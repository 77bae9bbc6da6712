import JavaGraft.Text.Span

/-!
# A place in a text, with the text still to be read

A `Cursor` holds what is left of a text and the position of its first character. Moving it over
characters keeps line and column in step with the offset.
-/

namespace JavaGraft

/-- The text still to be read, and where it starts. -/
structure Cursor where
  rest : List Char
  position : Position
deriving DecidableEq, Repr, Inhabited

namespace Cursor

/-- The cursor before the first character of a text. -/
def ofText (cs : List Char) : Cursor := ⟨cs, .start⟩

/-- Whether the whole text has been read. -/
def atEnd (c : Cursor) : Bool := c.rest.isEmpty

/-- The character that comes `n` places after the next one. -/
def peekNth? (c : Cursor) (n : Nat) : Option Char := c.rest[n]?

/-- The next character. -/
def peek? (c : Cursor) : Option Char := c.peekNth? 0

/-- Whether the rest starts with the given text. -/
def startsWith (c : Cursor) (text : List Char) : Bool := text.isPrefixOf c.rest

/-- The cursor behind `text`, which is followed by `rest`. -/
def past (c : Cursor) (text rest : List Char) : Cursor := ⟨rest, c.position.afterAll text⟩

/-- The cursor behind the next character; at the end it stays. -/
def advance (c : Cursor) : Cursor :=
  match c.rest with
  | [] => c
  | d :: ds => c.past [d] ds

/-- The cursor behind the next `n` bytes, rounded up to a whole character. -/
def advanceBytes (n : Nat) (c : Cursor) : Cursor :=
  go n c.position c.rest
where
  /-- The cursor behind the next `n` bytes of a text that starts at `p`. -/
  go (n : Nat) (p : Position) : List Char → Cursor
    | [] => ⟨[], p⟩
    | d :: ds => if n = 0 then ⟨d :: ds, p⟩ else go (n - d.utf8Size) (p.after d) ds

/-- The cursor behind the next character if that character is `d`. -/
def eat? (c : Cursor) (d : Char) : Option Cursor :=
  if c.peek? = some d then some c.advance else none

/-- The longest run of characters of a class, and the cursor behind it. -/
def eatWhile (c : Cursor) (p : Char → Bool) : List Char × Cursor :=
  let (text, rest) := c.rest.span p
  (text, c.past text rest)

end Cursor

end JavaGraft

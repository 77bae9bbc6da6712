/-!
# Places in a source text

A `Position` is where a character starts: its byte offset, its line and its column, lines and
columns counted from one and columns in bytes. A `Span` is a stretch of bytes together with the
position of its first one. Spans are merged to cover several tokens, and printed as `line:column`.

The bytes of a text are those of its UTF-8 encoding, so a character is as wide as
`Char.utf8Size` says. `splitAtByte?` cuts a text at a byte offset and refuses to cut through a
character.
-/

namespace JavaGraft

/-! ### Positions -/

/-- Where a character of a text starts. -/
structure Position where
  offset : Nat
  line : Nat
  column : Nat
deriving DecidableEq, Repr, Inhabited

namespace Position

/-- The position of the first character of a text. -/
def start : Position := ⟨0, 1, 1⟩

/-- The position after one character: only a line feed starts a new line. -/
def after (p : Position) (c : Char) : Position :=
  if c = '\n' then ⟨p.offset + c.utf8Size, p.line + 1, 1⟩
  else ⟨p.offset + c.utf8Size, p.line, p.column + c.utf8Size⟩

/-- The position after a run of characters. -/
def afterAll (p : Position) (cs : List Char) : Position :=
  cs.foldl after p

end Position

/-! ### Spans -/

/-- A stretch of bytes of a text, with the line and column of its first byte. -/
structure Span where
  offset : Nat
  length : Nat
  line : Nat
  column : Nat
deriving DecidableEq, Repr, Inhabited

namespace Span

/-- The span of something that was not written: all zeros. -/
def absent : Span := ⟨0, 0, 0, 0⟩

/-- The span between two positions of one text. -/
def between (first last : Position) : Span :=
  ⟨first.offset, last.offset - first.offset, first.line, first.column⟩

/-- The empty span at a position. -/
def point (p : Position) : Span := ⟨p.offset, 0, p.line, p.column⟩

/-- The empty span where `s` starts. -/
def atStart (s : Span) : Span := { s with length := 0 }

/-- The offset one past the last byte. -/
def stop (s : Span) : Nat := s.offset + s.length

/-- A span without bytes. -/
def isEmpty (s : Span) : Bool := s.length == 0

/-- The smallest span that covers both; it stands where the earlier one starts. -/
def merge (s t : Span) : Span :=
  let first := if s.offset ≤ t.offset then s else t
  { first with length := max s.stop t.stop - first.offset }

/-- The span without its first byte, which must not be a line feed. -/
def dropByte (s : Span) : Span := ⟨s.offset + 1, s.length - 1, s.line, s.column + 1⟩

/-- The printed form, `line:column`. -/
def text (s : Span) : String := s!"{s.line}:{s.column}"

end Span

/-! ### Cutting a text at a byte -/

/-- The number of bytes of a text. -/
def byteSize : List Char → Nat
  | [] => 0
  | c :: cs => c.utf8Size + byteSize cs

/-- The first `n` bytes of a text and the rest, if a character starts there or the text ends. -/
def splitAtByte? (n : Nat) : List Char → Option (List Char × List Char)
  | [] => if n = 0 then some ([], []) else none
  | c :: cs =>
    if n = 0 then some ([], c :: cs)
    else if c.utf8Size ≤ n then
      (splitAtByte? (n - c.utf8Size) cs).map fun parts => (c :: parts.1, parts.2)
    else none

/-- The text from one byte offset to another, if both are in range and between characters. -/
def textBetween? (source : List Char) (first stop : Nat) : Option (List Char) := do
  if stop < first then none
  else
    let (_, rest) ← splitAtByte? first source
    let (text, _) ← splitAtByte? (stop - first) rest
    return text

/-- The text that a span covers, if it lies within the source. -/
def Span.textIn? (s : Span) (source : List Char) : Option (List Char) :=
  textBetween? source s.offset s.stop

end JavaGraft

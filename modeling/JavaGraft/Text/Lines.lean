import JavaGraft.Text.CharClass

/-!
# Lines of a text, and trimming

A text is cut into lines behind each line feed. A carriage return directly before the line feed
belongs to the line end and is dropped with it; a text that ends with a line feed has no empty
line behind it.
-/

namespace JavaGraft.Lines

/-- A finished line without the carriage return at its end. -/
def dropReturn (line : List Char) : List Char :=
  if line.getLast? = some '\r' then line.dropLast else line

/-- The lines of a text. -/
def ofText (cs : List Char) : List (List Char) :=
  go [] cs
where
  /-- The lines of a text whose first line has been read as far as `seen`, last character first. -/
  go (seen : List Char) : List Char → List (List Char)
    | [] => if seen.isEmpty then [] else [seen.reverse]
    | c :: cs =>
      if c = '\n' then dropReturn seen.reverse :: go [] cs
      else go (c :: seen) cs

/-- Lines put one below the other, without a line feed behind the last one. -/
def unlines (lines : List (List Char)) : List Char := (lines.intersperse ['\n']).flatten

/-- The text without the blanks that it starts with. -/
def trimStart (cs : List Char) : List Char := cs.dropWhile CharClass.isBlank

/-- The text without the blanks that it ends with. -/
def trimEnd (cs : List Char) : List Char := (trimStart cs.reverse).reverse

/-- A text of blanks only. -/
def isBlank (cs : List Char) : Bool := cs.all CharClass.isBlank

end JavaGraft.Lines

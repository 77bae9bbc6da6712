import JavaGraft.Ast.Tree
import JavaGraft.Grammar.Fault
import JavaGraft.Literal.Escape
import JavaGraft.Literal.Rounding

/-!
# What literals denote

From the text of a literal to its value, or to the fault that makes it denote none. Underscores
between digits do not count. A whole number is decimal, or of the radix that its first characters
name; it must fit its width, where the least negative number may be written with its sign left
out, and a number of another radix may use all bits.
-/

namespace JavaGraft.Literal

open CharClass

/-! ### Whole numbers -/

/-- The text without underscores. -/
def dropSeparators (cs : List Char) : List Char := cs.filter (· ≠ '_')

/-- Whether a text starts with a zero and something behind it, so that it is not decimal. -/
def hasRadix (cs : List Char) : Bool :=
  match cs with
  | '0' :: _ :: _ => true
  | _ => false

/-- The number that a text without underscores spells in the radix that it names. -/
def wholeNumber? (cs : List Char) : Option Nat :=
  match cs with
  | '0' :: x :: rest =>
    if x = 'x' || x = 'X' then Escape.number? 16 rest
    else if x = 'b' || x = 'B' then Escape.number? 2 rest
    else Escape.number? 8 (x :: rest)
  | _ => Escape.number? 10 cs

/-- The number that a text spells, if it is below two to the power 64. -/
def word? (cs : List Char) : Option Nat :=
  (wholeNumber? (dropSeparators cs)).filter (· < Nat.pow 2 64)

/-- The value of an `int` literal. -/
def ofInt (cs : List Char) : Except LiteralFault Literal :=
  match word? cs with
  | none => .error .badInt
  | some n =>
    if Nat.pow 2 31 < n && !hasRadix cs then .error .outOfRange
    else if Nat.pow 2 32 ≤ n then .error .outOfRange
    else .ok (.int (Int32.ofNat n))

/-- The value of a `long` literal, given with its suffix. -/
def ofLong (cs : List Char) : Except LiteralFault Literal :=
  match word? cs.dropLast with
  | none => .error .badLong
  | some n => .ok (.long (Int64.ofNat n))

/-! ### Floating-point numbers -/

/-- The mantissa and the power of ten of a decimal number without suffix and underscores. -/
def scientific? (cs : List Char) : Option (Nat × Int) := do
  let (number, power) := cs.span fun c => c ≠ 'e' && c ≠ 'E'
  let (whole, fraction) := number.span (· ≠ '.')
  let fraction := fraction.drop 1
  let mantissa ← Escape.number? 10 (whole ++ fraction)
  let exponent : Int ←
    match power.drop 1 with
    | [] => if power.isEmpty then some 0 else none
    | '-' :: ds => (Escape.number? 10 ds).map fun n => -(n : Int)
    | '+' :: ds => (Escape.number? 10 ds).map Int.ofNat
    | ds => (Escape.number? 10 ds).map Int.ofNat
  return (mantissa, exponent - fraction.length)

/-- The value of a `float` literal, given with its suffix. -/
def ofFloat (cs : List Char) : Except LiteralFault Literal :=
  match scientific? (dropSeparators cs.dropLast) with
  | none => .error .badFloat
  | some (m, e) => .ok (.float (UInt32.ofNat (BinaryFormat.single.ofDecimal m e)))

/-- The text of a number without the suffix of `double`. -/
def dropDoubleSuffix (cs : List Char) : List Char :=
  (cs.reverse.dropWhile fun c => c = 'd' || c = 'D').reverse

/-- The value of a `double` literal, with or without its suffix. -/
def ofDouble (cs : List Char) : Except LiteralFault Literal :=
  match scientific? (dropSeparators (dropDoubleSuffix cs)) with
  | none => .error .badDouble
  | some (m, e) => .ok (.double (UInt64.ofNat (BinaryFormat.double.ofDecimal m e)))

/-! ### Characters and texts -/

/-- The text between the first and the last character. -/
def inside (cs : List Char) : List Char := (cs.drop 1).dropLast

/-- The value of a character literal, given with its quotes. -/
def ofChar (cs : List Char) : Except LiteralFault Literal :=
  match Escape.unescape (inside cs) with
  | none => .error .badEscape
  | some [c] => .ok (.char c)
  | some _ => .error .notOneChar

/-- The value of a string literal or text block, given with its quotes. -/
def ofString (cs : List Char) : Except LiteralFault Literal :=
  let body := if ['"', '"', '"'].isPrefixOf cs then Escape.blockBody cs else inside cs
  match Escape.unescape body with
  | none => .error .badEscape
  | some text => .ok (.string (String.ofList text))

/-! ### All literals -/

/-- **The value of a literal** of a kind. -/
def ofText (kind : LiteralKind) (cs : List Char) : Except LiteralFault Literal :=
  match kind with
  | .int => ofInt cs
  | .long => ofLong cs
  | .float => ofFloat cs
  | .double => ofDouble cs
  | .char => ofChar cs
  | .string => ofString cs

/-- The value of a keyword that is a literal. -/
def ofKeyword? : Keyword → Option Literal
  | .kwTrue => some (.bool true)
  | .kwFalse => some (.bool false)
  | .kwNull => some .null
  | _ => none

end JavaGraft.Literal

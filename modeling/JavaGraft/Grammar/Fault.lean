import JavaGraft.Text.Lines
import JavaGraft.Token.Fault
import JavaGraft.Token.Kind

/-!
# Parse errors

Why a source does not follow the grammar, where, and how that is reported: in one line, or with
the offending source line and a caret below it.
-/

namespace JavaGraft

/-! ### Causes -/

/-- Why a literal denotes no value. -/
inductive LiteralFault where
  | badInt | badLong | badFloat | badDouble
  | outOfRange
  | notOneChar
  | badEscape
deriving DecidableEq, Repr

/-- What is wrong with the literal, in words. -/
def LiteralFault.message : LiteralFault → String
  | badInt => "invalid integer"
  | badLong => "invalid long"
  | badFloat => "invalid float"
  | badDouble => "invalid double"
  | outOfRange => "integer literal out of range"
  | notOneChar => "character literal must hold one character"
  | badEscape => "invalid escape"

/-- Why a source does not follow the grammar. -/
inductive ParseFault where
  | expectedToken (expected : String) (found : TokenKind)
  | endOfSource
  | unexpectedToken (found : TokenKind)
  | expectedExpression (found : TokenKind)
  | notATypeName
  | expectedType (found : TokenKind)
  | expectedDeclaration (found : TokenKind)
  | expectedIdentifier (found : TokenKind)
  | duplicateModifier (word : String)
  | badModifier (message : String)
  | badLiteral (fault : LiteralFault) (literal : String)
  | lexical (error : LexError)
deriving DecidableEq, Repr

namespace ParseFault

/-- The category of a fault. -/
def category : ParseFault → String
  | expectedToken .. => "expected token"
  | endOfSource => "unexpected end of file"
  | unexpectedToken _ => "unexpected token"
  | expectedExpression _ => "expected expression"
  | notATypeName => "invalid expression"
  | expectedType _ => "expected type"
  | expectedDeclaration _ => "expected declaration"
  | expectedIdentifier _ => "expected identifier"
  | duplicateModifier _ => "duplicate modifier"
  | badModifier _ => "invalid modifier"
  | badLiteral .. => "invalid literal"
  | lexical _ => "lexical error"

/-- The fault in words. -/
def message : ParseFault → String
  | expectedToken expected found => "expected " ++ expected ++ ", found " ++ found.description
  | endOfSource => "unexpected end of file"
  | unexpectedToken found => "unexpected " ++ found.description ++ " after end of input"
  | expectedExpression found => "expected expression, found " ++ found.description
  | notATypeName => "'.class' must follow a type name"
  | expectedType found => "expected type, found " ++ found.description
  | expectedDeclaration found =>
    "expected class, interface or enum declaration, found " ++ found.description
  | expectedIdentifier found => "expected identifier, found " ++ found.description
  | duplicateModifier word => "duplicate modifier '" ++ word ++ "'"
  | badModifier message => message
  | badLiteral fault literal => fault.message ++ ": " ++ literal
  | lexical error => error.message

end ParseFault

/-! ### Errors -/

/-- A fault and the place where it was noticed. -/
structure ParseError where
  fault : ParseFault
  span : Span
deriving DecidableEq, Repr

namespace ParseError

/-- A lexical error as a parse error at the same place. -/
def ofLexError (e : LexError) : ParseError := ⟨.lexical e, e.span⟩

/-- The error in one line. -/
def text (e : ParseError) : String :=
  e.fault.category ++ " at " ++ e.span.text ++ ": " ++ e.fault.message

/-- Several errors, one below the other. -/
def texts (es : List ParseError) : String := "\n".intercalate (es.map text)

/-- A number at the right end of a field of three characters. -/
def lineNumber (n : Nat) : String :=
  let digits := toString n
  String.ofList (List.replicate (3 - digits.length) ' ') ++ digits

/-- The line of the source that a span starts in. -/
def quotedLine? (source : List Char) (span : Span) : Option (List Char) :=
  if span.line = 0 then none else (Lines.ofText source)[span.line - 1]?

/-- The line below a quoted line: a caret below the first byte of the span and a tail below the
others. -/
def caretLine (span : Span) : String :=
  "  | " ++ String.ofList (List.replicate (span.column - 1) ' ' ++ '^' ::
    List.replicate (span.length - 1) '~')

/-- **The error with its source line.** A span without a line in the source is reported without
one. -/
def textIn (e : ParseError) (source : List Char) : String :=
  let head := "Error at " ++ e.span.text ++ ": " ++ e.fault.category ++ "\n"
  let message := if e.fault.message = "" then "" else "  " ++ e.fault.message ++ "\n"
  let excerpt :=
    match quotedLine? source e.span with
    | some line =>
      "  |\n" ++ lineNumber e.span.line ++ " | " ++ String.ofList line ++ "\n" ++
        caretLine e.span ++ "\n"
    | none => ""
  head ++ message ++ excerpt

end ParseError

end JavaGraft

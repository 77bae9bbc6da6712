import JavaGraft.Text.Span

/-!
# Lexical errors

What can be wrong with a stretch of source that is no token, and how it is reported.
-/

namespace JavaGraft

/-- What can be wrong with a number. -/
inductive NumberFault where
  | missingExponent
  | badSuffix
  | missingDigits
deriving DecidableEq, Repr

/-- What is wrong with the number, in words. -/
def NumberFault.message : NumberFault → String
  | missingExponent => "missing exponent digits"
  | badSuffix => "invalid suffix"
  | missingDigits => "expected digits after radix prefix"

/-- Why a stretch of source is no token. -/
inductive LexFault where
  | unexpectedChar (c : Char)
  | openString
  | openChar
  | openComment
  | badNumber (fault : NumberFault)
deriving DecidableEq, Repr

/-- A lexical fault and the stretch of source it lies in. -/
structure LexError where
  fault : LexFault
  span : Span
deriving DecidableEq, Repr

/-- The error in words, with its place. -/
def LexError.message (e : LexError) : String :=
  let place := e.span.text
  match e.fault with
  | .unexpectedChar c => "unexpected character '" ++ c.toString ++ "' at " ++ place
  | .openString => "unterminated string at " ++ place
  | .openChar => "unterminated character literal at " ++ place
  | .openComment => "unterminated comment at " ++ place
  | .badNumber fault => "invalid number at " ++ place ++ ": " ++ fault.message

end JavaGraft

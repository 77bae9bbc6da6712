import JavaGraft.Text.CharClass
import JavaGraft.Token.Fault
import JavaGraft.Token.Kind

/-!
# Splitting a token off a text

Each scanner takes a text that starts with a token of its kind and splits it into a `Piece`: the
characters of the token, the rest, and the verdict, which is a kind of token or a fault. A faulty
piece ends where the fault was noticed. What is read and what is left always make up the whole
text, in this order, and at least one character is read.

Blanks and comments are split off by `margin` and `Front`. A byte order mark counts as blank only
directly after a token or comment, or at the very beginning.
-/

namespace JavaGraft.Scan

open CharClass

/-- A text in two parts, and what the first part is. -/
structure Piece where
  text : List Char
  rest : List Char
  verdict : Except LexFault TokenKind

/-! ### Quoted literals -/

/-- What follows an opening quote, up to and including the closing one, and whether there is one.
A backslash takes the next character with it, whatever it is; a line end stops the literal. -/
def quoted (quote : Char) : List Char → Bool × List Char × List Char
  | [] => (false, [], [])
  | c :: cs =>
    if c = '\n' || c = '\r' then (false, [], c :: cs)
    else if c = '\\' then
      match cs with
      | [] => (false, [c], [])
      | d :: ds => let (closed, text, rest) := quoted quote ds; (closed, c :: d :: text, rest)
    else if c = quote then (true, [c], cs)
    else let (closed, text, rest) := quoted quote cs; (closed, c :: text, rest)

/-- What follows the opening quotes of a text block, up to and including the closing ones, and
whether there are any. -/
def blockBody : List Char → Bool × List Char × List Char
  | [] => (false, [], [])
  | '"' :: '"' :: '"' :: rest => (true, ['"', '"', '"'], rest)
  | '\\' :: c :: cs => let (closed, text, rest) := blockBody cs; (closed, '\\' :: c :: text, rest)
  | c :: cs => let (closed, text, rest) := blockBody cs; (closed, c :: text, rest)

/-- A string literal or a text block; the text starts with a quote. -/
def string (cs : List Char) : Piece :=
  let (opening, body) :=
    match cs with
    | '"' :: '"' :: '"' :: r => (['"', '"', '"'], blockBody r)
    | q :: r => ([q], quoted '"' r)
    | [] => ([], (false, [], []))
  ⟨opening ++ body.2.1, body.2.2, if body.1 then .ok (.literal .string) else .error .openString⟩

/-- A character literal; the text starts with an apostrophe. -/
def character (cs : List Char) : Piece :=
  let (closed, text, rest) := quoted '\'' cs.tail
  ⟨cs.take 1 ++ text, rest, if closed then .ok (.literal .char) else .error .openChar⟩

/-! ### Numbers -/

/-- The longest run of digits of a radix and underscores. -/
def digits (radix : Nat) (cs : List Char) : List Char × List Char :=
  cs.span fun c => (digitValue? radix c).isSome || c = '_'

/-- Whether the text starts with a character of a class. -/
def startsWith (p : Char → Bool) (cs : List Char) : Bool := cs.head?.any p

/-- The point and the digits behind it. A point directly before a word or another point is no part
of the number. -/
def fraction (cs : List Char) : List Char × List Char :=
  match cs with
  | '.' :: r =>
    if startsWith isDigit r then
      let (ds, rest) := digits 10 r
      ('.' :: ds, rest)
    else if startsWith (fun c => isWordStart c || c = '.') r then ([], cs)
    else (['.'], r)
  | _ => ([], cs)

/-- The exponent, or `none` if it has no digits; with it what was read and what is left. -/
def exponent (cs : List Char) : Option Bool × List Char × List Char :=
  match cs with
  | e :: r =>
    if e = 'e' || e = 'E' then
      let (sign, r) := match r with
        | s :: r' => if s = '+' || s = '-' then ([s], r') else ([], r)
        | [] => ([], r)
      if startsWith isDigit r then
        let (ds, rest) := digits 10 r
        (some true, e :: (sign ++ ds), rest)
      else (none, e :: sign, r)
    else (some false, [], cs)
  | [] => (some false, [], cs)

/-- The suffix, and the kind of literal that it makes of the number. -/
def suffix (floating : Bool) (cs : List Char) : LiteralKind × List Char × List Char :=
  let plain := if floating then LiteralKind.double else LiteralKind.int
  match cs with
  | s :: r =>
    if s = 'f' || s = 'F' then (.float, [s], r)
    else if s = 'd' || s = 'D' then (.double, [s], r)
    else if (s = 'l' || s = 'L') && !floating then (.long, [s], r)
    else (plain, [], cs)
  | [] => (plain, [], cs)

/-- A decimal number, whole or with a fraction or an exponent. No word may follow it directly. -/
def decimal (cs : List Char) : Piece :=
  let (whole, r) := digits 10 cs
  let (point, r) := fraction r
  match exponent r with
  | (none, power, r) => ⟨whole ++ point ++ power, r, .error (.badNumber .missingExponent)⟩
  | (some scaled, power, r) =>
    let (kind, mark, r) := suffix (!point.isEmpty || scaled) r
    let text := whole ++ point ++ power ++ mark
    let (word, rest) := r.span isWordPart
    if word.isEmpty then ⟨text, rest, .ok (.literal kind)⟩
    else ⟨text ++ word, rest, .error (.badNumber .badSuffix)⟩

/-- A number in another radix; `opening` is its two leading characters. -/
def radix (base : Nat) (opening : List Char) (cs : List Char) : Piece :=
  let (ds, r) := digits base cs
  if ds.all (· = '_') then ⟨opening ++ ds, r, .error (.badNumber .missingDigits)⟩
  else
    match r with
    | s :: rest =>
      if s = 'l' || s = 'L' then ⟨opening ++ ds ++ [s], rest, .ok (.literal .long)⟩
      else ⟨opening ++ ds, r, .ok (.literal .int)⟩
    | [] => ⟨opening ++ ds, r, .ok (.literal .int)⟩

/-- A number; the text starts with a digit, or with a point and a digit. -/
def number (cs : List Char) : Piece :=
  match cs with
  | '0' :: x :: r =>
    if x = 'x' || x = 'X' then radix 16 ['0', x] r
    else if x = 'b' || x = 'B' then radix 2 ['0', x] r
    else decimal cs
  | _ => decimal cs

/-! ### Words and signs -/

/-- An identifier or keyword; the text starts with a letter, an underscore or a dollar sign. -/
def word (cs : List Char) : Piece :=
  let (text, rest) := cs.span isWordPart
  ⟨text, rest, .ok ((Keyword.ofSpelling? (String.ofList text)).elim .identifier .keyword)⟩

/-- The longest sign, or else one unexpected character. -/
def sign (cs : List Char) : Piece :=
  match Sign.longest? cs with
  | some s => ⟨s.spelling.toList, cs.drop s.spelling.length, .ok (.sign s)⟩
  | none => ⟨cs.take 1, cs.drop 1, .error (.unexpectedChar (cs.headD '\x00'))⟩

/-- A token that starts with the given text, which is neither empty nor blank nor a comment. -/
def token (cs : List Char) : Piece :=
  match cs with
  | [] => sign []
  | c :: r =>
    if c = '"' then string cs
    else if c = '\'' then character cs
    else if isDigit c || c = '.' && startsWith isDigit r then number cs
    else if isWordStart c then word cs
    else sign cs

/-! ### Blanks and comments -/

/-- The byte order mark. -/
def byteOrderMark : Char := '\ufeff'

/-- The blanks before a token or comment, led by at most one byte order mark. -/
def margin (cs : List Char) : List Char × List Char :=
  match cs with
  | c :: r =>
    if c = byteOrderMark then
      let (blank, rest) := r.span isBlank
      (c :: blank, rest)
    else cs.span isBlank
  | [] => ([], [])

/-- What follows the opening of a bracketed comment, up to and including its end, and whether it
ends. -/
def commentBody : List Char → Bool × List Char × List Char
  | [] => (false, [], [])
  | '*' :: '/' :: rest => (true, ['*', '/'], rest)
  | c :: cs => let (closed, text, rest) := commentBody cs; (closed, c :: text, rest)

/-- What stands behind the margin: nothing, a comment, or a token. -/
inductive Front where
  | finished
  | comment (text rest : List Char)
  | piece (p : Piece)

/-- What a text without margin starts with. -/
def front (cs : List Char) : Front :=
  match cs with
  | [] => .finished
  | '/' :: '/' :: r =>
    let (text, rest) := r.span (· ≠ '\n')
    .comment ('/' :: '/' :: text) rest
  | '/' :: '*' :: r =>
    let (closed, text, rest) := commentBody r
    if closed then .comment ('/' :: '*' :: text) rest
    else .piece ⟨'/' :: '*' :: text, rest, .error .openComment⟩
  | _ => .piece (token cs)

end JavaGraft.Scan

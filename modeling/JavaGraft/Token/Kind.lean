/-!
# Kinds of tokens

A token is a literal, an identifier, a keyword, a sign, a stretch of text that is no token at all,
or the end of the source. Keywords and signs are known by their spellings. The signs are listed
longest first, so that the first one a text starts with is the longest. In error messages a kind is
described by its spelling in quotes, or by a phrase.
-/

namespace JavaGraft

/-! ### Keywords -/

/-- The reserved words. -/
inductive Keyword where
  | kwVoid | kwBoolean | kwByte | kwShort | kwChar | kwInt | kwLong | kwFloat | kwDouble
  | kwTrue | kwFalse | kwNull | kwThis | kwSuper
  | kwIf | kwElse | kwFor | kwWhile | kwDo | kwSwitch | kwCase | kwDefault | kwBreak | kwContinue
  | kwReturn | kwThrow | kwTry | kwCatch | kwFinally | kwAssert
  | kwPackage | kwImport | kwClass | kwInterface | kwEnum | kwExtends | kwImplements | kwThrows
  | kwNew | kwInstanceof
  | kwPublic | kwPrivate | kwProtected | kwStatic | kwFinal | kwAbstract | kwNative
  | kwSynchronized | kwTransient | kwVolatile | kwStrictfp
deriving DecidableEq, Repr

namespace Keyword

/-- All reserved words. -/
def all : List Keyword := [
  kwVoid, kwBoolean, kwByte, kwShort, kwChar, kwInt, kwLong, kwFloat, kwDouble, kwTrue, kwFalse,
  kwNull, kwThis, kwSuper, kwIf, kwElse, kwFor, kwWhile, kwDo, kwSwitch, kwCase, kwDefault,
  kwBreak, kwContinue, kwReturn, kwThrow, kwTry, kwCatch, kwFinally, kwAssert, kwPackage,
  kwImport, kwClass, kwInterface, kwEnum, kwExtends, kwImplements, kwThrows, kwNew, kwInstanceof,
  kwPublic, kwPrivate, kwProtected, kwStatic, kwFinal, kwAbstract, kwNative, kwSynchronized,
  kwTransient, kwVolatile, kwStrictfp]

/-- The word as written. -/
def spelling : Keyword → String
  | kwVoid => "void"
  | kwBoolean => "boolean"
  | kwByte => "byte"
  | kwShort => "short"
  | kwChar => "char"
  | kwInt => "int"
  | kwLong => "long"
  | kwFloat => "float"
  | kwDouble => "double"
  | kwTrue => "true"
  | kwFalse => "false"
  | kwNull => "null"
  | kwThis => "this"
  | kwSuper => "super"
  | kwIf => "if"
  | kwElse => "else"
  | kwFor => "for"
  | kwWhile => "while"
  | kwDo => "do"
  | kwSwitch => "switch"
  | kwCase => "case"
  | kwDefault => "default"
  | kwBreak => "break"
  | kwContinue => "continue"
  | kwReturn => "return"
  | kwThrow => "throw"
  | kwTry => "try"
  | kwCatch => "catch"
  | kwFinally => "finally"
  | kwAssert => "assert"
  | kwPackage => "package"
  | kwImport => "import"
  | kwClass => "class"
  | kwInterface => "interface"
  | kwEnum => "enum"
  | kwExtends => "extends"
  | kwImplements => "implements"
  | kwThrows => "throws"
  | kwNew => "new"
  | kwInstanceof => "instanceof"
  | kwPublic => "public"
  | kwPrivate => "private"
  | kwProtected => "protected"
  | kwStatic => "static"
  | kwFinal => "final"
  | kwAbstract => "abstract"
  | kwNative => "native"
  | kwSynchronized => "synchronized"
  | kwTransient => "transient"
  | kwVolatile => "volatile"
  | kwStrictfp => "strictfp"

/-- The reserved word that a text spells. -/
def ofSpelling? (word : String) : Option Keyword := all.find? (·.spelling == word)

/-- A keyword of a primitive type, `void` among them. -/
def isPrimitive : Keyword → Bool
  | kwVoid | kwBoolean | kwByte | kwShort | kwChar | kwInt | kwLong | kwFloat | kwDouble => true
  | _ => false

/-- A keyword that modifies a declaration wherever it stands. -/
def isModifier : Keyword → Bool
  | kwPublic | kwPrivate | kwProtected | kwStatic | kwFinal | kwAbstract | kwNative
  | kwSynchronized | kwTransient | kwVolatile | kwStrictfp => true
  | _ => false

/-- A keyword that is a literal. -/
def isLiteral : Keyword → Bool
  | kwTrue | kwFalse | kwNull => true
  | _ => false

end Keyword

/-! ### Signs -/

/-- The operators and separators. -/
inductive Sign where
  | ushrAssign | ushr | shrAssign | shlAssign | ellipsis | shr | shl | greaterEq | lessEq | eqEq
  | notEq | andAnd | orOr | plusPlus | minusMinus | plusAssign | minusAssign | starAssign
  | slashAssign | percentAssign | ampAssign | pipeAssign | caretAssign | arrow | colonColon | plus
  | minus | star | slash | percent | assign | less | greater | bang | amp | pipe | caret | tilde
  | question | colon | lparen | rparen | lbracket | rbracket | lbrace | rbrace | semicolon | comma
  | dot | atSign
deriving DecidableEq, Repr

namespace Sign

/-- All signs, longest first. -/
def all : List Sign := [
  ushrAssign, ushr, shrAssign, shlAssign, ellipsis, shr, shl, greaterEq, lessEq, eqEq, notEq,
  andAnd, orOr, plusPlus, minusMinus, plusAssign, minusAssign, starAssign, slashAssign,
  percentAssign, ampAssign, pipeAssign, caretAssign, arrow, colonColon, plus, minus, star, slash,
  percent, assign, less, greater, bang, amp, pipe, caret, tilde, question, colon, lparen, rparen,
  lbracket, rbracket, lbrace, rbrace, semicolon, comma, dot, atSign]

/-- The sign as written. -/
def spelling : Sign → String
  | ushrAssign => ">>>="
  | ushr => ">>>"
  | shrAssign => ">>="
  | shlAssign => "<<="
  | ellipsis => "..."
  | shr => ">>"
  | shl => "<<"
  | greaterEq => ">="
  | lessEq => "<="
  | eqEq => "=="
  | notEq => "!="
  | andAnd => "&&"
  | orOr => "||"
  | plusPlus => "++"
  | minusMinus => "--"
  | plusAssign => "+="
  | minusAssign => "-="
  | starAssign => "*="
  | slashAssign => "/="
  | percentAssign => "%="
  | ampAssign => "&="
  | pipeAssign => "|="
  | caretAssign => "^="
  | arrow => "->"
  | colonColon => "::"
  | plus => "+"
  | minus => "-"
  | star => "*"
  | slash => "/"
  | percent => "%"
  | assign => "="
  | less => "<"
  | greater => ">"
  | bang => "!"
  | amp => "&"
  | pipe => "|"
  | caret => "^"
  | tilde => "~"
  | question => "?"
  | colon => ":"
  | lparen => "("
  | rparen => ")"
  | lbracket => "["
  | rbracket => "]"
  | lbrace => "\x7b"
  | rbrace => "\x7d"
  | semicolon => ";"
  | comma => ","
  | dot => "."
  | atSign => "@"

/-- The longest sign that a text starts with, if any. -/
def longest? (cs : List Char) : Option Sign := all.find? fun s => s.spelling.toList.isPrefixOf cs

end Sign

/-! ### Kinds -/

/-- The kinds of literals that are not keywords. -/
inductive LiteralKind where
  | int | long | float | double | char | string
deriving DecidableEq, Repr

/-- The kinds of tokens. -/
inductive TokenKind where
  | literal (kind : LiteralKind)
  | identifier
  | keyword (word : Keyword)
  | sign (sign : Sign)
  | invalid
  | endOfSource
deriving DecidableEq, Repr

namespace TokenKind

/-- How error messages speak of a kind. -/
def description : TokenKind → String
  | literal .int => "integer literal"
  | literal .long => "long literal"
  | literal .float => "float literal"
  | literal .double => "double literal"
  | literal .char => "character literal"
  | literal .string => "string literal"
  | identifier => "identifier"
  | keyword word => "'" ++ word.spelling ++ "'"
  | sign s => "'" ++ s.spelling ++ "'"
  | invalid => "invalid token"
  | endOfSource => "end of file"

/-- The keyword of a primitive type. -/
def isPrimitive : TokenKind → Bool
  | keyword word => word.isPrimitive
  | _ => false

/-- A keyword that modifies a declaration wherever it stands. -/
def isModifier : TokenKind → Bool
  | keyword word => word.isModifier
  | _ => false

/-- A literal, keyword or not. -/
def isLiteral : TokenKind → Bool
  | literal _ => true
  | keyword word => word.isLiteral
  | _ => false

end TokenKind

end JavaGraft

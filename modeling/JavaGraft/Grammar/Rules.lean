import JavaGraft.Grammar.Lookahead

/-!
# The recursive rules of the grammar

Types, expressions, statements and declarations contain each other. Each rule is written as a
parser that is given parsers for the parts in which the grammar turns back to itself: a record of
`Rules`. No rule is recursive by itself, so what every rule does to the state can be shown for one
rule at a time. The record also bounds the rounds of every loop within a rule.
-/

namespace JavaGraft

/-- Parsers for the parts in which the grammar turns back to itself. -/
structure Rules where
  /-- The greatest number of rounds of a loop. -/
  rounds : Nat
  /-- An expression whose operators bind at least as tightly as the given power. -/
  expr : Nat → Parser Expr
  /-- A type with its brackets. -/
  type : Parser TypeExpr
  /-- An annotation. -/
  annot : Parser Annot
  /-- The value of an annotation's element. -/
  element : Parser Element
  /-- Statements in braces. -/
  block : Parser Block
  /-- A statement. -/
  stmt : Parser Stmt
  /-- The members of a class in braces; constructors have the name of the class. -/
  classBody : String → Parser (List Member)
  /-- The declaration of a type behind its modifiers. -/
  typeDecl : Modifiers → Parser TypeDecl

/-- No rules: every part is exhausted. -/
def Rules.none : Rules where
  rounds := 0
  expr _ := throw .exhausted
  type := throw .exhausted
  annot := throw .exhausted
  element := throw .exhausted
  block := throw .exhausted
  stmt := throw .exhausted
  classBody _ := throw .exhausted
  typeDecl _ := throw .exhausted

end JavaGraft

import JavaGraft.Ast.Equality
import JavaGraft.Grammar.Decl

/-!
# Tying the rules together

The rules are tied into a grammar of bounded depth: at depth `n + 1` every rule is given the
grammar of depth `n`. The depth needed is bounded by the length of the source, since at most a few
rules can be entered in a row before a token is taken. `ParserState.depth` is such a bound, and what
remains of it also bounds the rounds of every loop.

On top of it stand the entry points, which read a whole text: `parseUnit` returns whatever it
could read together with the errors, the others return either a result or the errors.
-/

namespace JavaGraft

open JavaGraft.Parser

/-- All rules, given parsers for the parts in which they turn back to the grammar. -/
def Rules.over (parts : Rules) (rounds : Nat) : Rules where
  rounds := rounds
  expr := Grammar.expr parts
  type := Grammar.type parts
  annot := Grammar.annot parts
  element := Grammar.element parts
  block := Grammar.block parts
  stmt := Grammar.stmt parts
  classBody := Grammar.classBody parts
  typeDecl := Grammar.typeDecl parts

/-- **The grammar of depth `n`.** -/
def grammar : Nat → Rules
  | 0 => .none
  | n + 1 => (grammar n).over n

/-- A depth that suffices for what is left of a source. -/
def ParserState.depth (s : ParserState) : Nat := 8 * (s.remaining + 2)

namespace Parser

variable {α : Type}

/-- Runs a rule of the grammar that is deep enough. A source that exhausted it all the same would
be reported as ending too early. -/
def run (rule : Rules → Parser α) (s : ParserState) : Except ParseError α × ParserState :=
  match rule (grammar s.depth) s with
  | .ok a s => (.ok a, s)
  | .error (.rejected e) s => (.error e, s)
  | .error .exhausted s => (.error ⟨.endOfSource, s.next.span⟩, s)

/-- Runs a rule on a whole text: it must succeed without errors and leave nothing. -/
def runAll (rule : Rules → Parser α) (source : List Char) : Except (List ParseError) α :=
  let (result, s) := run rule (.ofSource source 0)
  match result with
  | .error e => .error (s.errors ++ [e])
  | .ok a =>
    if s.next.kind = .endOfSource then
      if s.errors.isEmpty then .ok a else .error s.errors
    else .error (s.errors ++ [⟨.unexpectedToken s.next.kind, s.next.span⟩])

end Parser

/-! ### Entry points -/

/-- What was read of a source file, the errors in it, and the number behind those of its calls. -/
structure ParsedUnit where
  unit : SourceUnit
  errors : List ParseError
  nextCall : Nat
deriving DecidableEq

/-- **Reads a source file**, its calls being numbered from `firstCall` on. -/
def parseUnit (source : List Char) (firstCall : Nat) : ParsedUnit :=
  let start := ParserState.ofSource source firstCall
  match Parser.run Grammar.sourceUnit start with
  | (.ok unit, s) => ⟨unit, s.errors, s.nextCall⟩
  | (.error e, s) => ⟨⟨none, [], [], start.next.span⟩, s.errors ++ [e], s.nextCall⟩

/-- Reads an expression. -/
def parseExpr (source : List Char) : Except (List ParseError) Expr :=
  runAll (fun g => g.expr 0) source

/-- Reads a statement. -/
def parseStmt (source : List Char) : Except (List ParseError) Stmt :=
  runAll (fun g => g.stmt) source

/-- Reads a type. -/
def parseType (source : List Char) : Except (List ParseError) TypeExpr :=
  runAll (fun g => g.type) source

end JavaGraft

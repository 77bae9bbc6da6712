import JavaGraft.Ast.Operator
import JavaGraft.Ast.Outline
import JavaGraft.Ast.Tree
import JavaGraft.Ast.TypeExpr
import JavaGraft.Build.Process
import JavaGraft.Build.Unit
import JavaGraft.Extension.CallSite
import JavaGraft.Extension.Catalog
import JavaGraft.Extension.Decision
import JavaGraft.Extension.Marker
import JavaGraft.Extension.Splice
import JavaGraft.Extension.Transform
import JavaGraft.Grammar.Decl
import JavaGraft.Grammar.Expr
import JavaGraft.Grammar.Fault
import JavaGraft.Grammar.Knot
import JavaGraft.Grammar.Lookahead
import JavaGraft.Grammar.Modifiers
import JavaGraft.Grammar.Parser
import JavaGraft.Grammar.Rules
import JavaGraft.Grammar.Stmt
import JavaGraft.Grammar.Type
import JavaGraft.Literal.Decode
import JavaGraft.Literal.Escape
import JavaGraft.Literal.Rounding
import JavaGraft.Name.DataType
import JavaGraft.Name.Flags
import JavaGraft.Name.Qualified
import JavaGraft.Name.TypeHash
import JavaGraft.Name.XXHash
import JavaGraft.Prelude.Language
import JavaGraft.Prelude.Libraries
import JavaGraft.Prelude.Registry
import JavaGraft.Prelude.Stub
import JavaGraft.Registration.Members
import JavaGraft.Registration.Run
import JavaGraft.Report.Diagnostic
import JavaGraft.Scope.Context
import JavaGraft.Scope.Local
import JavaGraft.Symbol.Basic
import JavaGraft.Symbol.Hierarchy
import JavaGraft.Symbol.Registry
import JavaGraft.Text.CharClass
import JavaGraft.Text.Cursor
import JavaGraft.Text.Lines
import JavaGraft.Text.Quoted
import JavaGraft.Text.Span
import JavaGraft.Token.Fault
import JavaGraft.Token.Kind
import JavaGraft.Token.Lexer
import JavaGraft.Token.Scan
import JavaGraft.Typing.Attribution
import JavaGraft.Typing.Member
import JavaGraft.Typing.Overload
import JavaGraft.Typing.Promotion
import JavaGraft.Ast.Equality
import JavaGraft.Proofs.Extension.Account
import JavaGraft.Proofs.Extension.Candidates
import JavaGraft.Proofs.Extension.Meaning
import JavaGraft.Proofs.Extension.Report
import JavaGraft.Proofs.Symbol.Indexes
import JavaGraft.Proofs.Registration.Phases
import JavaGraft.Proofs.Registration.Cycles
import JavaGraft.Proofs.Registration.Signatures
import JavaGraft.Proofs.Build.Order
import JavaGraft.Proofs.Build.Frame
import JavaGraft.Proofs.Build.Lifecycle
import JavaGraft.Proofs.Build.Independence
import JavaGraft.Proofs.Grammar.Precedence
import JavaGraft.Proofs.Recovery.Containment
import JavaGraft.Proofs.Token.Spacing
import JavaGraft.Proofs.Token.Tiling
import JavaGraft.Proofs.Extension.Result
import JavaGraft.Proofs.Extension.SelfReceivers
import JavaGraft.Proofs.Extension.Hygiene
import JavaGraft.Proofs.Course.Termination
import JavaGraft.Proofs.Course.Buffer
import JavaGraft.Proofs.Typing.Coverage
import JavaGraft.Proofs.Extension.Scanning
import JavaGraft.Proofs.Extension.Folding
import JavaGraft.Proofs.Tree.Charts
import JavaGraft.Proofs.Tree.Declared
import JavaGraft.Proofs.Course.Charting
import JavaGraft.Proofs.Course.ExpressionCharts
import JavaGraft.Proofs.Course.StatementCharts
import JavaGraft.Proofs.Course.DeclarationCharts
import JavaGraft.Proofs.Extension.SourceOrder
import JavaGraft.Proofs.Typing.Sharing
import JavaGraft.Proofs.Typing.Binding
import JavaGraft.Proofs.Typing.Void
import JavaGraft.Proofs.Scope.Obscuring
import JavaGraft.Proofs.Symbol.Reachability
import JavaGraft.Proofs.Typing.Assignment
import JavaGraft.Proofs.Course.Names
import JavaGraft.Proofs.Registration.Nesting
import JavaGraft.Proofs.Scope.FullNames
import JavaGraft.Proofs.Extension.QualifiedThis
import JavaGraft.Proofs.Spelling.Display
import JavaGraft.Proofs.Spelling.Extent
import JavaGraft.Proofs.Spelling.Skipping
import JavaGraft.Proofs.Exchange.Middle
import JavaGraft.Proofs.Exchange.Passing
import JavaGraft.Proofs.Exchange.Exchanging
import JavaGraft.Proofs.Exchange.CaseLabels
import JavaGraft.Proofs.Literal.Integers
import JavaGraft.Proofs.Literal.Escapes
import JavaGraft.Proofs.Literal.Blocks
import JavaGraft.Proofs.Token.Peeking
import JavaGraft.Proofs.Grammar.Caret
import JavaGraft.Proofs.Build.Reports
import JavaGraft.Proofs.Course.Walk
import JavaGraft.Proofs.Scope.Stack
import JavaGraft.Proofs.Name.Overloads

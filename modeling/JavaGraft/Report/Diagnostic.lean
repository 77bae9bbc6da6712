import JavaGraft.Text.Span

/-!
# Diagnostics

A `Diagnostic` is a message about a place of a source, of one of three severities. `Diagnostics`
collects them in order; errors and warnings are filed under the source that is current when they
are added.
-/

namespace JavaGraft

/-- How serious a diagnostic is. -/
inductive Severity where
  | error | warning | info
deriving DecidableEq, Repr

/-- The word for a severity. -/
def Severity.word : Severity → String
  | error => "error"
  | warning => "warning"
  | info => "info"

/-- A message about a place of a source. -/
structure Diagnostic where
  severity : Severity
  source : Option String
  span : Span
  message : String
deriving DecidableEq, Repr

/-- The diagnostic in one line, led by the source if it is known. -/
def Diagnostic.text (d : Diagnostic) : String :=
  let said := d.span.text ++ ": " ++ d.severity.word ++ ": " ++ d.message
  match d.source with
  | some source => source ++ ":" ++ said
  | none => said

/-- The diagnostics of a build in the order they were added, and the current source. -/
structure Diagnostics where
  items : List Diagnostic
  source : Option String
deriving DecidableEq, Repr

namespace Diagnostics

/-- No diagnostics, and no current source. -/
def empty : Diagnostics := ⟨[], none⟩

/-- Files what follows under another source. -/
def setSource (ds : Diagnostics) (source : Option String) : Diagnostics := { ds with source }

/-- Adds a diagnostic as it is. -/
def push (ds : Diagnostics) (d : Diagnostic) : Diagnostics := { ds with items := ds.items ++ [d] }

/-- Adds an error about the current source. -/
def addError (ds : Diagnostics) (span : Span) (message : String) : Diagnostics :=
  ds.push ⟨.error, ds.source, span, message⟩

/-- Adds a warning about the current source. -/
def addWarning (ds : Diagnostics) (span : Span) (message : String) : Diagnostics :=
  ds.push ⟨.warning, ds.source, span, message⟩

/-- Moves all diagnostics of the second collection behind those of the first. -/
def absorb (ds other : Diagnostics) : Diagnostics × Diagnostics :=
  ({ ds with items := ds.items ++ other.items }, { other with items := [] })

/-- The diagnostics of one severity. -/
def ofSeverity (ds : Diagnostics) (s : Severity) : List Diagnostic :=
  ds.items.filter (·.severity = s)

/-- Whether there is an error among them. -/
def hasErrors (ds : Diagnostics) : Bool := !(ds.ofSeverity .error).isEmpty

/-- All diagnostics, a line each. -/
def text (ds : Diagnostics) : String := String.join (ds.items.map (·.text ++ "\n"))

end Diagnostics

end JavaGraft

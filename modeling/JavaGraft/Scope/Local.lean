import JavaGraft.Name.DataType
import JavaGraft.Text.Span

/-!
# Local variables

The variables that are visible at a point of a body. Entering a block opens a scope, leaving it
takes back everything that was declared in it: variables that were hidden become visible again.
Rather than a stack of scopes, one flat list of the visible variables is kept, and beside it a
stack of those that are hidden, each with the depth of the scope that hides it.
-/

namespace JavaGraft

/-- A local variable: its type, if that is known, and where it was declared. -/
structure LocalVar where
  name : String
  type : Option DataType
  depth : Nat
  span : Span
deriving DecidableEq, Repr

/-- The visible variables, no two of one name, the depth of the innermost scope, and the hidden
variables, the latest first. -/
structure LocalScope where
  visible : List LocalVar
  depth : Nat
  hidden : List (Nat × LocalVar)
deriving DecidableEq, Repr

namespace LocalScope

/-- The outermost scope, without variables. -/
def empty : LocalScope := ⟨[], 0, []⟩

/-! ### Looking up -/

/-- The visible variable of a name. -/
def get? (s : LocalScope) (name : String) : Option LocalVar := s.visible.find? (·.name == name)

/-- Whether a variable of a name is visible. -/
def isDeclared (s : LocalScope) (name : String) : Bool := (s.get? name).isSome

/-- The type of the visible variable of a name, if it is known. -/
def typeOf? (s : LocalScope) (name : String) : Option DataType := (s.get? name).bind LocalVar.type

/-! ### Scopes -/

/-- Variables with one of them put in the place of the one of its name. -/
def put (vars : List LocalVar) (v : LocalVar) : List LocalVar :=
  v :: vars.filter (·.name != v.name)

/-- Opens a scope. -/
def enter (s : LocalScope) : LocalScope := { s with depth := s.depth + 1 }

/-- Closes the innermost scope: its variables go, and those that it hid come back. The outermost
scope stays open. -/
def leave (s : LocalScope) : LocalScope :=
  if s.depth = 0 then s
  else
    let (back, hidden) := s.hidden.span (·.1 == s.depth)
    let outer := s.visible.filter (·.depth < s.depth)
    ⟨back.foldl (fun vars h => put vars h.2) outer, s.depth - 1, hidden⟩

/-- Declares a variable in the innermost scope. It hides a variable of an outer scope, and replaces
one of the same scope. -/
def declare (s : LocalScope) (name : String) (type : Option DataType) (span : Span) :
    LocalScope where
  visible := put s.visible ⟨name, type, s.depth, span⟩
  depth := s.depth
  hidden :=
    (((s.get? name).filter (·.depth < s.depth)).map fun v => (s.depth, v)).toList ++ s.hidden

end LocalScope

end JavaGraft

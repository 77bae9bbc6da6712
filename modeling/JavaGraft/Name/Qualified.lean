/-!
# Dotted names

A `QualifiedName` is a dotted name such as `java.lang.String`, cut at its last dot: the qualifier,
which may be empty, and the simple name. Members of a type are named by taking the type's whole
text as the qualifier.
-/

namespace JavaGraft

/-- The pieces of a text between dots; there is always at least one. -/
def splitDots (text : String) : List String :=
  (text.toList.splitOn '.').map String.ofList

/-- Names put one behind the other with dots between them. -/
def joinDots (names : List String) : String := ".".intercalate names

/-- A dotted name: what stands before the last dot, and the simple name behind it. -/
structure QualifiedName where
  qualifier : String
  simple : String
deriving DecidableEq, Repr, Inhabited

namespace QualifiedName

/-- The name that a dotted text spells. -/
def ofText (text : String) : QualifiedName :=
  let pieces := splitDots text
  ⟨joinDots pieces.dropLast, pieces.getLastD ""⟩

/-- The dotted text; an empty qualifier leaves the simple name alone. -/
def text (n : QualifiedName) : String :=
  if n.qualifier = "" then n.simple else n.qualifier ++ "." ++ n.simple

/-- The name of a type declared directly inside this one. -/
def member (n : QualifiedName) (simple : String) : QualifiedName := ⟨n.text, simple⟩

/-- The segments, outermost first. -/
def segments (n : QualifiedName) : List String :=
  (splitDots n.qualifier).filter (· ≠ "") ++ [n.simple]

end QualifiedName

end JavaGraft

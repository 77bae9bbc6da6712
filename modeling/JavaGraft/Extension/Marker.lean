import JavaGraft.Ast.Tree

/-!
# The annotation that asks for extension methods

A type asks for extension methods by an annotation, which is known by a simple name and by some
qualified names. What it lists as its `value` are the providers.
-/

namespace JavaGraft

/-- The names of the annotation. -/
structure ExtensionMarker where
  simpleName : String
  qualifiedNames : List String
deriving DecidableEq, Repr

namespace ExtensionMarker

/-- The names it has if no others are chosen. -/
def standard : ExtensionMarker :=
  ⟨"ExtensionMethod", ["lombok.ExtensionMethod", "lombok.experimental.ExtensionMethod"]⟩

/-- Whether a name as written is one of the annotation's names. -/
def hasName (m : ExtensionMarker) (name : String) : Bool :=
  name == m.simpleName || m.qualifiedNames.contains name

/-- Whether an annotation is the one meant. A simple name must be the simple one. -/
def marks (m : ExtensionMarker) (a : Annot) : Bool :=
  if a.name.isSimple then a.name.last == m.simpleName else m.hasName a.name.dotted

/-- The first such annotation among modifiers. -/
def find? (m : ExtensionMarker) (mods : Modifiers) : Option Annot := mods.annots.find? m.marks

end ExtensionMarker

/-- The providers that the annotation lists, braces resolved. -/
def Annot.providers (a : Annot) : List Element := (a.element? "value").elim [] Element.leaves

/-- Misuse of the annotation. -/
inductive UsageError where
  | notClassOrEnum
  | noExtensionTypes
deriving DecidableEq, Repr

/-- What is reported about a misuse. -/
def UsageError.message : UsageError → String
  | notClassOrEnum => "@ExtensionMethod can be used on classes and enums only"
  | noExtensionTypes => "@ExtensionMethod has no effect since no extension types were specified."

end JavaGraft

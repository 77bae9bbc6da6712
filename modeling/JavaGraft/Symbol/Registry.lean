import JavaGraft.Symbol.Basic

/-!
# The registry of types

All declared types, in the order in which they were declared. No two have the same name. Types are
found by name, by identity, or, if they are not members of another type, by package and simple
name. A package is known as soon as it, or a package below it, holds a type.

Two names of one identity are not expected; should they occur, the identity stands for the type
declared last.
-/

namespace JavaGraft

/-- Why the declarations of a set of files do not make up a registry, or are not understood. -/
inductive RegistrationFault where
  | duplicateType (name : String)
  | typeNotFound (name : String)
  | cyclicInheritance (name : String)
deriving DecidableEq, Repr

/-- The fault in words. -/
def RegistrationFault.message : RegistrationFault → String
  | duplicateType name => "duplicate type: " ++ name
  | typeNotFound name => "type not found: " ++ name
  | cyclicInheritance name => "cyclic inheritance involving " ++ name

/-- Declared types, the latest first. -/
structure Registry where
  latestFirst : List TypeSymbol
deriving DecidableEq

namespace Registry

/-- No type at all. -/
def empty : Registry := ⟨[]⟩

/-! ### Looking up -/

/-- The types in the order of their declaration. -/
def types (r : Registry) : List TypeSymbol := r.latestFirst.reverse

/-- The number of types. -/
def count (r : Registry) : Nat := r.latestFirst.length

/-- The type of a name. -/
def find? (r : Registry) (name : QualifiedName) : Option TypeSymbol :=
  r.latestFirst.find? (·.name == name)

/-- The type of an identity. -/
def get? (r : Registry) (hash : TypeHash) : Option TypeSymbol :=
  r.latestFirst.find? (·.hash == hash)

/-- The type of a dotted text. -/
def ofText? (r : Registry) (text : String) : Option TypeSymbol := r.get? (.ofName text)

/-- The type of a simple name in a package; member types are in no package. -/
def inPackage? (r : Registry) (package simple : String) : Option TypeSymbol :=
  (r.find? ⟨package, simple⟩).filter (·.outer.isNone)

/-- Packages with their parents: the dotted texts of the nonempty beginnings of a name. Empty
pieces between dots do not count. -/
def beginnings (package : String) : List String :=
  let pieces := (splitDots package).filter (· ≠ "")
  (List.range pieces.length).map fun i => joinDots (pieces.take (i + 1))

/-- Whether a package or one below it holds a type. -/
def hasPackage (r : Registry) (package : String) : Bool :=
  r.latestFirst.any fun t => t.outer.isNone && (beginnings t.name.qualifier).contains package

/-- What an identity is called: the name of its type, a primitive keyword, or its own text. -/
def nameOf (r : Registry) (hash : TypeHash) : String :=
  match r.get? hash, hash.primitive? with
  | some t, _ => t.name.text
  | none, some p => p.keyword
  | none, none => hash.text

/-! ### Adding -/

/-- **Adds a type**, unless its name is taken. -/
def register (r : Registry) (t : TypeSymbol) : Except RegistrationFault Registry :=
  if (r.find? t.name).isSome then .error (.duplicateType t.name.text)
  else .ok ⟨t :: r.latestFirst⟩

/-- Changes the type of an identity, if there is one. -/
def modify (r : Registry) (hash : TypeHash) (f : TypeSymbol → TypeSymbol) : Registry :=
  ⟨r.latestFirst.modify (r.latestFirst.findIdx (·.hash == hash)) f⟩

end Registry

end JavaGraft

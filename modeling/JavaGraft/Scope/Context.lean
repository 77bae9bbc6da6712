import JavaGraft.Ast.Equality
import JavaGraft.Symbol.Hierarchy

/-!
# What a type name means

The meaning of a type name depends on the file, whose package and imports are its `FileScope`, and
on the place in it, a `Context`: the type whose code it stands in, and the type variables of the
method around it. A simple name means, in this order,

1. a type variable, which is erased to the root class;
2. a type around the place, or a member type of one of these, the innermost first;
3. a type that is imported by name;
4. a type of the same package;
5. a type from below one of the names imported on demand, in their order;
6. a type of the package that every file imports.

In a dotted name, the first segment is such a name and the others are member types, inherited ones
included; failing this, it starts with a package, the longest that makes sense.
-/

namespace JavaGraft

/-! ### Files -/

/-- A parsed source file. -/
structure SourceFile where
  name : String
  unit : SourceUnit
deriving DecidableEq

/-- The package of a file, and what it imports by name and on demand. -/
structure FileScope where
  package : String
  single : List QualifiedName
  onDemand : List String
deriving DecidableEq, Repr

namespace FileScope

/-- The package that every file imports. -/
def implicitPackage : String := "java.lang"

/-- The scope of a unit. Static imports are about members and do not count. -/
def ofUnit (u : SourceUnit) : FileScope where
  package := u.packageName
  single :=
    (u.imports.filter fun i => !i.isStatic && !i.onDemand).map fun i => .ofText i.path.dotted
  onDemand := (u.imports.filter fun i => !i.isStatic && i.onDemand).map (·.path.dotted)

/-- The type imported under a simple name. Of several, the last import counts. -/
def import? (s : FileScope) (simple : String) : Option QualifiedName :=
  s.single.reverse.find? (·.simple == simple)

end FileScope

/-- The scope of a file. -/
def SourceFile.scope (f : SourceFile) : FileScope := .ofUnit f.unit

/-! ### Places -/

/-- A place in a file: the type it is in, if any, and the type variables of the method around it. -/
structure Context where
  registry : Registry
  file : FileScope
  owner : Option TypeHash
  typeVars : List String

namespace Context

/-- A place in a type. -/
def inType (r : Registry) (file : FileScope) (owner : TypeHash) : Context :=
  ⟨r, file, some owner, []⟩

/-- The same place with further type variables. -/
def addTypeVars (c : Context) (names : List String) : Context :=
  { c with typeVars := c.typeVars ++ names }

/-- At most `n` types, from the given one outwards, until one of them comes again. -/
def outwards (r : Registry) : Nat → List TypeHash → Option TypeHash → List TypeHash
  | n + 1, seen, some h =>
    if seen.contains h then []
    else h :: outwards r n (h :: seen) ((r.get? h).bind TypeSymbol.outer)
  | _, _, _ => []

/-- The types around the place, innermost first. -/
def enclosing (c : Context) : List TypeHash := outwards c.registry (c.registry.count + 1) [] c.owner

/-- Whether a name is that of a type variable. -/
def isTypeVar (c : Context) (name : String) : Bool :=
  c.typeVars.contains name ||
    c.enclosing.any fun h => ((c.registry.get? h).elim [] TypeSymbol.typeParams).contains name

/-! ### Names -/

/-- The member type of a name that a type declares or inherits. -/
def memberType? (c : Context) (owner : TypeHash) (name : String) : Option TypeHash :=
  ((c.registry.supertypes owner).findSome? fun t => c.registry.find? (t.name.member name)).map
    TypeSymbol.hash

/-- The type that is reached from a type through member types. -/
def memberPath? (c : Context) (owner : TypeHash) (path : List String) : Option TypeHash :=
  path.foldlM c.memberType? owner

/-- A type around the place that has the name, or a member type of one of them. -/
def enclosingType? (c : Context) (name : String) : Option TypeHash :=
  c.enclosing.findSome? fun h =>
    if (c.registry.get? h).any (·.name.simple == name) then some h else c.memberType? h name

/-- What a simple name means that is neither a type variable nor enclosed: a type that the file
imports or sees in a package. A name that is imported means nothing else. -/
def fileType? (c : Context) (name : String) : Option TypeHash :=
  let found :=
    match c.file.import? name with
    | some imported => c.registry.find? imported
    | none =>
      c.registry.inPackage? c.file.package name
        <|> c.file.onDemand.findSome? (fun above => c.registry.find? ⟨above, name⟩)
        <|> c.registry.inPackage? FileScope.implicitPackage name
  found.map TypeSymbol.hash

/-- What a simple name means. -/
def simpleType? (c : Context) (name : String) : Option TypeHash :=
  if c.isTypeVar name then some .object else c.enclosingType? name <|> c.fileType? name

/-- What a dotted name means whose first `k` segments are a package. -/
def packageType? (c : Context) (segments : List String) (k : Nat) : Option TypeHash :=
  match segments.drop k with
  | [] => none
  | simple :: path =>
    (c.registry.inPackage? (joinDots (segments.take k)) simple).bind fun t =>
      c.memberPath? t.hash path

/-- **What a dotted name means.** -/
def namedType? (c : Context) : List String → Option TypeHash
  | [] => none
  | first :: rest =>
    ((c.simpleType? first).bind (c.memberPath? · rest))
      <|> (List.range rest.length).reverse.findSome? fun k => c.packageType? (first :: rest) (k + 1)

/-- Whether a dotted name is that of a package. -/
def isPackage (c : Context) (dotted : String) : Bool := c.registry.hasPackage dotted

/-! ### Types -/

/-- What the base of a type means. Type arguments do not matter. -/
def base (c : Context) (t : TypeExpr) : Except RegistrationFault TypeHash :=
  match t.base with
  | .primitive p => .ok (.ofPrimitive p)
  | .named path =>
    match c.namedType? path.names with
    | some h => .ok h
    | none => .error (.typeNotFound path.dotted)
  | .inferred => .error (.typeNotFound t.base.text)

/-- **What a type means**, erased. -/
def type (c : Context) (t : TypeExpr) : Except RegistrationFault DataType :=
  (c.base t).map (⟨·, t.dims⟩)

/-- What a type means, or else the root class with the same dimensions. -/
def typeOrObject (c : Context) (t : TypeExpr) : DataType :=
  ((c.type t).toOption).getD ⟨.object, t.dims⟩

/-- What is wrong with a type, and where. -/
def complaint (c : Context) (t : TypeExpr) : List (Span × RegistrationFault) :=
  match c.base t with
  | .ok _ => []
  | .error e => [(t.span, e)]

end Context

end JavaGraft

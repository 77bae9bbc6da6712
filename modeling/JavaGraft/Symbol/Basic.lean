import JavaGraft.Ast.Tree

/-!
# Symbols

What is known of a declared type once the syntax is left behind: its name, its kind and modifiers,
its supertypes by identity, and its members in the order of their declaration, with erased types.
A type's identity is that of its name.
-/

namespace JavaGraft

/-- The flags that a kind of type brings along. -/
def TypeKind.impliedFlags : TypeKind → Flags
  | classType => .none
  | interfaceType => .interfaceBit ||| .abstractBit
  | enumType => .enumBit
  | annotType => .interfaceBit ||| .annotationTypeBit ||| .abstractBit

/-- Whether the members of a kind of type are public without saying so. -/
def TypeKind.isInterfaceLike : TypeKind → Bool
  | interfaceType | annotType => true
  | classType | enumType => false

/-! ### Members -/

/-- The erased signature of a method. If `varargs` holds, the last parameter is an array that
collects any number of arguments. -/
structure Signature where
  params : List DataType
  result : DataType
  varargs : Bool
deriving DecidableEq, Repr

/-- Whether a call with `count` arguments can be meant. -/
def Signature.acceptsArity (s : Signature) (count : Nat) : Bool :=
  if s.varargs then s.params.length ≤ count + 1 else count == s.params.length

/-- A method or constructor. The type parameters are those of a generic method, `none` if the
method is not generic. -/
structure MethodSymbol where
  name : String
  owner : TypeHash
  flags : Flags
  typeParams : Option (List String)
  signature : Signature
deriving DecidableEq, Repr

namespace MethodSymbol

/-- What a parameter contributes to a method's identity. -/
def paramKey (t : DataType) : TypeHash := ⟨t.base.bits + UInt64.ofNat t.dims⟩

/-- The identity of this overload. -/
def hash (m : MethodSymbol) : TypeHash :=
  .ofMethod m.owner m.name (m.signature.params.map paramKey)

/-- Whether the method needs no instance. -/
def isStatic (m : MethodSymbol) : Bool := m.flags.contains .staticBit

/-- Whether the method is visible everywhere. -/
def isPublic (m : MethodSymbol) : Bool := m.flags.contains .publicBit

end MethodSymbol

/-- A field or enum constant. -/
structure FieldSymbol where
  name : String
  owner : TypeHash
  flags : Flags
  type : DataType
deriving DecidableEq, Repr

/-- A member of a type, member types apart. -/
inductive MemberSymbol where
  | method (symbol : MethodSymbol)
  | constructor (symbol : MethodSymbol)
  | field (symbol : FieldSymbol)
  | initializer (isStatic : Bool)
deriving DecidableEq, Repr

namespace MemberSymbol

/-- The name of a member; blocks that set up a type have none. -/
def name : MemberSymbol → String
  | method m | constructor m => m.name
  | field f => f.name
  | initializer _ => ""

/-- The modifiers of a member. -/
def flags : MemberSymbol → Flags
  | method m | constructor m => m.flags
  | field f => f.flags
  | initializer isStatic => if isStatic then .staticBit else .none

end MemberSymbol

/-! ### Types -/

/-- A declared type. A member type has the type around it in `outer`. -/
structure TypeSymbol where
  name : QualifiedName
  hash : TypeHash
  kind : TypeKind
  flags : Flags
  typeParams : List String
  superclass : Option TypeHash
  interfaces : List TypeHash
  members : List MemberSymbol
  outer : Option TypeHash
  hash_eq : hash = name.hash
deriving DecidableEq

namespace TypeSymbol

/-- A type without supertypes and members; what its kind implies is added to its flags. -/
def declared (name : QualifiedName) (kind : TypeKind) (flags : Flags) (typeParams : List String)
    (outer : Option TypeHash) : TypeSymbol where
  name := name
  hash := name.hash
  kind := kind
  flags := flags ||| kind.impliedFlags
  typeParams := typeParams
  superclass := none
  interfaces := []
  members := []
  outer := outer
  hash_eq := rfl

/-- The types directly above this one: the superclass, then the interfaces. -/
def parents (t : TypeSymbol) : List TypeHash := t.superclass.toList ++ t.interfaces

/-- The methods, without constructors. -/
def methods (t : TypeSymbol) : List MethodSymbol :=
  t.members.filterMap fun
    | .method m => some m
    | _ => none

/-- The constructors. -/
def constructors (t : TypeSymbol) : List MethodSymbol :=
  t.members.filterMap fun
    | .constructor m => some m
    | _ => none

/-- The fields and constants. -/
def fields (t : TypeSymbol) : List FieldSymbol :=
  t.members.filterMap fun
    | .field f => some f
    | _ => none

/-- The first field of a name that the type itself declares. -/
def field? (t : TypeSymbol) (name : String) : Option FieldSymbol :=
  t.fields.find? (·.name == name)

/-- An interface or annotation type. -/
def isInterface (t : TypeSymbol) : Bool := t.flags.contains .interfaceBit

end TypeSymbol

end JavaGraft

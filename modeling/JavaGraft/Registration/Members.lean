import JavaGraft.Scope.Context

/-!
# From a declaration to its symbols

The supertypes and members of a declared type, all types in them understood at the place of the
declaration. A type that means nothing there is taken for the root class, and complained about, so
that no signature is lost.

Some members are there without being written, or have modifiers without saying so: the constants of
an enum are public static final fields, and every enum has the methods `values` and `valueOf`; the
methods of an interface are public, and abstract if they have no body and are neither `default` nor
`static`; its fields are public, static and final.
-/

namespace JavaGraft

/-! ### Members -/

namespace Member

/-- The type variables that a member declares. -/
def typeVars : Member → List String
  | .method _ tps .. | .constructor _ tps .. => tps.map (·.name.name)
  | .field .. | .initializer .. | .type _ => []

/-- The types that a member's symbol depends on: the parameters, then the result. -/
def signatureTypes : Member → List TypeExpr
  | .field _ t _ _ => [t]
  | .method _ _ result _ ps _ _ _ _ => ps.map Param.type ++ [result]
  | .constructor _ _ _ ps _ _ _ => ps.map Param.type
  | .initializer .. | .type _ => []

end Member

/-- Whether the last parameter takes any number of arguments. -/
def takesAny (ps : List Param) : Bool := ps.getLast?.any Param.varargs

namespace Context

/-- The flags of a field of a kind of type. -/
def fieldFlags (kind : TypeKind) (written : Flags) : Flags :=
  if kind.isInterfaceLike then written ||| .publicBit ||| .staticBit ||| .finalBit else written

/-- The flags of a method of a kind of type. -/
def methodFlags (kind : TypeKind) (written : Flags) (hasBody varargs : Bool) : Flags :=
  let flags :=
    if kind.isInterfaceLike then
      let flags := written ||| .publicBit
      if !hasBody && !flags.meets (.defaultBit ||| .staticBit) then flags ||| .abstractBit
      else flags
    else written
  if varargs then flags ||| .varargsBit else flags

/-- The symbols of a member of the given type. Member types are not among them. -/
def memberSymbols (c : Context) (owner : TypeHash) (kind : TypeKind) (m : Member) :
    List MemberSymbol :=
  let c := c.addTypeVars m.typeVars
  match m with
  | .field mods t vars _ =>
    vars.map fun v =>
      .field ⟨v.name.name, owner, fieldFlags kind mods.flags, (c.typeOrObject t).withDims v.dims⟩
  | .method mods _ result name ps _ _ body _ =>
    let flags := methodFlags kind mods.flags body.isSome (takesAny ps)
    let typeParams := if m.typeVars.isEmpty then none else some m.typeVars
    let signature := ⟨ps.map (c.typeOrObject ·.type), c.typeOrObject result, takesAny ps⟩
    [.method ⟨name.name, owner, flags, typeParams, signature⟩]
  | .constructor mods _ _ ps _ _ _ =>
    let signature := ⟨ps.map (c.typeOrObject ·.type), .void, takesAny ps⟩
    [.constructor ⟨TypeHash.constructorName, owner, mods.flags, none, signature⟩]
  | .initializer isStatic _ _ => [.initializer isStatic]
  | .type _ => []

/-- The field of a constant. -/
def constantSymbol (owner : TypeHash) (name : String) : MemberSymbol :=
  .field ⟨name, owner, .publicBit ||| .staticBit ||| .finalBit, .simple owner⟩

/-- The methods that every enum has. -/
def enumMethods (owner : TypeHash) : List MemberSymbol :=
  let method := fun name params result =>
    .method ⟨name, owner, .publicBit ||| .staticBit, none, ⟨params, result, false⟩⟩
  [method "values" [] ((DataType.simple owner).withDims 1),
    method "valueOf" [.simple .string] (.simple owner)]

/-- The symbols of all members of a declared type. -/
def members (c : Context) (owner : TypeHash) (d : TypeDecl) : List MemberSymbol :=
  d.constants.map (constantSymbol owner ·.name.name)
    ++ d.members.flatMap (c.memberSymbols owner d.kind)
    ++ if d.kind = .enumType then enumMethods owner else []

/-! ### Supertypes -/

/-- The superclass that a declaration names, if it may name one: the root class may not. -/
def writtenSuperclass (owner : TypeHash) (d : TypeDecl) : Option TypeExpr :=
  if d.kind = .classType && owner != .object then d.superclass else none

/-- The superclass of a declared type. Interfaces and the root class have none, and an enum has the
class of enums if that is registered. -/
def superclass (c : Context) (owner : TypeHash) (d : TypeDecl) : Option TypeHash :=
  if d.kind.isInterfaceLike || owner == .object then none
  else if d.kind = .enumType then
    some ((c.registry.ofText? "java.lang.Enum").elim .object TypeSymbol.hash)
  else some (((writtenSuperclass owner d).bind fun t => (c.base t).toOption).getD .object)

/-- The interfaces of a declared type. -/
def interfaces (c : Context) (d : TypeDecl) : List TypeHash :=
  d.interfaces.filterMap fun t => (c.base t).toOption

/-! ### Complaints -/

/-- What is wrong with the types of a declaration: with its supertypes, then with the signatures of
its members. -/
def complaints (c : Context) (owner : TypeHash) (d : TypeDecl) : List (Span × RegistrationFault) :=
  (d.interfaces ++ (writtenSuperclass owner d).toList).flatMap c.complaint
    ++ d.members.flatMap fun m => m.signatureTypes.flatMap (c.addTypeVars m.typeVars).complaint

end Context

end JavaGraft

import JavaGraft.Name.Qualified
import JavaGraft.Name.XXHash

/-!
# Identities of types and members

A type is identified by a 64-bit hash of its dotted name, so the same name has the same identity
wherever it is met. A member's identity mixes its kind, its owner, its name and the identities of
its parameters, in order. The primitive types and the few library types that typing refers to have
fixed names, hence fixed identities.
-/

namespace JavaGraft

/-- The identity of a type or member. -/
structure TypeHash where
  bits : UInt64
deriving DecidableEq, Repr, Inhabited, Hashable

namespace TypeHash

/-! ### Types -/

/-- The identity of nothing. -/
def empty : TypeHash := ⟨0⟩

/-- What sets types apart from members. -/
def typeDomain : UInt64 := 0x2fac10b63a6cc57c

/-- The type of a dotted name. -/
def ofName (name : String) : TypeHash := ⟨typeDomain ^^^ XXHash.hashText name⟩

/-- The printed form: `0x` and sixteen hexadecimal digits. -/
def text (h : TypeHash) : String :=
  let digits := Nat.toDigits 16 h.bits.toNat
  "0x" ++ String.ofList (List.replicate (16 - digits.length) '0' ++ digits)

/-! ### Members -/

/-- What is put between a hash and the next parameter. -/
def separator : UInt64 := 0x4bc94d6bd06053ad

/-- The factors of the parameters, by position; they repeat after the eighth. -/
def positionFactors : List UInt64 := [
  0x9e3779b97f4a7c15, 0xbf58476d1ce4e5b9, 0x94d049bb133111eb, 0xd6e8feb86659fd93,
  0xe7037ed1a0b428db, 0xc6a4a7935bd1e995, 0x8648dbbc94d49b8d, 0xa2b48b2c69e0d657]

/-- The factor of the parameter at a position. -/
def positionFactor (i : Nat) : UInt64 := positionFactors.getD (i % 8) 0

/-- A hash takes the parameter at position `i`. -/
def mixParam (hash : UInt64) (i : Nat) (param : TypeHash) : UInt64 :=
  XXHash.rotateLeft hash 5 ^^^ separator ^^^ (param.bits * positionFactor i)

/-- A hash takes parameters, the first of which stands at position `i`. -/
def mixParams (hash : UInt64) (i : Nat) : List TypeHash → UInt64
  | [] => hash
  | p :: ps => mixParams (mixParam hash i p) (i + 1) ps

/-- The identity of a member of the given domain. -/
def ofMember (domain : UInt64) (owner : TypeHash) (name : String) (params : List TypeHash) :
    TypeHash :=
  ⟨mixParams (domain ^^^ XXHash.rotateLeft owner.bits 17 ^^^ XXHash.hashText name) 0 params⟩

/-- The name under which constructors are entered. -/
def constructorName : String := "<init>"

/-- The method of an owner with a name and erased parameter types. -/
def ofMethod (owner : TypeHash) (name : String) (params : List TypeHash) : TypeHash :=
  ofMember 0x7d3c8b4a92e15f6d owner name params

/-- The constructor of an owner with erased parameter types. -/
def ofConstructor (owner : TypeHash) (params : List TypeHash) : TypeHash :=
  ofMember 0x9a7f3d5e2b8c4601 owner constructorName params

/-- The field of an owner with a name. -/
def ofField (owner : TypeHash) (name : String) : TypeHash :=
  ofMember 0x1a095090689d4647 owner name []

end TypeHash

/-- The identity of the type that a qualified name denotes. -/
def QualifiedName.hash (n : QualifiedName) : TypeHash := TypeHash.ofName n.text

/-! ### Primitive and library types -/

/-- The primitive type keywords, `void` among them. -/
inductive Primitive where
  | void | boolean | byte | short | char | int | long | float | double
deriving DecidableEq, Repr, Inhabited

namespace Primitive

/-- All primitive type keywords. -/
def all : List Primitive := [void, boolean, byte, short, char, int, long, float, double]

/-- The keyword as written. -/
def keyword : Primitive → String
  | void => "void"
  | boolean => "boolean"
  | byte => "byte"
  | short => "short"
  | char => "char"
  | int => "int"
  | long => "long"
  | float => "float"
  | double => "double"

/-- The primitive type of a keyword. -/
def ofKeyword? (word : String) : Option Primitive := all.find? (·.keyword == word)

/-- The width of a numeric type in the order of promotion; `byte` is the narrowest. -/
def rank? : Primitive → Option Nat
  | byte => some 1
  | short | char => some 2
  | int => some 3
  | long => some 4
  | float => some 5
  | double => some 6
  | void | boolean => none

end Primitive

namespace TypeHash

/-- The identity of `void`. -/
def void : TypeHash := ofName "void"
/-- The identity of `boolean`. -/
def boolean : TypeHash := ofName "boolean"
/-- The identity of `byte`. -/
def byte : TypeHash := ofName "byte"
/-- The identity of `short`. -/
def short : TypeHash := ofName "short"
/-- The identity of `char`. -/
def char : TypeHash := ofName "char"
/-- The identity of `int`. -/
def int : TypeHash := ofName "int"
/-- The identity of `long`. -/
def long : TypeHash := ofName "long"
/-- The identity of `float`. -/
def float : TypeHash := ofName "float"
/-- The identity of `double`. -/
def double : TypeHash := ofName "double"
/-- The identity of the type of `null`, which has no name of its own. -/
def null : TypeHash := ofName "<null>"
/-- The identity of the root of all classes. -/
def object : TypeHash := ofName "java.lang.Object"
/-- The identity of the class of texts. -/
def string : TypeHash := ofName "java.lang.String"
/-- The identity of the class of class literals. -/
def classObject : TypeHash := ofName "java.lang.Class"

/-- The identity of a primitive type. -/
def ofPrimitive : Primitive → TypeHash
  | .void => void
  | .boolean => boolean
  | .byte => byte
  | .short => short
  | .char => char
  | .int => int
  | .long => long
  | .float => float
  | .double => double

/-- The primitive keyword with this identity. -/
def primitive? (h : TypeHash) : Option Primitive := Primitive.all.find? (ofPrimitive · == h)

/-- One of the eight primitive types of values; `void` is none of them. -/
def isPrimitive (h : TypeHash) : Bool :=
  [boolean, byte, short, char, int, long, float, double].contains h

/-- The width of a numeric primitive type in the order of promotion. -/
def rank? (h : TypeHash) : Option Nat := h.primitive?.bind Primitive.rank?

end TypeHash

end JavaGraft

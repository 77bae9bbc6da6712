import JavaGraft.Name.TypeHash

/-!
# Erased types

A `DataType` is what is left of a type once its type arguments are forgotten: the identity of its
base and the number of array dimensions. No type has more than 255 dimensions; adding more stops
there.
-/

namespace JavaGraft

/-- An erased type: a base and a number of array dimensions. -/
structure DataType where
  base : TypeHash
  dims : Nat
deriving DecidableEq, Repr, Inhabited

namespace DataType

/-- The greatest number of dimensions. -/
def maxDims : Nat := 255

/-- The type without dimensions. -/
def simple (base : TypeHash) : DataType := ⟨base, 0⟩

/-- The type of a method that returns nothing. -/
def void : DataType := simple .void

/-- The type of `null`. -/
def null : DataType := simple .null

/-- A type with at least one dimension. -/
def isArray (t : DataType) : Bool := decide (0 < t.dims)

/-- The type `void` itself. -/
def isVoid (t : DataType) : Bool := t == void

/-- One of the eight primitive types of values. -/
def isPrimitive (t : DataType) : Bool := t.dims == 0 && t.base.isPrimitive

/-- The type of the elements; a type without dimensions is left alone. -/
def element (t : DataType) : DataType := { t with dims := t.dims - 1 }

/-- The type with further dimensions. -/
def withDims (t : DataType) (extra : Nat) : DataType :=
  { t with dims := min (t.dims + extra) maxDims }

/-- The brackets of a number of dimensions. -/
def brackets (dims : Nat) : String := String.join (List.replicate dims "[]")

/-- The pairs of brackets that a reversed text starts with, and the rest of it. -/
def splitBrackets : List Char → Nat × List Char
  | ']' :: '[' :: cs => let (dims, rest) := splitBrackets cs; (dims + 1, rest)
  | cs => (0, cs)

/-- The type written as a dotted name followed by pairs of brackets. -/
def ofText (text : String) : DataType :=
  let (dims, rest) := splitBrackets text.toList.reverse
  ⟨.ofName (String.ofList rest.reverse), dims⟩

/-- The printed form: the identity of the base, then one pair of brackets per dimension. -/
def text (t : DataType) : String := t.base.text ++ brackets t.dims

end DataType

end JavaGraft

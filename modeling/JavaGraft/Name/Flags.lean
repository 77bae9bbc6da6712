/-!
# Modifier flags

The modifiers of a declaration as a set of bits, in the layout of class files, together with the
bits that record what kind of type is declared.
-/

namespace JavaGraft

/-- A set of modifiers and kind marks. -/
structure Flags where
  bits : UInt32
deriving DecidableEq, Repr, Inhabited

namespace Flags

/-- No modifier at all. -/
def none : Flags := ⟨0⟩
/-- Visible everywhere. -/
def publicBit : Flags := ⟨0x1⟩
/-- Visible in its own top-level type. -/
def privateBit : Flags := ⟨0x2⟩
/-- Visible to subclasses. -/
def protectedBit : Flags := ⟨0x4⟩
/-- Not bound to an instance. -/
def staticBit : Flags := ⟨0x8⟩
/-- Not to be changed, overridden or extended. -/
def finalBit : Flags := ⟨0x10⟩
/-- Entered under a lock. -/
def synchronizedBit : Flags := ⟨0x20⟩
/-- Not to be cached. -/
def volatileBit : Flags := ⟨0x40⟩
/-- Not to be serialised. -/
def transientBit : Flags := ⟨0x80⟩
/-- Implemented outside the language. -/
def nativeBit : Flags := ⟨0x100⟩
/-- The mark of interfaces and annotation types. -/
def interfaceBit : Flags := ⟨0x200⟩
/-- Without an implementation. -/
def abstractBit : Flags := ⟨0x400⟩
/-- With strict floating-point arithmetic. -/
def strictBit : Flags := ⟨0x800⟩
/-- The mark of annotation types. -/
def annotationTypeBit : Flags := ⟨0x2000⟩
/-- The mark of enums. -/
def enumBit : Flags := ⟨0x4000⟩
/-- A method whose last parameter takes any number of arguments. -/
def varargsBit : Flags := ⟨0x8000⟩
/-- An interface method with a body. -/
def defaultBit : Flags := ⟨0x10000⟩

/-- The union of two sets. -/
def union (f g : Flags) : Flags := ⟨f.bits ||| g.bits⟩

instance : OrOp Flags := ⟨union⟩

/-- The intersection of two sets. -/
def inter (f g : Flags) : Flags := ⟨f.bits &&& g.bits⟩

/-- Whether all of `g` is in `f`. -/
def contains (f g : Flags) : Bool := inter f g == g

/-- Whether some of `g` is in `f`. -/
def meets (f g : Flags) : Bool := inter f g != none

/-- Whether the set has no member. -/
def isEmpty (f : Flags) : Bool := f == none

/-- The modifier keywords and their flags. -/
def keywords : List (String × Flags) := [
  ("public", publicBit), ("private", privateBit), ("protected", protectedBit),
  ("static", staticBit), ("final", finalBit), ("synchronized", synchronizedBit),
  ("volatile", volatileBit), ("transient", transientBit), ("native", nativeBit),
  ("abstract", abstractBit), ("strictfp", strictBit), ("default", defaultBit)]

/-- The flag of a modifier keyword. -/
def ofKeyword? (word : String) : Option Flags := keywords.lookup word

/-- The flags that decide on visibility. -/
def access (f : Flags) : Flags := inter f (publicBit ||| privateBit ||| protectedBit)

end Flags

end JavaGraft

import JavaGraft.Ast.Tree
import JavaGraft.Name.DataType

/-!
# Boxes and promotion

Every primitive type of values has a class of objects that hold one such value, its box. Arithmetic
unboxes its operands and then promotes them: types narrower than `int` count as `int`, and of two
wider types the wider one is taken. A narrower numeric type widens to a wider one, but nothing else
widens to `char`.
-/

namespace JavaGraft

/-! ### Literals -/

/-- The type of a literal. -/
def Literal.type : Literal → DataType
  | int _ => .simple .int
  | long _ => .simple .long
  | float _ => .simple .float
  | double _ => .simple .double
  | char _ => .simple .char
  | string _ => .simple .string
  | bool _ => .simple .boolean
  | null => .null

/-! ### Boxes -/

namespace TypeHash

/-- The primitive types of values and their boxes. -/
def boxes : List (TypeHash × TypeHash) := [
  (boolean, ofName "java.lang.Boolean"), (byte, ofName "java.lang.Byte"),
  (short, ofName "java.lang.Short"), (char, ofName "java.lang.Character"),
  (int, ofName "java.lang.Integer"), (long, ofName "java.lang.Long"),
  (float, ofName "java.lang.Float"), (double, ofName "java.lang.Double")]

/-- The box of a primitive type. -/
def boxed? (h : TypeHash) : Option TypeHash := boxes.lookup h

/-- The primitive type that a box holds. -/
def unboxed? (h : TypeHash) : Option TypeHash := (boxes.find? (·.2 == h)).map Prod.fst

/-- Whether a value of one primitive type can be taken for one of another without a cast. -/
def widens (source target : TypeHash) : Bool :=
  source == target ||
    target != char &&
      match source.rank?, target.rank? with
      | some s, some t => decide (s < t)
      | _, _ => false

end TypeHash

/-! ### Promotion -/

namespace DataType

/-- The type of truth values. -/
def boolean : DataType := simple .boolean

/-- The class of texts. -/
def string : DataType := simple .string

/-- The root class. -/
def object : DataType := simple .object

/-- The primitive type behind a type: itself, or what it holds as a box. -/
def unboxed? (t : DataType) : Option DataType :=
  if t.isPrimitive then some t
  else if t.isArray then none
  else t.base.unboxed?.map simple

/-- The width of `int`. -/
def intRank : Nat := 3

/-- The type of an operand by itself. -/
def promoted? (t : DataType) : Option DataType :=
  t.unboxed?.bind fun t =>
    t.base.rank?.map fun rank => if rank ≤ intRank then simple .int else t

/-- The type of two unboxed operands together. -/
def promotedWith? (a b : DataType) : Option DataType :=
  match a.base.rank?, b.base.rank? with
  | some x, some y =>
    some (if max x y ≤ intRank then simple .int else if y ≤ x then a else b)
  | _, _ => none

end DataType

/-! ### Operators -/

/-- The type of a unary operation, given that of the operand. -/
def UnaryOp.type (op : UnaryOp) (operand : Option DataType) : Option DataType :=
  match op with
  | not => some .boolean
  | increment | decrement => operand
  | neg | plus | complement => operand.bind DataType.promoted?

/-- The type of a binary operation, given those of its operands. Adding to a text gives a text,
whatever is added. -/
def BinaryOp.type (op : BinaryOp) (left right : Option DataType) : Option DataType :=
  if op.isLogical || op.isComparison then some .boolean
  else if op = add && (left == some .string || right == some .string) then some .string
  else
    left.bind DataType.unboxed? |>.bind fun l =>
      if op.isShift then l.promoted?
      else
        right.bind DataType.unboxed? |>.bind fun r =>
          if op.isBitwise && l == .boolean && r == .boolean then some .boolean
          else l.promotedWith? r

end JavaGraft

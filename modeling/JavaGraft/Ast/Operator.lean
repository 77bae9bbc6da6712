import JavaGraft.Token.Kind

/-!
# Operators and how tightly they bind

Every operator has a *binding power*. A binary operator has one for each side; the right one is
greater by one, which makes the operator group to the left. Assignment has the same power on both
sides and groups to the right. From loose to tight: assignment, the conditional, the binary
operators by their levels, the unary operators, and what follows an operand directly.
-/

namespace JavaGraft

/-! ### Binary operators -/

/-- The binary operators, loosest first. -/
inductive BinaryOp where
  | or | and | bitOr | bitXor | bitAnd
  | equal | notEqual
  | less | lessEqual | greater | greaterEqual
  | shiftLeft | shiftRight | shiftRightUnsigned
  | add | sub | mul | div | mod
deriving DecidableEq, Repr

namespace BinaryOp

/-- The sign of an operator. -/
def sign : BinaryOp → Sign
  | or => .orOr
  | and => .andAnd
  | bitOr => .pipe
  | bitXor => .caret
  | bitAnd => .amp
  | equal => .eqEq
  | notEqual => .notEq
  | less => .less
  | lessEqual => .lessEq
  | greater => .greater
  | greaterEqual => .greaterEq
  | shiftLeft => .shl
  | shiftRight => .shr
  | shiftRightUnsigned => .ushr
  | add => .plus
  | sub => .minus
  | mul => .star
  | div => .slash
  | mod => .percent

/-- All binary operators. -/
def all : List BinaryOp := [or, and, bitOr, bitXor, bitAnd, equal, notEqual, less, lessEqual,
  greater, greaterEqual, shiftLeft, shiftRight, shiftRightUnsigned, add, sub, mul, div, mod]

/-- The operator of a sign. -/
def ofSign? (s : Sign) : Option BinaryOp := all.find? (·.sign = s)

/-- The level of an operator, from one for the loosest. -/
def level : BinaryOp → Nat
  | or => 1
  | and => 2
  | bitOr => 3
  | bitXor => 4
  | bitAnd => 5
  | equal | notEqual => 6
  | less | lessEqual | greater | greaterEqual => 7
  | shiftLeft | shiftRight | shiftRightUnsigned => 8
  | add | sub => 9
  | mul | div | mod => 10

/-- The binding power towards the left operand. -/
def leftPower (op : BinaryOp) : Nat := 2 * op.level + 1

/-- The binding power towards the right operand. -/
def rightPower (op : BinaryOp) : Nat := 2 * op.level + 2

/-- An operator that compares its operands. -/
def isComparison : BinaryOp → Bool
  | equal | notEqual | less | lessEqual | greater | greaterEqual => true
  | _ => false

/-- An operator on truth values that may skip its right operand. -/
def isLogical : BinaryOp → Bool
  | or | and => true
  | _ => false

/-- A shift. -/
def isShift : BinaryOp → Bool
  | shiftLeft | shiftRight | shiftRightUnsigned => true
  | _ => false

/-- An operator on the bits of its operands. -/
def isBitwise : BinaryOp → Bool
  | bitOr | bitXor | bitAnd => true
  | _ => false

end BinaryOp

/-! ### Unary operators -/

/-- The operators written before their operand. -/
inductive UnaryOp where
  | neg | plus | not | complement | increment | decrement
deriving DecidableEq, Repr

namespace UnaryOp

/-- The sign of an operator. -/
def sign : UnaryOp → Sign
  | neg => .minus
  | plus => .plus
  | not => .bang
  | complement => .tilde
  | increment => .plusPlus
  | decrement => .minusMinus

/-- The operator of a sign. -/
def ofSign? (s : Sign) : Option UnaryOp :=
  [neg, plus, not, complement, increment, decrement].find? (·.sign = s)

end UnaryOp

/-- The operators written behind their operand. -/
inductive UpdateOp where
  | increment | decrement
deriving DecidableEq, Repr

namespace UpdateOp

/-- The sign of an operator. -/
def sign : UpdateOp → Sign
  | increment => .plusPlus
  | decrement => .minusMinus

/-- The operator of a sign. -/
def ofSign? (s : Sign) : Option UpdateOp := [increment, decrement].find? (·.sign = s)

end UpdateOp

/-! ### Assignment operators -/

/-- Plain assignment, and assignments combined with a binary operator. -/
inductive AssignOp where
  | plain | add | sub | mul | div | mod | bitAnd | bitOr | bitXor
  | shiftLeft | shiftRight | shiftRightUnsigned
deriving DecidableEq, Repr

namespace AssignOp

/-- The sign of an operator. -/
def sign : AssignOp → Sign
  | plain => .assign
  | add => .plusAssign
  | sub => .minusAssign
  | mul => .starAssign
  | div => .slashAssign
  | mod => .percentAssign
  | bitAnd => .ampAssign
  | bitOr => .pipeAssign
  | bitXor => .caretAssign
  | shiftLeft => .shlAssign
  | shiftRight => .shrAssign
  | shiftRightUnsigned => .ushrAssign

/-- All assignment operators. -/
def all : List AssignOp := [plain, add, sub, mul, div, mod, bitAnd, bitOr, bitXor, shiftLeft,
  shiftRight, shiftRightUnsigned]

/-- The operator of a sign. -/
def ofSign? (s : Sign) : Option AssignOp := all.find? (·.sign = s)

end AssignOp

/-! ### Powers of the other forms -/

namespace Power

/-- The binding power of an assignment, on both sides. -/
def assignment : Nat := 1

/-- The binding power of the conditional operator. -/
def conditional : Nat := 2

/-- The binding power of `instanceof`, that of the relational operators. -/
def instanceOf : Nat := 15

/-- The binding power of unary operators and casts. -/
def unary : Nat := 25

/-- The binding power of member access, calls, indexing and updates. -/
def access : Nat := 27

end Power

end JavaGraft

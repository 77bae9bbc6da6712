import JavaGraft.Grammar.Rules

/-!
# Parsing types

A type is a primitive type, the word `var` before a name, or a dotted name of which each segment
may have type arguments; those of the last one are kept. Annotations before a type are read and
dropped. Brackets behind a type count its dimensions.
-/

namespace JavaGraft.Grammar

open JavaGraft.Parser

/-! ### Names -/

/-- The primitive type of a keyword. -/
def primitiveOf? : TokenKind → Option Primitive
  | .keyword w =>
    match w with
    | .kwVoid => some .void
    | .kwBoolean => some .boolean
    | .kwByte => some .byte
    | .kwShort => some .short
    | .kwChar => some .char
    | .kwInt => some .int
    | .kwLong => some .long
    | .kwFloat => some .float
    | .kwDouble => some .double
    | _ => none
  | _ => none

/-- A further segment of a dotted name, if there is one. -/
def nextSegment? : Parser (Option Ident) := do
  if (← get).next.kind = Sign.dot ∧ ((← get).nth 1).kind = .identifier then
    discard advance
    return some (← identifier)
  else return none

/-- A dotted name. -/
def path (g : Rules) : Parser Path := do
  let first ← identifier
  let others ← collect g.rounds nextSegment?
  return ⟨first :: others, ← spanFrom first.span⟩

/-! ### Type arguments -/

/-- A type argument. -/
def typeArg (g : Rules) : Parser TypeArg := do
  match ← eat? Sign.question with
  | some mark =>
    if ← eat Keyword.kwExtends then
      let bound ← g.type
      return .upper bound (← spanFrom mark.span)
    else if ← eat Keyword.kwSuper then
      let bound ← g.type
      return .lower bound (← spanFrom mark.span)
    else return .wildcard (← spanFrom mark.span)
  | none => return .type (← g.type)

/-- Type arguments in angles; there may be none between them. -/
def typeArgs (g : Rules) : Parser (List TypeArg) := do
  discard (expect Sign.less)
  let args ← if ← check Sign.greater then pure [] else sepBy g.rounds Sign.comma (typeArg g)
  closeAngle
  return args

/-- Type arguments in angles, if there are any. -/
def typeArgs? (g : Rules) : Parser (List TypeArg) := do
  if ← check Sign.less then typeArgs g else return []

/-- The bounds of a type parameter. -/
def bounds (g : Rules) : Parser (List TypeExpr) := do
  if ← eat Keyword.kwExtends then sepBy g.rounds Sign.amp g.type else return []

/-- A type parameter. -/
def typeParam (g : Rules) : Parser TypeParam := do
  let name ← identifier
  let bounds ← bounds g
  return ⟨name, bounds, ← spanFrom name.span⟩

/-- Type parameters in angles, if there are any. -/
def typeParams (g : Rules) : Parser (List TypeParam) := do
  if ← eat Sign.less then
    let params ← sepBy g.rounds Sign.comma (typeParam g)
    closeAngle
    return params
  else return []

/-! ### Types -/

/-- The segments of a named type, and the type arguments of the last one. -/
def namedType (g : Rules) : Parser (List Ident × List TypeArg) :=
  iterate (fun found : List Ident => do
    let name ← identifier
    let args ← typeArgs? g
    if (← get).next.kind = Sign.dot ∧ ((← get).nth 1).kind = .identifier then
      discard advance
      return .inl (name :: found)
    else return .inr ((name :: found).reverse, args)) g.rounds []

/-- A type without brackets. -/
def plainType (g : Rules) : Parser TypeExpr := do
  let t ← peek
  match primitiveOf? t.kind with
  | some p =>
    discard advance
    return ⟨.primitive p, [], 0, t.span⟩
  | none =>
    if t.kind ≠ .identifier then rejectNext .expectedType
    else if t.text = "var" ∧ ((← get).nth 1).kind = .identifier then
      discard advance
      return ⟨.inferred, [], 0, t.span⟩
    else
      let (names, args) ← namedType g
      let span ← spanFrom t.span
      return ⟨.named ⟨names, span⟩, args, 0, span⟩

/-- An annotation, if one follows that is not the declaration of an annotation type. -/
def annot? (g : Rules) : Parser (Option Annot) := do
  if (← get).next.kind = Sign.atSign ∧ ((← get).nth 1).kind ≠ Keyword.kwInterface then
    return some (← g.annot)
  else return none

/-- **A type.** Without brackets, its span is that of the type before them. -/
def type (g : Rules) : Parser TypeExpr := do
  discard (collect g.rounds (annot? g))
  let plain ← plainType g
  let n ← dims
  if n = 0 then return plain
  else return { plain with dims := n, span := ← spanFrom plain.span }

/-- Types with commas between them. -/
def typeList (g : Rules) : Parser (List TypeExpr) := sepBy g.rounds Sign.comma g.type

/-- Types behind a keyword, if it follows. -/
def typesBehind (g : Rules) (word : Keyword) : Parser (List TypeExpr) := do
  if ← eat word then typeList g else return []

end JavaGraft.Grammar

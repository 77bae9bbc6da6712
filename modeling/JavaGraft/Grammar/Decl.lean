import JavaGraft.Grammar.Stmt

/-!
# Parsing declarations

Members, types and whole source files. A constructor is told from a method by bearing the name of
its class; in an anonymous body there are none. Errors within a member, an import or a type are
recorded, and reading goes on at the next one.
-/

namespace JavaGraft.Grammar

open JavaGraft.Parser

/-! ### Members -/

/-- A parameter. Brackets behind the name count as brackets of the type. -/
def param (g : Rules) : Parser Param := do
  let start := (← peek).span
  let modifiers ← modifiers g
  let type ← g.type
  let varargs ← eat Sign.ellipsis
  let name ← identifier
  let n ← dims
  let type := type.addDims (if varargs then n + 1 else n)
  return ⟨modifiers, type, varargs, name, ← spanFrom start⟩

/-- Parameters in parentheses. -/
def params (g : Rules) : Parser (List Param) := do
  discard (expect Sign.lparen)
  let ps ← if ← check Sign.rparen then pure [] else sepBy g.rounds Sign.comma (param g)
  discard (expect Sign.rparen)
  return ps

/-- A block that sets up the class or an instance. -/
def initializer (g : Rules) : Parser Member := do
  let start := (← peek).span
  let isStatic ← eat Keyword.kwStatic
  let body ← g.block
  return .initializer isStatic body (← spanFrom start)

/-- A constructor, from its name on. -/
def constructor (g : Rules) (modifiers : Modifiers) (typeParams : List TypeParam) (start : Span) :
    Parser Member := do
  let name ← identifier
  let ps ← params g
  let throws ← typesBehind g .kwThrows
  let body ← g.block
  return .constructor modifiers typeParams name ps throws body (← spanFrom start)

/-- A method, from its name on. Brackets behind the parameters count as brackets of the returned
type. -/
def method (g : Rules) (modifiers : Modifiers) (typeParams : List TypeParam)
    (returnType : TypeExpr) (start : Span) : Parser Member := do
  let name ← identifier
  let ps ← params g
  let returnType := returnType.addDims (← dims)
  let throws ← typesBehind g .kwThrows
  let default ← if ← eat Keyword.kwDefault then some <$> g.element else pure none
  let body ← if ← eat Sign.semicolon then pure none else some <$> g.block
  return .method modifiers typeParams returnType name ps throws default body (← spanFrom start)

/-- Fields, from the first name on. -/
def fields (g : Rules) (modifiers : Modifiers) (type : TypeExpr) (start : Span) :
    Parser Member := do
  let vars ← varDeclarators g
  discard (expect Sign.semicolon)
  return .field modifiers type vars (← spanFrom start)

/-- A constructor, method or field, from its type parameters on. -/
def typedMember (g : Rules) (typeName : String) (modifiers : Modifiers) (start : Span) :
    Parser Member := do
  let typeParams ← typeParams g
  let t ← peek
  if t.kind = .identifier ∧ typeName ≠ "" ∧ t.text = typeName ∧
      ((← get).nth 1).kind = Sign.lparen then
    constructor g modifiers typeParams start
  else
    let type ← g.type
    if (← get).next.kind = .identifier ∧ ((← get).nth 1).kind = Sign.lparen then
      method g modifiers typeParams type start
    else fields g modifiers type start

/-- A member of the class with the given name; a semicolon alone is none. -/
def member (g : Rules) (typeName : String) : Parser (Option Member) := do
  let start := (← peek).span
  if ← eat Sign.semicolon then return none
  else if (← get).next.kind = Sign.lbrace ∨
      ((← get).next.kind = Keyword.kwStatic ∧ ((← get).nth 1).kind = Sign.lbrace) then
    return some (← initializer g)
  else
    let modifiers ← modifiers g
    if startsTypeDecl (← peek).kind then return some (.type (← g.typeDecl modifiers))
    else return some (← typedMember g typeName modifiers start)

/-- Members up to a closing brace; the ones with errors are left out. -/
def members (g : Rules) (typeName : String) : Parser (List Member) :=
  collectWhile g.rounds (before Sign.rbrace) (recovering (member g typeName))

/-- **Members in braces.** -/
def classBody (g : Rules) (typeName : String) : Parser (List Member) := do
  discard (expect Sign.lbrace)
  let ms ← members g typeName
  discard (expect Sign.rbrace)
  return ms

/-! ### Types -/

/-- A constant of an enum. -/
def enumConstant (g : Rules) : Parser EnumConstant := do
  let start := (← peek).span
  let annots ← collect g.rounds (do
    if ← check Sign.atSign then return some (← g.annot) else return none)
  let name ← identifier
  let args ← if ← check Sign.lparen then arguments g else pure []
  if ← check Sign.lbrace then
    let body ← g.classBody ""
    return .withBody annots name args body (← spanFrom start)
  else return .plain annots name args (← spanFrom start)

/-- The constants of an enum, up to a semicolon or the closing brace. -/
def enumConstants (g : Rules) : Parser (List EnumConstant) :=
  iterate (fun found : List EnumConstant => do
    let kind ← kindAt 0
    if kind = Sign.semicolon ∨ kind = Sign.rbrace ∨ kind = .endOfSource then
      return .inr found.reverse
    else
      let c ← enumConstant g
      if ← eat Sign.comma then return .inl (c :: found)
      else return .inr (c :: found).reverse) g.rounds []

/-- The constants and members of an enum, in braces. -/
def enumBody (g : Rules) (typeName : String) : Parser (List EnumConstant × List Member) := do
  discard (expect Sign.lbrace)
  let constants ← enumConstants g
  let ms ← if ← eat Sign.semicolon then members g typeName else pure []
  discard (expect Sign.rbrace)
  return (constants, ms)

/-- The words that declare a type, with the kind they declare. -/
def typeKind : Parser TypeKind := do
  let s ← get
  match s.next.kind with
  | .keyword .kwClass => discard advance; return .classType
  | .keyword .kwInterface => discard advance; return .interfaceType
  | .keyword .kwEnum => discard advance; return .enumType
  | .sign .atSign =>
    if (s.nth 1).kind = Keyword.kwInterface then
      discard advance
      discard advance
      return .annotType
    else rejectNext .expectedDeclaration
  | _ => rejectNext .expectedDeclaration

/-- The superclass and the interfaces of a type of a kind. -/
def supertypes (g : Rules) : TypeKind → Parser (Option TypeExpr × List TypeExpr)
  | .classType => do
    let superclass ← if ← eat Keyword.kwExtends then some <$> g.type else pure none
    return (superclass, ← typesBehind g .kwImplements)
  | .interfaceType => return (none, ← typesBehind g .kwExtends)
  | .enumType => return (none, ← typesBehind g .kwImplements)
  | .annotType => return (none, [])

/-- **The declaration of a type** behind its modifiers. -/
def typeDecl (g : Rules) (modifiers : Modifiers) : Parser TypeDecl := do
  let first := (← peek).span
  let start := if modifiers.span.isEmpty then first else modifiers.span
  let kind ← typeKind
  let name ← identifier
  let typeParams ← typeParams g
  let (superclass, interfaces) ← supertypes g kind
  let (constants, ms) ←
    if kind = .enumType then enumBody g name.name
    else pure ([], ← g.classBody name.name)
  return ⟨modifiers, kind, name, typeParams, superclass, interfaces, constants, ms,
    ← spanFrom start⟩

/-! ### Source files -/

/-- The package of a source file. -/
def package (g : Rules) : Parser Path := do
  discard (expect Keyword.kwPackage)
  let name ← path g
  discard (expect Sign.semicolon)
  return name

/-- The segments of an import, and whether a star follows them. -/
def importSegments (g : Rules) : Parser (List Ident × Bool) := do
  let first ← identifier
  iterate (fun found : List Ident => do
    if ← eat Sign.dot then
      if ← eat Sign.star then return .inr (found.reverse, true)
      else return .inl ((← identifier) :: found)
    else return .inr (found.reverse, false)) g.rounds [first]

/-- An import. -/
def importDecl (g : Rules) : Parser ImportDecl := do
  let start := (← expect Keyword.kwImport).span
  let isStatic ← eat Keyword.kwStatic
  let first := (← peek).span
  let (names, onDemand) ← importSegments g
  let span ← spanFrom first
  discard (expect Sign.semicolon)
  return ⟨⟨names, span⟩, isStatic, onDemand, ← spanFrom start⟩

/-- A type with its modifiers; a semicolon alone is none. -/
def topLevel (g : Rules) : Parser (Option TypeDecl) := do
  if ← eat Sign.semicolon then return none
  else
    let modifiers ← modifiers g
    return some (← g.typeDecl modifiers)

/-- **A source file**: the package, the imports and the types; the ones with errors are left
out. -/
def sourceUnit (g : Rules) : Parser SourceUnit := do
  let start := (← peek).span
  let name ←
    if ← check Keyword.kwPackage then recovering (some <$> package g) else pure none
  let imports ← collectWhile g.rounds (check Keyword.kwImport) (recovering (some <$> importDecl g))
  let types ← collectWhile g.rounds (return !(← atEnd)) (recovering (topLevel g))
  return ⟨name, imports, types, ← spanFrom start⟩

end JavaGraft.Grammar

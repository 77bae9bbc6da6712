import JavaGraft.Grammar.Type

/-!
# Parsing modifiers and annotations

Modifier keywords and annotations come in any order. A modifier that is repeated is an error, but
does not stop the parser. `default` before a colon or an arrow and `synchronized` before a
parenthesis are no modifiers.
-/

namespace JavaGraft.Grammar

open JavaGraft.Parser

/-! ### Annotations -/

/-- Items of a list of element values in braces, and the span of the braces. -/
def elementList (g : Rules) : Parser Element := do
  let first ← expect Sign.lbrace
  let items ← sepUntil g.rounds Sign.comma Sign.rbrace g.element
  let last ← expect Sign.rbrace
  return .array items (first.span.merge last.span)

/-- The value of an annotation's element: an annotation, a list, or an expression. -/
def element (g : Rules) : Parser Element := do
  match (← peek).kind with
  | .sign .atSign => return .annot (← g.annot)
  | .sign .lbrace => elementList g
  | _ => return .expr (← g.expr Power.conditional)

/-- An argument with the name of its element. -/
def namedArg (g : Rules) : Parser AnnotArg := do
  let name ← identifier
  discard (expect Sign.assign)
  let value ← g.element
  return ⟨some name, value, ← spanFrom name.span⟩

/-- The arguments of an annotation, without their parentheses. -/
def annotArgs (g : Rules) : Parser (List AnnotArg) := do
  if (← get).next.kind = .identifier ∧ ((← get).nth 1).kind = Sign.assign then
    sepBy g.rounds Sign.comma (namedArg g)
  else if ← check Sign.rparen then return []
  else
    let value ← g.element
    return [⟨none, value, value.span⟩]

/-- **An annotation.** -/
def annot (g : Rules) : Parser Annot := do
  let start := (← expect Sign.atSign).span
  let name ← path g
  let args ←
    if ← eat Sign.lparen then
      let args ← annotArgs g
      discard (expect Sign.rparen)
      pure args
    else pure []
  return ⟨name, args, ← spanFrom start⟩

/-! ### Modifiers -/

/-- The flag of a modifier keyword, unless the token after it shows that it is none. -/
def modifierFlag? (t following : Token) : Option Flags :=
  let isModifier :=
    match t.kind with
    | .keyword .kwDefault => following.kind ≠ Sign.colon && following.kind ≠ Sign.arrow
    | .keyword .kwSynchronized => following.kind ≠ Sign.lparen
    | kind => kind.isModifier
  if isModifier then Flags.ofKeyword? t.text else none

/-- Takes one modifier or annotation, if one follows. -/
def modifierStep (g : Rules) (found : Flags × List Annot) :
    Parser ((Flags × List Annot) ⊕ (Flags × List Annot)) := do
  let (flags, annots) := found
  match ← annot? g with
  | some a => return .inl (flags, a :: annots)
  | none =>
    let t ← peek
    match modifierFlag? t ((← get).nth 1) with
    | none => return .inr (flags, annots.reverse)
    | some flag =>
      discard advance
      if flags.contains flag then record ⟨.duplicateModifier t.text, t.span⟩
      return .inl (flags ||| flag, annots)

/-- **Modifiers and annotations**; without any, the span is empty. -/
def modifiers (g : Rules) : Parser Modifiers := do
  let start := (← peek).span
  let (flags, annots) ← iterate (modifierStep g) g.rounds (.none, [])
  let s ← get
  let span :=
    if !s.consumed.isEmpty && start.offset ≤ s.previous.span.offset then
      start.merge s.previous.span
    else start.atStart
  return ⟨flags, annots, span⟩

/-- Whether the declaration of a type goes on with a token, once its modifiers are read. -/
def startsTypeDecl (kind : TokenKind) : Bool :=
  kind = Keyword.kwClass || kind = Keyword.kwInterface || kind = Keyword.kwEnum ||
    kind = Sign.atSign

end JavaGraft.Grammar

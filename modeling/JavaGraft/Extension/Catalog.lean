import JavaGraft.Extension.Marker
import JavaGraft.Typing.Attribution

/-!
# Which methods are offered

Each listed provider is looked at by itself. It must be the literal of a known class or enum; then
it offers its public static methods that take at least one parameter. A provider that offers
nothing for any other reason is passed over in silence, but the catalog says why.
-/

namespace JavaGraft

/-- An accepted provider and the methods it offers, in the order of their declaration. -/
structure Extension where
  provider : TypeHash
  name : QualifiedName
  methods : List MethodSymbol
deriving DecidableEq, Repr

/-- What became of a listed provider. -/
inductive ProviderOutcome where
  | accepted (extension : Extension)
  | rejectedKind (name : QualifiedName) (kind : TypeKind)
  | unresolvedType (span : Span)
  | notClassLiteral (span : Span)
deriving DecidableEq, Repr

/-- What became of the providers, in the order in which they are listed. -/
structure Catalog where
  outcomes : List ProviderOutcome
deriving DecidableEq, Repr

/-- Whether a method can be called like a method of its first parameter. -/
def MethodSymbol.isEligible (m : MethodSymbol) : Bool :=
  m.isStatic && m.isPublic && !m.signature.params.isEmpty

/-- The methods that a type can offer. -/
def TypeSymbol.eligibleMethods (t : TypeSymbol) : List MethodSymbol :=
  t.methods.filter MethodSymbol.isEligible

namespace Catalog

/-- The accepted providers. -/
def extensions (c : Catalog) : List Extension :=
  c.outcomes.filterMap fun
    | .accepted e => some e
    | _ => none

/-- The number of methods offered. -/
def methodCount (c : Catalog) : Nat := (c.extensions.flatMap (·.methods)).length

/-- Whether no method is offered. -/
def isEmpty (c : Catalog) : Bool := c.methodCount == 0

/-- What becomes of a known type as a provider. -/
def ofSymbol (t : TypeSymbol) : ProviderOutcome :=
  if t.kind.isInterfaceLike then .rejectedKind t.name t.kind
  else .accepted ⟨t.hash, t.name, t.eligibleMethods⟩

/-- What becomes of a listed provider. -/
def classify (a : Attribution) (site : Site) (provider : Element) : ProviderOutcome :=
  match provider with
  | .expr e =>
    match e.unparenthesized with
    | .classLit type span => (a.resolveType site type).elim (.unresolvedType span) ofSymbol
    | _ => .notClassLiteral e.span
  | other => .notClassLiteral other.span

/-- The catalog of an annotation on a type of the given kind, or how the annotation is misused. -/
def ofAnnot (a : Attribution) (site : Site) (kind : TypeKind) (annot : Annot) :
    Except UsageError Catalog :=
  if kind.isInterfaceLike then .error .notClassOrEnum
  else if annot.providers.isEmpty then .error .noExtensionTypes
  else .ok ⟨annot.providers.map (classify a site)⟩

end Catalog

end JavaGraft

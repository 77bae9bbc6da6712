import JavaGraft.Name.DataType
import JavaGraft.Text.Span

/-!
# Names and types as written

An `Ident` is a name with its place, a `Path` several of them with dots between. A `TypeExpr` is a
type as it stands in the source: a primitive type, a path, or the word that asks for inference,
followed by type arguments and by pairs of brackets. Its text is the usual one, with a comma and a
blank between arguments.
-/

namespace JavaGraft

/-! ### Names -/

/-- A name and its place. -/
structure Ident where
  name : String
  span : Span
deriving DecidableEq, Repr

/-- A dotted name, segment by segment. -/
structure Path where
  segments : List Ident
  span : Span
deriving DecidableEq, Repr

namespace Path

/-- The names of the segments. -/
def names (p : Path) : List String := p.segments.map Ident.name

/-- The dotted text. -/
def dotted (p : Path) : String := joinDots p.names

/-- A single segment. -/
def isSimple (p : Path) : Bool := p.segments.length == 1

/-- The name of the last segment. -/
def last (p : Path) : String := p.names.getLastD ""

end Path

/-! ### Types -/

/-- What a type starts with. -/
inductive TypeBase where
  | primitive (p : Primitive)
  | named (path : Path)
  | inferred
deriving DecidableEq, Repr

/-- The base as written. -/
def TypeBase.text : TypeBase → String
  | primitive p => p.keyword
  | named path => path.dotted
  | inferred => "var"

mutual

/-- A type as written. The type arguments are those of the last segment of its name. -/
structure TypeExpr where
  base : TypeBase
  args : List TypeArg
  dims : Nat
  span : Span

/-- A type argument: a type, or a wildcard without bound or with an upper or lower one. -/
inductive TypeArg where
  | type (type : TypeExpr)
  | wildcard (span : Span)
  | upper (bound : TypeExpr) (span : Span)
  | lower (bound : TypeExpr) (span : Span)

end

deriving instance Repr for TypeExpr, TypeArg

mutual

/-- Whether two types are the same. -/
def TypeExpr.same : TypeExpr → TypeExpr → Bool
  | ⟨base, args, dims, span⟩, ⟨base', args', dims', span'⟩ =>
    base == base' && TypeArg.allSame args args' && dims == dims' && span == span'

/-- Whether two type arguments are the same. -/
def TypeArg.same : TypeArg → TypeArg → Bool
  | .type t, .type t' => t.same t'
  | .wildcard s, .wildcard s' => s == s'
  | .upper t s, .upper t' s' | .lower t s, .lower t' s' => t.same t' && s == s'
  | _, _ => false

/-- Whether two lists of type arguments are the same. -/
def TypeArg.allSame : List TypeArg → List TypeArg → Bool
  | [], [] => true
  | a :: as, b :: bs => a.same b && TypeArg.allSame as bs
  | _, _ => false

end

mutual

theorem TypeExpr.same_iff : ∀ t u : TypeExpr, t.same u = true ↔ t = u
  | ⟨_, args, _, _⟩, u => by cases u; simp [TypeExpr.same, TypeArg.allSame_iff args, and_assoc]

theorem TypeArg.same_iff : ∀ a b : TypeArg, a.same b = true ↔ a = b
  | .type t, b => by cases b <;> simp [TypeArg.same, TypeExpr.same_iff t]
  | .wildcard _, b => by cases b <;> simp [TypeArg.same]
  | .upper t _, b => by cases b <;> simp [TypeArg.same, TypeExpr.same_iff t]
  | .lower t _, b => by cases b <;> simp [TypeArg.same, TypeExpr.same_iff t]

theorem TypeArg.allSame_iff : ∀ as bs : List TypeArg, TypeArg.allSame as bs = true ↔ as = bs
  | [], bs => by cases bs <;> simp [TypeArg.allSame]
  | a :: as, bs => by
    cases bs <;> simp [TypeArg.allSame, TypeArg.same_iff a, TypeArg.allSame_iff as]

end

instance : DecidableEq TypeExpr := fun t u => decidable_of_iff _ (t.same_iff u)

instance : DecidableEq TypeArg := fun a b => decidable_of_iff _ (a.same_iff b)

mutual

/-- The type in its usual text. -/
def TypeExpr.text : TypeExpr → String
  | ⟨base, args, dims, _⟩ =>
    let inner := TypeExpr.argTexts args
    let list := if inner.isEmpty then "" else "<" ++ ", ".intercalate inner ++ ">"
    base.text ++ list ++ DataType.brackets dims

/-- Type arguments in their usual texts. -/
def TypeExpr.argTexts : List TypeArg → List String
  | [] => []
  | .type t :: rest => t.text :: TypeExpr.argTexts rest
  | .wildcard _ :: rest => "?" :: TypeExpr.argTexts rest
  | .upper t _ :: rest => ("? extends " ++ t.text) :: TypeExpr.argTexts rest
  | .lower t _ :: rest => ("? super " ++ t.text) :: TypeExpr.argTexts rest

end

namespace TypeExpr

/-- The type of methods that return nothing. -/
def isVoid (t : TypeExpr) : Bool := t.dims == 0 && t.base == .primitive .void

/-- Whether the type is to be inferred. -/
def isInferred (t : TypeExpr) : Bool := t.base == .inferred

/-- The type with further pairs of brackets. -/
def addDims (t : TypeExpr) (extra : Nat) : TypeExpr := { t with dims := t.dims + extra }

end TypeExpr

/-- A type parameter with its bounds. -/
structure TypeParam where
  name : Ident
  bounds : List TypeExpr
  span : Span
deriving DecidableEq, Repr

end JavaGraft

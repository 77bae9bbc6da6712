import JavaGraft.Symbol.Hierarchy
import JavaGraft.Typing.Promotion

/-!
# Which method a call means

Of the methods of a name, those that take the number of arguments are considered, nearest first.
The first whose parameters have exactly the types of the arguments is meant, else the first to
which all arguments can be assigned, else simply the first. An argument whose type is not known
can be assigned to everything.
-/

namespace JavaGraft.Registry

/-! ### Assignment -/

/-- Whether a value of a known type can be assigned to a variable. -/
def assignsType (r : Registry) (source target : DataType) : Bool :=
  if source == target then true
  else if source == .null then !target.isPrimitive
  else if target.isPrimitive then
    source.unboxed?.any fun s => s.base.widens target.base
  else if source.isPrimitive then
    source.base.boxed?.any fun b => r.isSubtype b target.base && target.dims == 0
  else if target == .object then true
  else source.dims == target.dims && r.isSubtype source.base target.base

/-- Whether an argument can be assigned to a parameter. -/
def assigns (r : Registry) (argument : Option DataType) (param : DataType) : Bool :=
  argument.all fun t => r.assignsType t param

/-- Whether the argument at a position fits a signature. The last parameter of a method that takes
any number of arguments takes one of them or all of them as an array. -/
def accepts (r : Registry) (s : Signature) (i : Nat) (argument : Option DataType) : Bool :=
  match s.params[i]?, s.params.getLast? with
  | _, none => false
  | param, some last =>
    if s.varargs && s.params.length ≤ i + 1 then
      r.assigns argument last.element || i + 1 == s.params.length && r.assigns argument last
    else param.any (r.assigns argument)

/-! ### Choice -/

/-- Whether the parameters have exactly the types of the arguments. -/
def matchesExactly (s : Signature) (args : List (Option DataType)) : Bool :=
  !s.varargs && (s.params.zip args).all fun (p, a) => a == some p

/-- Whether all arguments fit a signature. -/
def acceptsAll (r : Registry) (s : Signature) (args : List (Option DataType)) : Bool :=
  args.zipIdx.all fun (a, i) => r.accepts s i a

/-- **The result type of the method that a call means.** -/
def select (r : Registry) (candidates : List MethodSymbol) (args : List (Option DataType)) :
    Option DataType :=
  let applicable := (candidates.map MethodSymbol.signature).filter (·.acceptsArity args.length)
  let chosen := applicable.find? (matchesExactly · args)
    <|> applicable.find? (r.acceptsAll · args)
    <|> applicable.head?
  chosen.map Signature.result

/-- The type of a conditional expression, given those of its branches: the one that the other fits,
a promoted number type, or the root class. -/
def joinTypes (r : Registry) (a b : DataType) : DataType :=
  let number := a.unboxed?.bind fun x => b.unboxed?.bind fun y => x.promotedWith? y
  if a == b || b == .null then a
  else if a == .null then b
  else
    match number with
    | some t => t
    | none =>
      if a.dims == b.dims && r.isSubtype a.base b.base then b
      else if a.dims == b.dims && r.isSubtype b.base a.base then a
      else .object

end JavaGraft.Registry

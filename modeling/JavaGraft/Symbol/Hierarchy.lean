import JavaGraft.Symbol.Registry

/-!
# Supertypes and inherited members

The supertypes of a type are found level by level: the type itself, the types directly above it,
those above these, and so on, each type where it is met first. Parents that are not registered are
passed over. The root class comes last if no way led to it, because interfaces have its members
too. Members are looked for in this order, so that the nearest declaration is found first.
-/

namespace JavaGraft.Registry

/-! ### Levels -/

/-- One level: of the types not met before, those with the given identities, and what remains
unmet. -/
def level : List TypeHash → List TypeSymbol → List TypeSymbol × List TypeSymbol
  | [], unmet => ([], unmet)
  | h :: hs, unmet =>
    match unmet.find? (·.hash == h) with
    | none => level hs unmet
    | some t =>
      let (met, unmet) := level hs (unmet.filter (·.hash != h))
      (t :: met, unmet)

/-- At most `n` levels, from the given identities upwards. -/
def levels : Nat → List TypeHash → List TypeSymbol → List TypeSymbol
  | 0, _, _ => []
  | n + 1, hs, unmet =>
    match level hs unmet with
    | ([], _) => []
    | (met, unmet) => met ++ levels n (met.flatMap TypeSymbol.parents) unmet

/-- **The type of an identity and its supertypes**, nearest first. -/
def supertypes (r : Registry) (hash : TypeHash) : List TypeSymbol :=
  let met := levels r.count [hash] r.latestFirst
  if met.any (·.hash == .object) then met else met ++ (r.get? .object).toList

/-- Whether one type is another, or is below it. -/
def isSubtype (r : Registry) (sub sup : TypeHash) : Bool :=
  sub == sup || sup == .object || (r.supertypes sub).any (·.hash == sup)

/-! ### Inherited members -/

/-- The methods of a name that a type has, nearest first. -/
def methodsNamed (r : Registry) (hash : TypeHash) (name : String) : List MethodSymbol :=
  (r.supertypes hash).flatMap fun t => t.methods.filter (·.name == name)

/-- The nearest field of a name that a type has. -/
def fieldNamed? (r : Registry) (hash : TypeHash) (name : String) : Option FieldSymbol :=
  (r.supertypes hash).findSome? (·.field? name)

/-! ### Cycles -/

/-- Whether the chain of superclasses from an identity on comes back to one of `seen` or to itself.
A chain that does not is no longer than the number of types and one. -/
def loops (r : Registry) : Nat → List TypeHash → TypeHash → Bool
  | 0, _, _ => true
  | n + 1, seen, h =>
    seen.contains h ||
      match (r.get? h).bind TypeSymbol.superclass with
      | none => false
      | some up => loops r n (h :: seen) up

/-- The first type, in the order of declaration, whose superclasses form a loop. -/
def cycle? (r : Registry) : Option RegistrationFault :=
  (r.types.find? fun t => r.loops (r.count + 2) [] t.hash).map fun t =>
    .cyclicInheritance t.name.text

end JavaGraft.Registry

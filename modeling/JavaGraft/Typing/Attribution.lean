import JavaGraft.Typing.Member

/-!
# Asking for types

Types are asked for expression by expression, but found member by member: the first question about
an expression of a member types the whole member, and later ones are looked up. How many members
have been typed can be seen, the order of the questions cannot.
-/

namespace JavaGraft

/-- Where an expression stands: the file, the type around it, and the member, if it stands in
one. -/
structure Site where
  file : Nat
  owner : TypeHash
  member : Option Member
deriving DecidableEq

/-- Files and their types, with the tables of the members typed so far, each of which is known by
its file and itself. -/
structure Attribution where
  registry : Registry
  scopes : List FileScope
  tables : List ((Nat × Member) × TypeTable)

namespace Attribution

/-- No member has been typed yet. -/
def start (registry : Registry) (files : List SourceFile) : Attribution :=
  ⟨registry, files.map SourceFile.scope, []⟩

/-- The number of members typed so far. -/
def passes (a : Attribution) : Nat := a.tables.length

/-- The number of expressions whose type is known. -/
def typedCount (a : Attribution) : Nat := (a.tables.flatMap (·.2)).length

/-- The place of a site, if there is such a file. -/
def context? (a : Attribution) (site : Site) : Option Context :=
  (a.scopes[site.file]?).map fun scope => .inType a.registry scope site.owner

/-- Types the member of a site, unless that has been done. -/
def ensure (a : Attribution) (site : Site) (m : Member) : Attribution :=
  if (a.tables.lookup (site.file, m)).isSome then a
  else
    match a.context? site with
    | none => a
    | some c => { a with tables := a.tables ++ [((site.file, m), m.typeTable c)] }

/-- **The type of an expression at a site**, if it has one. Only members are typed, but `this` has
a type everywhere. -/
def resolve (a : Attribution) (site : Site) (e : Expr) : Option DataType × Attribution :=
  match e, site.member with
  | .this _, _ => (some (.simple site.owner), a)
  | _, none => (none, a)
  | e, some m =>
    let a := a.ensure site m
    ((a.tables.lookup (site.file, m)).bind (·.lookup e), a)

/-- The registered type that a type without dimensions means at a site. -/
def resolveType (a : Attribution) (site : Site) (t : TypeExpr) : Option TypeSymbol :=
  if t.dims > 0 then none
  else (a.context? site).bind fun c => ((c.base t).toOption).bind a.registry.get?

end Attribution

end JavaGraft

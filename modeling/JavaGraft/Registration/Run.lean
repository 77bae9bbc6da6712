import JavaGraft.Registration.Members

/-!
# Registering the types of a set of files

All files are registered together, so that their types may refer to each other in any order. First
every type and member type is declared; a type whose name is taken is left out with everything in
it. Then the supertypes and members of all of them are found, and entered only when all are found.
Local and anonymous classes are not registered.
-/

namespace JavaGraft

/-- A declared type whose members are still to be found, with the number and the scope of its
file. -/
structure Pending where
  file : Nat
  scope : FileScope
  hash : TypeHash
  decl : TypeDecl

/-- Types declared so far, those of them whose members are to be found, and those left out. -/
structure Declared where
  registry : Registry
  pending : List Pending
  faults : List RegistrationFault

namespace Declared

/-- The flags of a type inside another. -/
def nestedFlags (outer : Option TypeKind) (kind : TypeKind) (written : Flags) : Flags :=
  let flags :=
    if outer.any TypeKind.isInterfaceLike then written ||| .publicBit ||| .staticBit else written
  if outer.isSome && kind != .classType then flags ||| .staticBit else flags

mutual

/-- Declares a type under a name, and its member types. -/
def declare (s : Declared) (file : Nat) (scope : FileScope) (name : QualifiedName)
    (outer : Option (TypeHash × TypeKind)) : TypeDecl → Declared
  | ⟨mods, kind, ident, tps, sup, is, cs, members, span⟩ =>
    let flags := nestedFlags (outer.map Prod.snd) kind mods.flags
    let symbol := TypeSymbol.declared name kind flags (tps.map (·.name.name)) (outer.map Prod.fst)
    match s.registry.register symbol with
    | .error e => { s with faults := s.faults ++ [e] }
    | .ok registry =>
      let this := ⟨file, scope, symbol.hash, ⟨mods, kind, ident, tps, sup, is, cs, members, span⟩⟩
      declareMembers ⟨registry, s.pending ++ [this], s.faults⟩ file scope name (symbol.hash, kind)
        members

/-- Declares the types among the members of a type. -/
def declareMembers (s : Declared) (file : Nat) (scope : FileScope) (name : QualifiedName)
    (outer : TypeHash × TypeKind) : List Member → Declared
  | [] => s
  | .type d :: ms =>
    let s := s.declare file scope (name.member d.name.name) (some outer) d
    declareMembers s file scope name outer ms
  | _ :: ms => declareMembers s file scope name outer ms

end

/-- Declares the types of a file. -/
def declareFile (s : Declared) (file : SourceFile) (index : Nat) : Declared :=
  let scope := file.scope
  file.unit.types.foldl (fun s d => s.declare index scope ⟨scope.package, d.name.name⟩ none d) s

end Declared

/-! ### Completion -/

/-- The supertypes and members found for a declared type. -/
structure Completion where
  hash : TypeHash
  superclass : Option TypeHash
  interfaces : List TypeHash
  members : List MemberSymbol

namespace Pending

/-- The place of a declared type. -/
def context (p : Pending) (found : Registry) : Context := .inType found p.scope p.hash

/-- The supertypes and members of a declared type, among the given types. -/
def completion (p : Pending) (found : Registry) : Completion :=
  let c := p.context found
  ⟨p.hash, c.superclass p.hash p.decl, c.interfaces p.decl, c.members p.hash p.decl⟩

/-- What is wrong with the types that a declared type's supertypes and members mention. -/
def complaints (p : Pending) (found : Registry) : List (Nat × Span × RegistrationFault) :=
  ((p.context found).complaints p.hash p.decl).map (p.file, ·)

end Pending

/-- Enters what was found for a type. -/
def Completion.enter (registry : Registry) (done : Completion) : Registry :=
  registry.modify done.hash fun t => { t with
    superclass := done.superclass, interfaces := done.interfaces, members := done.members }

/-! ### The whole pass -/

/-- What came of registering files: the registry, the number of types and of members entered, what
makes the registry unusable, and where types in signatures were not understood, by file. -/
structure Registration where
  registry : Registry
  types : Nat
  members : Nat
  faults : List RegistrationFault
  warnings : List (Nat × Span × RegistrationFault)

namespace Registration

/-- Whether the registry can be used. -/
def isSuccess (r : Registration) : Bool := r.faults.isEmpty

/-- **Registers the types of files** on top of a registry. -/
def run (registry : Registry) (files : List SourceFile) : Registration :=
  let ⟨found, pending, duplicates⟩ := files.zipIdx.foldl
    (fun s (file, index) => Declared.declareFile s file index) ⟨registry, [], []⟩
  let completions := pending.map (·.completion found)
  let entered := completions.foldl Completion.enter found
  { registry := entered
    types := pending.length
    members := (completions.flatMap (·.members)).length
    faults := duplicates ++ entered.cycle?.toList
    warnings := pending.flatMap (·.complaints found) }

end Registration

end JavaGraft

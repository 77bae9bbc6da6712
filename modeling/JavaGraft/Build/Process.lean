import JavaGraft.Extension.Transform
import JavaGraft.Report.Diagnostic

/-!
# Carrying out the annotations of a file

The types of a file are processed from the outside in, a type before its member types and these in
their order. For each of the markers in turn, the first annotation on the type that it marks is
carried out, and later markers see what the earlier ones made of the type. Every annotation is an
`Application` of its own, for which types are found afresh.
-/

namespace JavaGraft

/-- One annotation on one type: the file, the type, what became of the annotation, and the number
of members that were typed for it. -/
structure Application where
  file : Nat
  type : QualifiedName
  outcome : ExtensionOutcome
  passes : Nat
deriving DecidableEq, Repr

/-- What has been found so far. -/
structure Progress where
  diagnostics : Diagnostics
  applications : List Application

/-- What stays the same while files are processed. -/
structure Workshop where
  markers : List ExtensionMarker
  registry : Registry
  files : List SourceFile

namespace Workshop

/-- Carries out the first annotation that a marker marks on a type, if there is one. -/
def apply (w : Workshop) (file : Nat) (name : QualifiedName) (d : TypeDecl) (p : Progress)
    (marker : ExtensionMarker) : TypeDecl × Progress :=
  match marker.find? d.modifiers with
  | none => (d, p)
  | some annot =>
    let done := d.extended annot file name.hash (.start w.registry w.files)
    let diagnostics :=
      match done.outcome with
      | .usageError e => p.diagnostics.addError annot.span e.message
      | .carriedOut _ | .nothingToDo => p.diagnostics
    let application := ⟨file, name, done.outcome, done.attribution.passes⟩
    (done.decl, ⟨diagnostics, p.applications ++ [application]⟩)

/-- Carries out the annotations on a type, marker by marker. -/
def applyAll (w : Workshop) (file : Nat) (name : QualifiedName) (d : TypeDecl) (p : Progress) :
    TypeDecl × Progress :=
  w.markers.foldl (fun (d, p) marker => w.apply file name d p marker) (d, p)

end Workshop

/-- Members with the member types replaced by others, one after the other. -/
def Member.refill : List Member → List TypeDecl → List Member
  | .type _ :: ms, d :: ds => .type d :: Member.refill ms ds
  | .type d :: ms, [] => .type d :: ms
  | m :: ms, ds => m :: Member.refill ms ds
  | [], _ => []

mutual

/-- **Processes a type and its member types.** -/
def TypeDecl.processed (w : Workshop) (file : Nat) (name : QualifiedName) (p : Progress) :
    TypeDecl → TypeDecl × Progress
  | ⟨mods, kind, ident, tps, sup, is, cs, members, span⟩ =>
    let (d, p) := w.applyAll file name ⟨mods, kind, ident, tps, sup, is, cs, members, span⟩ p
    let (types, p) := Member.processed w file name p members
    ({ d with members := Member.refill d.members types }, p)

/-- Processes the types among the members of a type. -/
def Member.processed (w : Workshop) (file : Nat) (outer : QualifiedName) (p : Progress) :
    List Member → List TypeDecl × Progress
  | [] => ([], p)
  | .type d :: ms =>
    let (d, p) := d.processed w file (outer.member d.name.name) p
    let (ds, p) := Member.processed w file outer p ms
    (d :: ds, p)
  | _ :: ms => Member.processed w file outer p ms

end

namespace Workshop

/-- Processes the types of a file, one after the other. -/
def processTypes (w : Workshop) (file : Nat) (package : String) :
    List TypeDecl → Progress → List TypeDecl × Progress
  | [], p => ([], p)
  | d :: ds, p =>
    let (d, p) := d.processed w file ⟨package, d.name.name⟩ p
    let (ds, p) := w.processTypes file package ds p
    (d :: ds, p)

/-- Processes files, the first of which has the given number. -/
def processFiles (w : Workshop) : Nat → List SourceFile → Progress → List SourceFile × Progress
  | _, [], p => ([], { p with diagnostics := p.diagnostics.setSource none })
  | file, f :: fs, p =>
    let p := { p with diagnostics := p.diagnostics.setSource (some f.name) }
    let (types, p) := w.processTypes file f.scope.package f.unit.types p
    let (fs, p) := w.processFiles (file + 1) fs p
    ({ f with unit := { f.unit with types } } :: fs, p)

end Workshop

end JavaGraft

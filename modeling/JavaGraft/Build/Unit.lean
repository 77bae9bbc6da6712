import JavaGraft.Build.Process
import JavaGraft.Prelude.Registry
import JavaGraft.Text.Quoted

/-!
# Building a set of sources

Sources are collected in a `BuildUnit` and built together: parsed, registered and processed. A
build that fails leaves the unit as it was, so that sources can be added and the build repeated.
After a build that succeeds, nothing more can be added or built until the unit is cleared.

Parse errors stop a build, unless it is lenient: then they are reported and whatever could be read
is built. Duplicate types and cyclic superclasses always stop it. Types in signatures that mean
nothing are warnings.
-/

namespace JavaGraft

/-! ### Units -/

/-- How to build: whether the library is known, whether parse errors are put up with, and the
annotations to carry out. -/
structure BuildOptions where
  prelude : Bool
  lenient : Bool
  markers : List ExtensionMarker
deriving DecidableEq, Repr

/-- Sources, with their names, in the order in which they were added. -/
structure BuildUnit where
  options : BuildOptions
  sources : List (String × String)
  isBuilt : Bool
deriving DecidableEq, Repr

/-- Why a source cannot be added. -/
inductive AddFault where
  | alreadyBuilt
  | duplicateSource (name : String)
deriving DecidableEq, Repr

/-- The fault in words. -/
def AddFault.message : AddFault → String
  | alreadyBuilt => "unit has already been built; call clear() to reuse it"
  | duplicateSource name => "source '" ++ name ++ "' was already added"

/-- Why a build fails. -/
inductive BuildFault where
  | noSources
  | alreadyBuilt
  | parseErrors (files : List (String × List ParseError))
  | registration (faults : List RegistrationFault)
deriving DecidableEq, Repr

/-- The fault as a constructor applied to its name. -/
def RegistrationFault.termText : RegistrationFault → String
  | duplicateType name => "DuplicateType(" ++ Quoted.text name ++ ")"
  | typeNotFound name => "TypeNotFound(" ++ Quoted.text name ++ ")"
  | cyclicInheritance name => "CyclicInheritance(" ++ Quoted.text name ++ ")"

namespace BuildFault

/-- The fault in words. -/
def message : BuildFault → String
  | noSources => "no sources added to unit"
  | alreadyBuilt => "unit has already been built"
  | parseErrors files => "parse errors in " ++ toString files.length ++ " file(s)"
  | registration faults =>
    "registration failed: [" ++ ", ".intercalate (faults.map RegistrationFault.termText) ++ "]"

/-- All that is wrong, one by one. -/
def messages : BuildFault → List String
  | parseErrors files => files.flatMap fun (file, errors) => errors.map (file ++ ": " ++ ·.text)
  | registration faults => faults.map RegistrationFault.message
  | fault => [fault.message]

end BuildFault

/-! ### Stages -/

/-- Parses sources, the calls of each being numbered on from those of the one before. -/
def parseSources : Nat → List (String × String) → List (String × ParsedUnit)
  | _, [] => []
  | firstCall, (name, source) :: rest =>
    let parsed := parseUnit source.toList firstCall
    (name, parsed) :: parseSources parsed.nextCall rest

/-- Files that were parsed. -/
def sourceFiles (parsed : List (String × ParsedUnit)) : List SourceFile :=
  parsed.map fun (name, p) => ⟨name, p.unit⟩

/-- The errors of the files that have some. -/
def failedFiles (parsed : List (String × ParsedUnit)) : List (String × List ParseError) :=
  (parsed.map fun (name, p) => (name, p.errors)).filter fun (_, errors) => !errors.isEmpty

/-- The registry that types are added to. -/
def baseRegistry (prelude : Bool) : Registry := if prelude then Prelude.registry else .empty

/-- Reports the parse errors of files. -/
def reportErrors (ds : Diagnostics) (failed : List (String × List ParseError)) : Diagnostics :=
  (failed.foldl (fun ds (name, errors) =>
    errors.foldl (fun ds e => ds.addError e.span e.fault.message) (ds.setSource (some name)))
    ds).setSource none

/-- Reports the types in signatures that mean nothing. -/
def reportWarnings (ds : Diagnostics) (files : List SourceFile)
    (warnings : List (Nat × Span × RegistrationFault)) : Diagnostics :=
  (warnings.foldl (fun ds (file, span, fault) =>
    (ds.setSource ((files[file]?).map SourceFile.name)).addWarning span fault.message)
    ds).setSource none

/-! ### Building -/

/-- What comes of a build that succeeds. -/
structure BuildOutput where
  files : List SourceFile
  diagnostics : Diagnostics
  applications : List Application
  registry : Registry

namespace BuildUnit

/-- A unit without sources. -/
def new (options : BuildOptions) : BuildUnit := ⟨options, [], false⟩

/-- Adds a source under a name of its own. -/
def add (u : BuildUnit) (name source : String) : Except AddFault BuildUnit :=
  if u.isBuilt then .error .alreadyBuilt
  else if u.sources.any (·.1 == name) then .error (.duplicateSource name)
  else .ok { u with sources := u.sources ++ [(name, source)] }

/-- Drops all sources. -/
def clear (u : BuildUnit) : BuildUnit := { u with sources := [], isBuilt := false }

/-- What comes of the sources of a unit. -/
def output (u : BuildUnit) : Except BuildFault BuildOutput :=
  let parsed := parseSources 0 u.sources
  let failed := failedFiles parsed
  if !u.options.lenient && !failed.isEmpty then .error (.parseErrors failed)
  else
    let files := sourceFiles parsed
    let registered := Registration.run (baseRegistry u.options.prelude) files
    if !registered.isSuccess then .error (.registration registered.faults)
    else
      let diagnostics := reportWarnings (reportErrors .empty failed) files registered.warnings
      let workshop := ⟨u.options.markers, registered.registry, files⟩
      let (files, p) := Workshop.processFiles workshop 0 files ⟨diagnostics, []⟩
      .ok ⟨files, p.diagnostics, p.applications, registered.registry⟩

/-- **Builds a unit.** -/
def build (u : BuildUnit) : Except BuildFault (BuildOutput × BuildUnit) :=
  if u.isBuilt then .error .alreadyBuilt
  else if u.sources.isEmpty then .error .noSources
  else u.output.map fun out => (out, { u with isBuilt := true })

end BuildUnit

/-! ### Looking at the output -/

mutual

/-- Finds a type by its dotted name, in a type of the given name. -/
def TypeDecl.find? (dotted : String) (name : QualifiedName) : TypeDecl → Option TypeDecl
  | ⟨mods, kind, ident, tps, sup, is, cs, members, span⟩ =>
    if name.text == dotted then some ⟨mods, kind, ident, tps, sup, is, cs, members, span⟩
    else Member.find? dotted name members

/-- Finds a type among the members of a type of the given name. -/
def Member.find? (dotted : String) (name : QualifiedName) : List Member → Option TypeDecl
  | [] => none
  | .type d :: ms => d.find? dotted (name.member d.name.name) <|> Member.find? dotted name ms
  | _ :: ms => Member.find? dotted name ms

end

/-- Finds a type in a file by its dotted name. -/
def SourceFile.find? (f : SourceFile) (dotted : String) : Option TypeDecl :=
  f.unit.types.findSome? fun d => d.find? dotted ⟨f.scope.package, d.name.name⟩

namespace BuildOutput

/-- Whether no error was reported. -/
def isSuccess (o : BuildOutput) : Bool := !o.diagnostics.hasErrors

/-- The file of a name, as it is after the build. -/
def file? (o : BuildOutput) (name : String) : Option SourceFile :=
  o.files.find? (·.name == name)

/-- The type of a dotted name, as it is after the build. -/
def type? (o : BuildOutput) (dotted : String) : Option TypeDecl :=
  o.files.findSome? (·.find? dotted)

/-- The annotations carried out on the type of a dotted name. -/
def applicationsOn (o : BuildOutput) (dotted : String) : List Application :=
  o.applications.filter (·.type.text == dotted)

end BuildOutput

end JavaGraft

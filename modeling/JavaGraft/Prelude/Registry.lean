import JavaGraft.Grammar.Knot
import JavaGraft.Prelude.Language
import JavaGraft.Prelude.Libraries
import JavaGraft.Registration.Run

/-!
# The registry of the library

The library's stubs are source files like any other: they are parsed, and registered together.
What they make up is the registry that the types of a build are added to.
-/

namespace JavaGraft.Prelude

/-- The files of the library. -/
def files : List StubFile := languageFile :: libraryFiles

/-- The library, parsed. -/
def sources : List SourceFile :=
  files.map fun f => ⟨f.name, (parseUnit f.text.toList 0).unit⟩

/-- The registry of files that refer to nothing but each other. -/
def registryOf (files : List SourceFile) : Registry := (Registration.run .empty files).registry

/-- **The registry of the library.** -/
def registry : Registry := registryOf sources

end JavaGraft.Prelude

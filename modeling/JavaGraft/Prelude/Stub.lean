/-!
# Stubs

The library types that sources refer to without declaring them are given as stubs: the heading of a
type, its public constructors, and its other members without bodies. A `StubFile` writes them out
as a source file of one package.
-/

namespace JavaGraft

/-- A type of the library: its heading, the parameter lists of its constructors behind their names,
and the declarations of its other members. -/
structure Stub where
  heading : String
  constructors : List String
  members : String

/-- A source file of stubs. -/
structure StubFile where
  name : String
  package : String
  imports : List String
  stubs : List Stub

/-- A constructor with an empty body. -/
def Stub.constructorText (signature : String) : String :=
  "\n    public " ++ signature ++ " \x7b \x7d"

/-- The declaration of a stub. -/
def Stub.text (s : Stub) : String :=
  s.heading ++ " \x7b" ++ String.join (s.constructors.map constructorText)
    ++ s.members ++ "\n\x7d\n"

/-- The source text of a file of stubs. -/
def StubFile.text (f : StubFile) : String :=
  "package " ++ f.package ++ ";\n"
    ++ String.join (f.imports.map fun i => "import " ++ i ++ ";\n")
    ++ String.join (f.stubs.map Stub.text)

end JavaGraft

import DenoPackager.Json.Equality

/-!
# Transformed programs

What is left of a program after its modules have been adapted: two groups of files, one of the
program itself and one of its tests, with paths relative to the output, and warnings.

The names and versions of packages are kept as they are given until they are written.
-/

namespace DenoPackager

/-- **An adapted file**, at its path below the output. -/
structure TransformedFile where
  path : String
  text : String
  deriving Repr, DecidableEq

/-- **A package** that files depend on, with its version if it is known. -/
structure Dependency where
  name : Json
  /-- Anything that does not count as given is an unknown version. -/
  version : Json
  deriving Repr

/-- The name of the package as it stands in an import. -/
def Dependency.importName (d : Dependency) : String := d.name.plainText

/-- Two dependencies are the same if their names and their versions are equal. -/
instance : BEq Dependency := ⟨fun a b => a.name == b.name && a.version == b.version⟩

/-- **The package** that takes the place of a module specifier. -/
abbrev Mapping := Dependency

/-- **The package** that provides the Deno namespace. -/
structure Shim where
  name : Json
  version : Json
  deriving Repr

namespace Shim

/-- The package that is used unless another one is asked for. -/
def standard : Shim := { name := .str "deno.ns", version := .str "0.6.4" }

/-- The name of the package as it stands in an import. -/
def importName (shim : Shim) : String := shim.name.plainText

end Shim

/-- **A group of files**: of the program itself, or of its tests. -/
structure FileGroup where
  files : List TransformedFile
  /-- The output paths of the group's entry points. -/
  entryPoints : List String
  /-- Whether some file needs the package that provides the Deno namespace. -/
  shimUsed : Bool
  dependencies : List Dependency
  deriving Repr

/-- The group without files. -/
def FileGroup.empty : FileGroup :=
  { files := [], entryPoints := [], shimUsed := false, dependencies := [] }

/-- **A transformed program.** -/
structure TransformOutput where
  main : FileGroup
  test : FileGroup
  warnings : List String
  deriving Repr

/-- All files, those of the program itself first. -/
def TransformOutput.allFiles (o : TransformOutput) : List TransformedFile :=
  o.main.files ++ o.test.files

end DenoPackager

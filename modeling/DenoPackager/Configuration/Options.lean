import DenoPackager.Configuration.Basic

/-!
# Build options

What a build works with: a configuration in which flags are settled and the package for the Deno
namespace is chosen. A flag is set if its value counts as given.
-/

namespace DenoPackager

/-- **Build options.** -/
structure BuildOptions where
  entryPoints : List EntrySpec
  outDir : Path
  package : Table Key
  typeCheck : Bool
  test : Bool
  declaration : Bool
  keepSourceFiles : Bool
  keepTestFiles : Bool
  rootTestDir : Option Path
  /-- The pattern of test files as it is given. -/
  testPattern : Json
  shim : Shim
  mappings : List (String × Mapping)
  target : Option ScriptTarget
  deriving Repr

/-- **The build options** of a configuration. -/
def BuildOptions.ofConfiguration (c : Configuration) : BuildOptions :=
  { entryPoints := c.entryPoints
    outDir := c.outDir
    package := c.package
    typeCheck := c.typeCheck.truthy
    test := c.test.truthy
    declaration := c.declaration.truthy
    keepSourceFiles := c.keepSourceFiles.truthy
    keepTestFiles := c.keepTestFiles.truthy
    rootTestDir := c.rootTestDir
    testPattern := c.testPattern
    shim := c.shimPackage.getD .standard
    mappings := c.mappings
    target := c.target }

end DenoPackager

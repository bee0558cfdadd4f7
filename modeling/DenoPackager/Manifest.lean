import DenoPackager.EntryPoint
import DenoPackager.Transform.Output

/-!
# The package manifest

The manifest of the package starts from the members that the user gives. What can be derived
from the transformed program is added: where the entry points are, the test script, and the
packages that the program and its tests depend on. A member that the user gives wins; in four
members that are objects themselves it wins name by name.

## Main definitions

* `Manifest.Derived`: the members that are derived.
* `Manifest.build`: the manifest.
* `Manifest.ignoreText`: the list of files that are not published.
-/

namespace DenoPackager.Manifest

/-- The command that runs the tests. -/
def testScript : String := "node test_runner.js"

/-- The last three characters, the extension of a script, are taken off. -/
def stem (scriptPath : String) : String :=
  String.ofList (scriptPath.toList.take (scriptPath.length - 3))

/-- **The conditions of an export**, for the script at an output path. -/
def conditions (declaration : Bool) (outPath : String) : Members :=
  let script := EntryPoint.scriptPath outPath
  (if declaration then [("types", .str ("./types/" ++ stem script ++ ".d.ts"))] else []) ++
    [("import", .str ("./esm/" ++ script)), ("require", .str ("./umd/" ++ script))]

/-- **Exports** of entry points at their output paths. -/
def exports (declaration : Bool) (entries : List EntryPoint) (outPaths : List String) :
    Except Fault (Table Key) := do
  let pairs ← (entries.zip outPaths).mapM fun (entry, outPath) => do
    .ok (← entry.name.key, Json.obj (conditions declaration outPath))
  .ok (Table.ofPairs pairs)

/-- The range of versions for a version: any later compatible one. -/
def compatibleWith (version : Json) : String := "^" ++ version.plainText

/-- The range of versions of a dependency; any version will do if none is known. -/
def versionRange (d : Dependency) : String :=
  if d.version.truthy then compatibleWith d.version else "*"

/-- The entry for a dependency. -/
def dependencyEntry (d : Dependency) : Except Fault (Key × Json) := do
  .ok (← d.name.key, .str (versionRange d))

/-- The entry for the package that provides the Deno namespace. -/
def shimEntry (shim : Shim) : Except Fault (Key × Json) := do
  .ok (← shim.name.key, .str (compatibleWith shim.version))

/-- The packages that a group of files needs, in order of need. -/
def needs (shim : Shim) (group : FileGroup) : Except Fault (Table Key) := do
  let shimEntries ← if group.shimUsed then (shimEntry shim).map ([·]) else .ok []
  let entries ← group.dependencies.mapM dependencyEntry
  .ok (shimEntries ++ entries)

/-- **The packages that the program depends on.** -/
def dependencies (shim : Shim) (main : FileGroup) : Except Fault (Table Key) :=
  (needs shim main).map Table.ofPairs

/-- **The packages that only the tests depend on**, given those that the program depends on. -/
def devDependencies (shim : Shim) (main : Table Key) (test : FileGroup) :
    Except Fault (Table Key) :=
  (needs shim test).map fun entries => Table.ofPairs (entries.filter fun m => !main.has m.1)

/-- **The derived members** that are merged name by name. -/
structure Derived where
  exports : Table Key
  scripts : Table Key
  dependencies : Table Key
  devDependencies : Table Key
  deriving Repr

namespace Derived

/-- The derived members under their names, in the order in which they are merged. -/
def members (d : Derived) : List (String × Table Key) :=
  [("exports", d.exports), ("scripts", d.scripts), ("dependencies", d.dependencies),
    ("devDependencies", d.devDependencies)]

/-- **What is derived** from a transformed program. -/
def ofOutput (entries : List EntryPoint) (shim : Shim) (output : TransformOutput)
    (testEnabled declaration : Bool) : Except Fault Derived := do
  let exports ← Manifest.exports declaration entries output.main.entryPoints
  let main ← Manifest.dependencies shim output.main
  let dev ← if testEnabled then Manifest.devDependencies shim main output.test else .ok []
  .ok
    { exports := exports
      scripts := if testEnabled then [(.text "test", .str testScript)] else []
      dependencies := main
      devDependencies := dev }

end Derived

/-- **Merging** derived members into what the user gives under a name. An object is laid over
them, and left out if nothing is in it; nothing counts as an empty object; any other value is
kept as it is. -/
def merge (package : Table Key) (manifest : Table Key) (name : String) (derived : Table Key) :
    Table Key :=
  let overlaid (top : Members) : Table Key :=
    let merged := Table.overlay derived (Table.ofMembers top)
    if merged.isEmpty then manifest.without (.text name)
    else manifest.put (.text name) (.obj merged.toMembers)
  match package.get? (.text name) with
  | none => overlaid []
  | some .null => overlaid []
  | some (.obj top) => overlaid top
  | some _ => manifest

/-- The member of the package's own export under a condition. -/
def rootCondition? (exports : Table Key) (condition : String) : Option Json :=
  ((exports.get? (.text EntryPoint.rootName)).getD .null).members.get? condition

/-- The manifest with a default taken from the package's own export, if it has the condition. -/
def withRoot (exports : Table Key) (name condition : String) (manifest : Table Key) : Table Key :=
  match rootCondition? exports condition with
  | some v => manifest.putDefault (.text name) v
  | none => manifest

/-- The user's members with defaults from the package's own export. -/
def withRoots (exports package : Table Key) : Table Key :=
  withRoot exports "types" "types" <| withRoot exports "module" "import" <|
    withRoot exports "main" "require" package

/-- **The manifest** of a package. -/
def build (entries : List EntryPoint) (shim : Shim) (output : TransformOutput)
    (package : Table Key) (testEnabled declaration : Bool) : Except Failure (Table Key) :=
  match EntryPoint.check entries with
  | .error e => .error e
  | .ok () =>
    if output.main.entryPoints.length ≠ entries.length then
      .error (.problem (.entryPointMismatch entries.length output.main.entryPoints.length))
    else
      match Derived.ofOutput entries shim output testEnabled declaration with
      | .error f => .error (.fault f)
      | .ok derived =>
        .ok <| derived.members.foldl (fun manifest m => merge package manifest m.1 m.2)
          (withRoots derived.exports package)

/-- **The text of a manifest file.** -/
def fileText (manifest : Table Key) : String :=
  (Json.obj manifest.toMembers).fileText

/-- **The list of files that are not published**: the sources if they are kept, and the files
that belong to the tests. There is none if it would be empty. -/
def ignoreText (keepSources : Bool) (testFiles : List String) : Option String :=
  let lines := (if keepSources then ["src/"] else []) ++
    testFiles.map fun name => String.ofList (Text.dropStart "./".toList name.toList)
  if lines.isEmpty then none else some (String.intercalate "\n" lines ++ "\n")

end DenoPackager.Manifest

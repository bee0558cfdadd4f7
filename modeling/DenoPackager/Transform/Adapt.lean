import DenoPackager.Json.Parts
import DenoPackager.Source.Namespace
import DenoPackager.Transform.Layout
import DenoPackager.Transform.Output
import DenoPackager.Workspace.Action

/-!
# Transforming a program

The modules of a program and of its tests are collected along their imports, laid out for the
output and adapted: a specifier that is mapped becomes the name of a package, a relative one
that leads to a module leads to that module's script, and references to the Deno namespace go
through a package. The modules of the tests are those that the program itself does not reach.

## Main definitions

* `Request`: what is to be transformed.
* `replacement`: what takes the place of a specifier.
* `collect`: the modules of a program and of its tests.
* `transformTree`: the transformed program for a file tree.
* `transform`: transforming, as an action.
-/

namespace DenoPackager.Transform

/-- **What is to be transformed**: the entry points of the program and of its tests, the package
for the Deno namespace, and the packages for specifiers. -/
structure Request where
  /-- The paths of the entry points as they are given. -/
  entryPoints : List Json
  testEntryPoints : List Json
  shimPackage : String
  mappings : List (String × Mapping)
  deriving Repr

/-- The path of an entry point, seen from a directory. -/
def entryPath (base : Path) (entry : Json) : Except Fault Path :=
  entry.path.map (·.absolute base)

/-- **What takes the place of a specifier** in the module at `source`. -/
def replacement (cwd : Path) (layout : Layout) (mappings : List (String × Mapping))
    (source : Path) (specifier : String) : String :=
  match mappings.lookup specifier with
  | some mapping => mapping.importName
  | none =>
    if Source.isRelative specifier ∧ Module.target source specifier ∈ layout.modules then
      Source.relativeSpecifier cwd (layout.outPath source)
        (layout.outPath (Module.target source specifier))
    else specifier

/-- The packages that a module depends on, in order of use. -/
def moduleDependencies (mappings : List (String × Mapping)) (m : Module) : List Dependency :=
  m.specifiers.filterMap fun s => mappings.lookup s

/-- What is said about a remote specifier without a mapping. -/
def unmappedText (specifier : String) : String :=
  "Remote specifier is not mapped and was left as is: " ++ specifier

/-- What is said about the remote specifiers of a module. -/
def remoteWarnings (mappings : List (String × Mapping)) (m : Module) : List String :=
  (m.specifiers.filter fun s => (mappings.lookup s).isNone && Source.isRemote s).map unmappedText

/-- **An adapted module**, and whether it needs the package for the Deno namespace. -/
def adaptModule (cwd : Path) (layout : Layout) (request : Request) (m : Module) :
    TransformedFile × Bool :=
  let text := Source.replaceSpecifiers (replacement cwd layout request.mappings m.path) m.text.toList
  let (text, shimUsed) := Source.routeNamespace request.shimPackage text
  ({ path := layout.outPath m.path, text := String.ofList text }, shimUsed)

/-- The modules in the order of their paths. -/
def sortModules (ms : List Module) : List Module :=
  ms.mergeSort fun a b => a.path.le b.path

/-- **A group of adapted modules** with its entry points. -/
def adaptGroup (cwd : Path) (layout : Layout) (request : Request) (ms : List Module)
    (entries : List Path) : FileGroup :=
  let adapted := ms.map (adaptModule cwd layout request)
  { files := adapted.map Prod.fst
    entryPoints := entries.map layout.outPath
    shimUsed := adapted.any Prod.snd
    dependencies := (ms.flatMap (moduleDependencies request.mappings)).eraseDups }

/-- **The modules of a program** and of its tests, each in the order of their paths, with the
paths of the entry points and the layout of all modules together. The modules of the tests are
those that the program itself does not reach. -/
structure Collection where
  main : List Module
  test : List Module
  mainEntries : List Path
  testEntries : List Path
  layout : Layout
  /-- What was said about imports that lead nowhere. -/
  warnings : List String
  deriving Repr, DecidableEq

/-- All modules, those of the program itself first. -/
def Collection.modules (c : Collection) : List Module :=
  c.main ++ c.test

/-- **Collecting** the modules of a program whose entry points are seen from `base`. -/
def collect (t : FileTree) (cwd base : Path) (request : Request) : Except Fault Collection := do
  let mainEntries ← request.entryPoints.mapM (entryPath base)
  let testEntries ← request.testEntryPoints.mapM (entryPath base)
  let (mainSeen, mainWarnings) ← walk t cwd mainEntries [] []
  let (testSeen, warnings) ← walk t cwd testEntries [] mainWarnings
  let main := sortModules mainSeen
  let test := sortModules (testSeen.filter fun m => decide (m.path ∉ mainSeen.map Module.path))
  let layout ← Layout.ofModules ((main ++ test).map Module.path)
  pure
    { main := main
      test := test
      mainEntries := mainEntries
      testEntries := testEntries
      layout := layout
      warnings := warnings }

/-- **Adapting** all modules that were collected. -/
def Collection.adapt (c : Collection) (cwd : Path) (request : Request) : TransformOutput :=
  { main := adaptGroup cwd c.layout request c.main c.mainEntries
    test := adaptGroup cwd c.layout request c.test c.testEntries
    warnings := (c.modules.flatMap (remoteWarnings request.mappings)).foldl addWarning c.warnings }

/-- **The transformed program** for a file tree. -/
def transformTree (t : FileTree) (cwd base : Path) (request : Request) :
    Except Fault TransformOutput :=
  (collect t cwd base request).map (·.adapt cwd request)

/-- **Transforming** a program whose entry points are seen from `base`, which may itself be seen from
the current directory. -/
def transform (base : Path) (request : Request) : Action TransformOutput := do
  let output ← Action.look fun t cwd => transformTree t cwd base request
  Action.log .debug ("Transformed " ++ Problem.count output.main.files.length ++ " main and " ++
    Problem.count output.test.files.length ++ " test file(s)")
  pure output

end DenoPackager.Transform

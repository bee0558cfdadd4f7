import DenoPackager.Configuration.Options
import DenoPackager.Discovery
import DenoPackager.Emission
import DenoPackager.Manifest
import DenoPackager.TestLauncher
import DenoPackager.Transform.Adapt

/-!
# Building a package

A build checks its entry points, transforms the program and its tests, writes the manifest,
installs the packages that it depends on, checks the program, emits it in up to three passes and
runs its tests. The first failure ends it.

The installation is started before the transformed sources are written, and waited for after
that: if writing them fails the installation is killed, and what failed is the writing.

## Main definitions

* `BuildTools`: what a build works with.
* `Build.prepare`, `Build.equip`, `Build.checkedProject`, `Build.emitAll`, `Build.runTests`: its
  stages.
* `build`: the build.
-/

namespace DenoPackager

/-- **A transformation** of programs. -/
abbrev Transformer := Transform.Request → Action TransformOutput

/-- **What a build works with**: external programs, a policy, a compiler, and a transformation
if it is not the one of modules in files. -/
structure BuildTools where
  tools : Tools
  policy : Policy
  compiler : Compiler
  transformer : Option Transformer

/-- What a build works with unless something else is asked for. -/
def BuildTools.standard (tools : Tools) : BuildTools :=
  { tools := tools, policy := .unrestricted, compiler := .standard, transformer := none }

/-- **The outcome of a build**: where the package is, the files that were written, and the
warnings of the transformation. -/
structure BuildResult where
  outDir : Path
  written : List Path
  warnings : List String
  deriving Repr

namespace Build

/-- The directory of the transformed sources in a package. -/
def sourceDir (options : BuildOptions) : Path :=
  options.outDir.child "src"

/-- The package manager that works in the package. -/
def packageManager (options : BuildOptions) : PackageManager :=
  { program := "npm", directory := options.outDir }

/-- The files of the package that belong to the tests, if there are to be tests. -/
def testArtifacts (options : BuildOptions) (output : TransformOutput) : List String :=
  if options.test then TestLauncher.artifacts output else []

/-- **The tests** of the program, if there are to be any. -/
def discover (options : BuildOptions) : Action (List Path) := do
  if options.test then
    let w ← Action.get
    let tests ← Discovery.find (options.rootTestDir.getD w.cwd) options.testPattern [options.outDir]
    Action.log .debug ("Discovered " ++ Problem.count tests.length ++ " test file(s)")
    pure tests
  else pure []

/-- **The transformed program**, with its warnings logged. -/
def transformProgram (b : BuildTools) (options : BuildOptions) (entries : List EntryPoint) :
    Action TransformOutput := do
  let tests ← discover options
  let w ← Action.get
  let transformer := b.transformer.getD (Transform.transform w.cwd.rooted)
  let output ← transformer
    { entryPoints := entries.map (·.path)
      testEntryPoints := tests.map fun test => .str test.text
      shimPackage := options.shim.importName
      mappings := options.mappings }
  Action.forEach (Action.log .warning) output.warnings
  pure output

/-- **Writing the manifest**, and the list of files that are not published if there is one. -/
def writePackageFiles (b : BuildTools) (options : BuildOptions) (entries : List EntryPoint)
    (output : TransformOutput) : Action Unit := do
  let manifest ← Action.ofExcept <|
    Manifest.build entries options.shim output options.package options.test options.declaration
  Writer.write b.policy (options.outDir.child "package.json") (Manifest.fileText manifest)
  match Manifest.ignoreText options.keepSourceFiles (testArtifacts options output) with
  | some text => Writer.write b.policy (options.outDir.child ".npmignore") text
  | none => pure ()

/-- Writing the transformed sources. -/
def writeSources (b : BuildTools) (options : BuildOptions) (output : TransformOutput) :
    Action Unit :=
  Action.forEach
    (fun f => Writer.write b.policy ((sourceDir options).joinText f.path) f.text)
    output.allFiles

/-- The transformed sources, if they are kept. -/
def keepSources (b : BuildTools) (options : BuildOptions) (output : TransformOutput) :
    Action Unit :=
  Action.onlyIf options.keepSourceFiles (writeSources b options output)

/-- **The end of the installation**, by how the writing of the sources and the start of the
installation went. -/
def settle (manager : PackageManager) :
    Except Failure Unit → Except Failure StartedCommand → Action Unit
  | .error e, .ok command => do
    PackageManager.kill command
    Action.failure e
  | .error e, .error _ => Action.failure e
  | .ok (), .ok command => manager.finish command
  | .ok (), .error e => Action.failure e

/-- **Installing** packages while the sources are written. What fails first is the writing; a
failure of the installation is noticed after that. -/
def install (b : BuildTools) (options : BuildOptions) (output : TransformOutput) :
    Action Unit := do
  let manager := packageManager options
  let started ← Action.attempt (manager.start b.tools b.policy ["install"])
  let kept ← Action.attempt (keepSources b options output)
  settle manager kept started

/-- The project with the transformed sources added one by one. -/
def addSources (options : BuildOptions) (project : Project) :
    List TransformedFile → Action Project
  | [] => pure project
  | f :: fs => do
    let project ← project.addFile ((sourceDir options).joinText f.path).text f.text
    addSources options project fs

/-- **The project** of a build. -/
def createProject (options : BuildOptions) (output : TransformOutput) : Action Project :=
  addSources options (Project.empty (.base options.outDir options.declaration options.target))
    output.allFiles

/-- **The check** of the whole program. -/
def typeCheck (b : BuildTools) (program : Program) : Action Unit := do
  Action.log .info "Type checking..."
  let diagnostics ← program.check b.compiler b.tools b.policy
  requireNoDiagnostics diagnostics

/-- **The passes** of the build. -/
def emitAll (b : BuildTools) (options : BuildOptions) (project : Project) :
    Action (List (Pass × EmitResult)) :=
  Pass.emitAll b.compiler b.tools b.policy b.policy options.outDir project
    (Pass.all options.declaration)

/-- **Running the tests**, and removing the files that belong to them unless they are kept. -/
def runTests (b : BuildTools) (options : BuildOptions) (output : TransformOutput) :
    Action Unit := do
  Action.log .info "Running tests..."
  Writer.write b.policy (options.outDir.child TestLauncher.fileName)
    (TestLauncher.code options.shim.importName output.test.entryPoints output.test.shimUsed)
  (packageManager options).run b.tools b.policy ["run", "test"]
  Action.onlyIf (!options.keepTestFiles)
    (Writer.removeAll b.policy options.outDir (testArtifacts options output))

/-! ### Stages -/

/-- **The transformed program** of a build whose entry points are in order and whose directory
may be written. -/
def prepare (b : BuildTools) (options : BuildOptions) : Action TransformOutput := do
  let entries := EntryPoint.ofSpecs options.entryPoints
  Action.ofExcept (EntryPoint.check entries)
  b.policy.checkWrite options.outDir.text
  Action.log .info "Transforming..."
  transformProgram b options entries

/-- **Everything that the compiler needs** is put in place: the manifest, the installed packages
and the transformed sources. -/
def equip (b : BuildTools) (options : BuildOptions) (output : TransformOutput) : Action Unit := do
  writePackageFiles b options (EntryPoint.ofSpecs options.entryPoints) output
  Action.log .info "Running npm install..."
  install b options output

/-- **The project**, once its program has passed the check if there is to be one. -/
def checkedProject (b : BuildTools) (options : BuildOptions) (output : TransformOutput) :
    Action Project := do
  Action.log .info "Building project..."
  let project ← createProject options output
  let program ← project.compile
  Action.onlyIf options.typeCheck (typeCheck b program)
  pure project

end Build

open Build in
/-- **Building a package.** -/
def build (b : BuildTools) (options : BuildOptions) : Action BuildResult := do
  let output ← prepare b options
  equip b options output
  let project ← checkedProject b options output
  let _ ← emitAll b options project
  Action.onlyIf options.test (runTests b options output)
  Action.log .info "Complete!"
  let w ← Action.get
  pure { outDir := options.outDir, written := w.written, warnings := output.warnings }

end DenoPackager

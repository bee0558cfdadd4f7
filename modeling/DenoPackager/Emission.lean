import DenoPackager.Compiler.Emit

/-!
# Emission passes

A package is emitted in up to three passes over one project, strictly in order: declarations
into `types`, ES modules into `esm`, and UMD modules into `umd`. Each pass changes the options
of the project, compiles it and emits the program through the writer. The two passes that emit
scripts also write a small manifest, which says what the scripts are. A pass that reports
diagnostics ends the build.

## Main definitions

* `Pass`: the passes and what sets them apart.
* `Pass.run`: one pass.
* `Pass.runAll`, `Pass.emitAll`: passes in order, up to the first failure.
* `typeCheck`: the check before any pass.
-/

namespace DenoPackager

/-- **Emission passes.** -/
inductive Pass where
  | declarations
  | esm
  | umd
  deriving Repr, DecidableEq

/-- Logging diagnostics. -/
def logDiagnostics (ds : List Diagnostic) : Action Unit :=
  Action.log .error (Diagnostic.listText ds)

/-- **The check before any pass**: a program with diagnostics is not emitted. -/
def requireNoDiagnostics (ds : List Diagnostic) : Action Unit := do
  if ds = [] then pure ()
  else
    logDiagnostics ds
    Action.fail (.typeCheckFailed ds)

namespace Pass

/-- The directory of the pass in the package. -/
def directory : Pass → String
  | .declarations => "types"
  | .esm => "esm"
  | .umd => "umd"

/-- What the pass emits. -/
def description : Pass → String
  | .declarations => "declaration files"
  | .esm => "ESM package"
  | .umd => "CommonJs package"

/-- The settings that the pass changes, apart from the output directory. -/
def overrides : Pass → List (Setting × SettingValue)
  | .declarations => [(.declaration, .raw (.bool true))]
  | .esm => [(.declaration, .raw (.bool false)), (.moduleFormat, .format .es2015)]
  | .umd =>
    [(.declaration, .raw (.bool false)), (.esModuleInterop, .raw (.bool true)),
      (.moduleFormat, .format .umd)]

/-- The type of the modules that the pass emits, if it emits scripts. -/
def moduleType? : Pass → Option String
  | .declarations => none
  | .esm => some "module"
  | .umd => some "commonjs"

/-- The text of a small manifest that gives the type of modules. -/
def manifestText (moduleType : String) : String :=
  (Json.obj [("type", .str moduleType)]).fileText

/-- The changes to sources in the pass. -/
def transforms : Pass → List SourceTransform
  | .umd => [.importMeta]
  | _ => []

/-- **The passes** of a build, with or without declarations. -/
def all (declaration : Bool) : List Pass :=
  (if declaration then [.declarations] else []) ++ [.esm, .umd]

/-- The directory of the pass in a package. -/
def target (package : Path) (pass : Pass) : Path :=
  package.child pass.directory

/-- **The project as the pass compiles it.** -/
def configure (package : Path) (pass : Pass) (project : Project) : Project :=
  { project with
    options := project.options.setAll
      ((.outDir, .raw (.str (pass.target package).text)) :: pass.overrides) }

/-- Writing the small manifest of the pass, if it has one. -/
def writeManifest (policy : Policy) (package : Path) (pass : Pass) : Action Unit :=
  match pass.moduleType? with
  | some moduleType =>
    Writer.write policy ((pass.target package).child "package.json") (manifestText moduleType)
  | none => pure ()

/-- The writing of an emitted file. -/
def writeEmitted (policy : Policy) (f : EmittedFile) : Action Unit :=
  Writer.writeMarked policy (Path.ofString f.path) f.text f.mark

/-- The program of the pass. -/
def compile (pass : Pass) (project : Project) : Action Program := do
  Action.log .info ("Emitting " ++ pass.description ++ "...")
  project.compile

/-- **What the pass makes of an emission**: one without diagnostics is completed by the small
manifest, any other one fails. -/
def conclude (pass : Pass) (writerPolicy : Policy) (package : Path) (result : EmitResult) :
    Action EmitResult := do
  if result.diagnostics = [] then
    pass.writeManifest writerPolicy package
    Action.log .debug ("Emitted " ++ Problem.count result.files.length ++ " file(s) into " ++
      (pass.target package).text)
    pure result
  else
    logDiagnostics result.diagnostics
    Action.fail (.emissionFailed pass.description pass.directory result.diagnostics)

/-- **One pass** over a project that is configured for it. -/
def run (pass : Pass) (c : Compiler) (tools : Tools) (compilerPolicy writerPolicy : Policy)
    (package : Path) (project : Project) : Action EmitResult := do
  let program ← pass.compile project
  let result ← program.emit c tools compilerPolicy (pass = .declarations) pass.transforms
    (writeEmitted writerPolicy)
  pass.conclude writerPolicy package result

/-- **Passes in order**, up to the first failure. The project keeps the options of the last pass
that was begun. -/
def runAll (c : Compiler) (tools : Tools) (compilerPolicy writerPolicy : Policy) (package : Path)
    (project : Project) : List Pass → Action (Project × Except Failure (List (Pass × EmitResult)))
  | [] => pure (project, .ok [])
  | pass :: passes => do
    let project := pass.configure package project
    match ← Action.attempt (pass.run c tools compilerPolicy writerPolicy package project) with
    | .error e => pure (project, .error e)
    | .ok result =>
      let (project, rest) ← runAll c tools compilerPolicy writerPolicy package project passes
      pure (project, rest.map ((pass, result) :: ·))

/-- **Emitting in passes**: what came of each of them, or the first failure. -/
def emitAll (c : Compiler) (tools : Tools) (compilerPolicy writerPolicy : Policy) (package : Path)
    (project : Project) (passes : List Pass) : Action (List (Pass × EmitResult)) := do
  let (_, result) ← runAll c tools compilerPolicy writerPolicy package project passes
  Action.ofExcept result

end Pass

end DenoPackager

import DenoPackager.Compiler.Options
import DenoPackager.Compiler.Output
import DenoPackager.Json.Printer
import DenoPackager.Tools

/-!
# Running the compiler

The compiler works on files. For each run the sources are written into a directory of their own
inside the package, laid out as below the source root, together with a configuration. The
directory is removed when the run is over, however it ends. What the compiler prints is read as
diagnostics; a bad exit code without any is a failure of the compiler itself.

## Main definitions

* `Purpose`: whether a run checks or emits.
* `configuration?`: the configuration of a run.
* `Compiler.stage`, `Compiler.execute`, `Compiler.interpret`: the parts of a run.
* `Compiler.run`: one run of the compiler.

## Main results

* `freshName_not_mem`: a temporary directory takes the place of nothing.
-/

namespace DenoPackager

/-- **A compiler**: the command that starts it, and the number of seconds that a run may take,
if it is limited. -/
structure Compiler where
  command : List String
  timeLimit : Json
  deriving Repr

/-- The compiler that is used unless another one is asked for. -/
def Compiler.standard : Compiler :=
  { command := ["npx", "--yes", "-p", "typescript", "tsc"], timeLimit := .null }

/-- **What a run of the compiler is for.** -/
inductive Purpose where
  /-- The sources are checked. -/
  | check
  /-- Scripts or declarations are emitted to a directory. -/
  | emit (declarationsOnly : Bool) (directory : Option Path)
  deriving Repr

/-! ### Temporary directories -/

/-- A name that starts as asked for and is not among the given ones. -/
def freshName (names : List String) (start : String) : String :=
  let first := start ++ "X"
  if first ∈ names then
    start ++ String.ofList (List.replicate ((names.map String.length).foldl Nat.max 0 + 1) 'X')
  else first

/-- The place of a temporary directory below a directory. -/
def temporaryPlace (t : FileTree) (dir : Place) (start : String) : Place :=
  dir ++ [freshName (t.childNames dir) start]

/-- The workspace with a directory added. -/
def Workspace.withDirectory (w : Workspace) (place : Place) : Workspace :=
  { w with tree := w.tree.insert place .directory }

/-- **A temporary directory** below a directory, for the time of an action. -/
def withTemporary {α : Type} (dir : Place) (start : String) (body : Path → Action α) :
    Action α := do
  let w ← Action.get
  let place := temporaryPlace w.tree dir start
  Action.modify (·.withDirectory place)
  Action.ensuring (body { root := .single, parts := place })
    fun w => { w with tree := w.tree.erase place }

/-- The directory for temporary directories. -/
def temporaryRoot : Place := ["tmp"]

/-! ### Staging -/

/-- **Staging a source**: it is written below `staging` at its path below `root`. The answer is
that path, and the path that the source has in the project. -/
def stageFile (staging root : Path) (path text : String) : Action (String × String) :=
  match (Path.ofString path).below? root with
  | none => Action.fail (.sourceOutsideRoot path root.text)
  | some relative => do
    let target := staging.join relative
    Action.change fun t cwd => t.makeDirs cwd target.parent
    Action.step fun t cwd => t.write cwd target text.toUTF8
    pure (relative.text, path)

/-- Staging sources, one after the other. -/
def stageFiles (staging root : Path) (files : List (String × String)) :
    Action (List (String × String)) :=
  Action.mapEach (fun f => stageFile staging root f.1 f.2) files

/-- **The configuration of a run** over staged sources. Emitting needs a directory. -/
def configuration? (options : CompilerOptions) (sources : List String) (purpose : Purpose) :
    Option Members :=
  let base := (options.config.put "rootDir" (.str ".")).put "noEmitOnError" (.bool false)
  let withSources (compilerOptions : Members) : Members :=
    [("compilerOptions", .obj compilerOptions), ("files", .arr (sources.map .str))]
  match purpose with
  | .check =>
    some <| withSources <|
      ((base.without "outDir").put "declaration" (.bool false)).put "noEmit" (.bool true)
  | .emit _ none => none
  | .emit declarationsOnly (some dir) =>
    let emitting := base.put "outDir" (.str dir.text)
    some <| withSources <|
      if declarationsOnly then
        (emitting.put "declaration" (.bool true)).put "emitDeclarationOnly" (.bool true)
      else emitting

/-! ### The run itself -/

/-- What the compiler writes below the directory that it emits to. -/
def writeOutputs (dir : Path) (outputs : List (String × ByteArray)) : Action Unit :=
  Action.forEach
    (fun output => do
      let target := dir.joinText output.1
      Action.change fun t cwd => t.makeDirs cwd target.parent
      Action.step fun t cwd => t.write cwd target output.2)
    outputs

/-- What a run for a purpose leaves behind; a run that checks leaves nothing. -/
def leaveOutputs (purpose : Purpose) (outputs : List (String × ByteArray)) : Action Unit :=
  match purpose with
  | .emit _ (some dir) => writeOutputs dir outputs
  | _ => pure ()

/-- The text of a staged source. -/
def stagedText (w : Workspace) (staging : Path) (source : String) : String :=
  match w.tree.readBytes w.cwd (staging.joinText source) with
  | .ok content => (String.fromUTF8? content).getD ""
  | .error _ => ""

/-- **Executing** the compiler: its exit code and what it printed. -/
def Compiler.execute (c : Compiler) (tools : Tools) (purpose : Purpose) (run : CompilerRun) :
    Action (Int × String × String) := do
  let w ← Action.get
  Action.note (.compiled run)
  match tools.compiler w run with
  | .missing => Action.fail (.compilerMissing run.command)
  | .timesOut => Action.fail (.compilerTimedOut c.timeLimit run.command)
  | .exits code stdout stderr outputs => do
    leaveOutputs purpose outputs
    pure (code, stdout, stderr)

/-- **Staging a run** in a directory: the sources and the configuration are put there. The answer
is the run, ready to be executed, and the paths of the staged sources. -/
def Compiler.stage (c : Compiler) (tools : Tools) (policy : Policy) (options : CompilerOptions)
    (root : Path) (files : List (String × String)) (purpose : Purpose) (staging : Path) :
    Action (CompilerRun × List (String × String)) := do
  let staged ← stageFiles staging root files
  let sources := ((staged.map Prod.fst).eraseDups).mergeSort fun a b => decide (a ≤ b)
  match configuration? options sources purpose with
  | none => Action.fail .noEmitDirectory
  | some config =>
    let configPath := staging.child "tsconfig.json"
    Action.step fun t cwd => t.write cwd configPath (Json.obj config).indentedText.toUTF8
    let command := platformCommand tools.platform
      (c.command ++ ["-p", configPath.text, "--pretty", "false"])
    policy.checkRun (command.headD "")
    Action.log .debug ("Running " ++ commandLine command)
    let w ← Action.get
    let run : CompilerRun :=
      { command := command
        directory := staging
        config := config
        files := sources.map fun s => (s, stagedText w staging s) }
    pure (run, staged)

/-- **A run in a staging directory**: the command line, the exit code, what was printed, and the
paths of the staged sources. -/
def Compiler.stagedRun (c : Compiler) (tools : Tools) (policy : Policy)
    (options : CompilerOptions) (root : Path) (files : List (String × String)) (purpose : Purpose)
    (staging : Path) : Action (List String × (Int × String × String) × List (String × String)) := do
  let (run, staged) ← c.stage tools policy options root files purpose staging
  let ending ← c.execute tools purpose run
  pure (run.command, ending, staged)

/-- What was printed on both streams, with a line feed between if there is something on both. -/
def printedText (stdout stderr : String) : String :=
  String.intercalate "\n" ([stdout, stderr].filter (· ≠ ""))

/-- **Where a run takes place**: the directory of the sources, and the place of the directory
above it, which is made. -/
def openRoot (options : CompilerOptions) : Action (Path × Place) := do
  let root ← Action.look fun _ _ => options.path .rootDir
  Action.change fun t cwd => t.makeDirs cwd root.parent
  let (dir, _) ← Action.look fun t cwd => t.locate cwd root.parent
  pure (root, dir)

/-- **Reading what the compiler printed**: its diagnostics, of which a bad exit code needs one at
least. -/
def Compiler.interpret (command : List String) (ending : Int × String × String)
    (staged : List (String × String)) : Action (List Diagnostic) := do
  let printed := printedText ending.2.1 ending.2.2
  let reading ← Action.look fun _ _ => CompilerOutput.parse printed staged.reverse
  Action.forEach
    (fun line => Action.log .debug ("Ignoring unrecognised compiler output: " ++ line))
    reading.ignored
  if ending.1 ≠ 0 ∧ reading.diagnostics = [] then
    Action.fail (.compilerFailed ending.1 printed command)
  else pure reading.diagnostics

/-- **One run of the compiler** over source files, and its diagnostics. -/
def Compiler.run (c : Compiler) (tools : Tools) (policy : Policy) (options : CompilerOptions)
    (files : List (String × String)) (purpose : Purpose) : Action (List Diagnostic) := do
  let (root, dir) ← openRoot options
  let (command, ending, staged) ←
    withTemporary dir ".dnt-staging-" (c.stagedRun tools policy options root files purpose)
  Compiler.interpret command ending staged

/-! ### Fresh names -/

theorem le_foldl_max (ns : List Nat) (a n : Nat) (h : n ∈ ns ∨ n ≤ a) : n ≤ ns.foldl Nat.max a := by
  induction ns generalizing a with
  | nil => simpa using h
  | cons m ms ih =>
    rw [List.foldl_cons]
    apply ih
    rcases h with h | h
    · rcases List.mem_cons.1 h with rfl | h
      · exact .inr (Nat.le_max_right _ _)
      · exact .inl h
    · exact .inr (Nat.le_trans h (Nat.le_max_left _ _))

/-- **A fresh name** is not among the given ones. -/
theorem freshName_not_mem (names : List String) (start : String) :
    freshName names start ∉ names := by
  simp only [freshName]
  split
  · intro h
    have hlen := le_foldl_max (names.map String.length) 0 _ (.inl (List.mem_map_of_mem h))
    simp only [String.length_append, String.length_ofList, List.length_replicate] at hlen
    omega
  · assumption

end DenoPackager

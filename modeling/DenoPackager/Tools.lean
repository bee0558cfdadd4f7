import DenoPackager.Policy
import DenoPackager.Text.Extension

/-!
# External programs

A build uses two programs that it does not contain: a package manager and a compiler. What they
do is given from outside, for every state of the workspace.

## Main definitions

* `Tools`: what the external programs do.
* `PackageManager.start`, `finish`, `kill`, `run`: commands of the package manager.
-/

namespace DenoPackager

/-- **What becomes of a package manager command.** -/
inductive CommandOutcome where
  /-- The program is not there. -/
  | missing
  /-- The program ends with an exit code. -/
  | exits (code : Int)
  deriving Repr, DecidableEq

/-- **What becomes of a run of the compiler.** -/
inductive CompilerOutcome where
  /-- The program is not there. -/
  | missing
  /-- The program does not end in time. -/
  | timesOut
  /-- The program ends with an exit code, after printing and after writing files below the
  directory that it emits to. -/
  | exits (code : Int) (stdout stderr : String) (outputs : List (String × ByteArray))

/-- **External programs**: the platform they run on, and what they do. -/
structure Tools where
  platform : String
  packageManager : Workspace → List String → CommandOutcome
  compiler : Workspace → CompilerRun → CompilerOutcome

/-- **A command line on a platform.** On Windows the programs are batch files, which are started
through the command interpreter. -/
def platformCommand (platform : String) (command : List String) : List String :=
  if platform = "win32" then "cmd" :: "/c" :: command else command

/-- A command line as a text. -/
def commandLine (command : List String) : String :=
  String.intercalate " " command

/-- The file that a source is compiled to: its last extension is replaced, and declaration files
are not compiled. -/
def compiledName? (extension path : String) : Option String :=
  if ".d.ts".toList.isSuffixOf path.toList then none
  else some (String.ofList (Text.splitExtension path.toList).1 ++ extension)

/-- **A compiler that finds no fault**: every script is emitted as it is, and every declaration
file exports nothing. -/
def plainOutputs (declarations : Bool) (files : List (String × String)) :
    List (String × ByteArray) :=
  files.filterMap fun (path, text) =>
    if declarations then
      (compiledName? ".d.ts" path).map fun name => (name, "export \x7b\x7d;\n".toUTF8)
    else (compiledName? ".js" path).map fun name => (name, text.toUTF8)

/-- **A package manager**: the program, and the directory that its commands run in. -/
structure PackageManager where
  program : String
  directory : Path
  deriving Repr

/-- **A command that was started**: its arguments, its command line, and how it will end. -/
structure StartedCommand where
  args : List String
  command : List String
  exitCode : Int
  deriving Repr

namespace PackageManager

/-- The command line that the package manager is started with. -/
def commandFor (m : PackageManager) (tools : Tools) (args : List String) : List String :=
  platformCommand tools.platform (m.program :: args)

/-- What comes of trying a command line. -/
def outcome (m : PackageManager) (args command : List String) :
    CommandOutcome → Action StartedCommand
  | .missing => do
    Action.note (.absent command)
    Action.fail (.processMissing m.program args (command.headD ""))
  | .exits code => pure { args := args, command := command, exitCode := code }

/-- **Starting** a command. -/
def start (m : PackageManager) (tools : Tools) (policy : Policy) (args : List String) :
    Action StartedCommand := do
  let command := m.commandFor tools args
  policy.checkRun (command.headD "")
  Action.log .debug ("Running " ++ commandLine command ++ " in " ++ m.directory.text)
  let w ← Action.get
  Action.note (.launched command m.directory)
  m.outcome args command (tools.packageManager w command)

/-- **Waiting** for a command to end. -/
def finish (m : PackageManager) (c : StartedCommand) : Action Unit := do
  Action.note (.exited c.command c.exitCode)
  if c.exitCode = 0 then pure () else Action.fail (.processFailed m.program c.args c.exitCode)

/-- **Killing** a command. -/
def kill (c : StartedCommand) : Action Unit := do
  Action.log .debug ("Killing " ++ commandLine c.command)
  Action.note (.killed c.command)

/-- Running a command to its end. -/
def run (m : PackageManager) (tools : Tools) (policy : Policy) (args : List String) :
    Action Unit := do
  let c ← m.start tools policy args
  m.finish c

end PackageManager

end DenoPackager

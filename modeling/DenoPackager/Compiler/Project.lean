import DenoPackager.Compiler.Options
import DenoPackager.Workspace.Action

/-!
# Projects

A project holds source files by path and the options that the next program is compiled with.
A program is what a project was when it was compiled: later changes do not touch it.
-/

namespace DenoPackager

/-- **A program**: source files in the order in which they were added, and options. -/
structure Program where
  options : CompilerOptions
  files : List (String × String)

/-- **A project**, which programs are compiled from. -/
structure Project where
  options : CompilerOptions
  files : List (String × String)

namespace Project

/-- A project without files. -/
def empty (options : CompilerOptions) : Project := { options := options, files := [] }

/-- The text of a source file. -/
def get? (p : Project) (path : String) : Option String :=
  p.files.lookup path

/-- A file put among files; a file that is there keeps its place. -/
def putFile : List (String × String) → String → String → List (String × String)
  | [], path, text => [(path, text)]
  | (q, old) :: fs, path, text =>
    if q = path then (q, text) :: fs else (q, old) :: putFile fs path text

/-- The project with a source file added or replaced. -/
def add (p : Project) (path text : String) : Project :=
  { p with files := putFile p.files path text }

/-- The paths of the source files, in ascending order. -/
def filePaths (p : Project) : List String :=
  (p.files.map Prod.fst).mergeSort fun a b => decide (a ≤ b)

/-- The project with options overridden by name. -/
def reconfigure (p : Project) (overrides : List (String × SettingValue)) :
    Except Problem Project :=
  (p.options.merge overrides).map fun options => { p with options := options }

/-- The program that the project is at the moment. -/
def program (p : Project) : Program :=
  { options := p.options, files := p.files }

/-- **Adding** a source file, with a message if it replaces one. -/
def addFile (p : Project) (path text : String) : Action Project := do
  Action.onlyIf (p.get? path).isSome (Action.log .debug ("Replacing source file " ++ path))
  pure (p.add path text)

/-- **Compiling**: the program at the moment, with a message. -/
def compile (p : Project) : Action Program := do
  Action.log .debug ("Compiling " ++ Problem.count p.files.length ++ " file(s) into " ++
    (p.options.get .outDir).config.plainText)
  pure p.program

end Project

end DenoPackager

import DenoPackager.Compiler.Diagnostic
import DenoPackager.Json.Display
import DenoPackager.Json.Printer

/-!
# Failures

Two things can stop a build. A **problem** is something the user is told about: it has a kind,
a message and details. A **fault** is a failure that nobody on the way took for a problem: the
file system refused an action, or a value of the configuration has a shape that an operation
cannot work with.

Every problem is a cause with its data. The wording lives in one place, `Problem.report`.

## Main definitions

* `Fault`, `Problem`, `Failure`: what can go wrong.
* `Kind`: the kinds of problems, each below a more general one.
* `Report`: what the user is told.
-/

namespace DenoPackager

/-- **Faults.** -/
inductive Fault where
  /-- A file or directory is not there. -/
  | notFound
  /-- A file or directory is there already. -/
  | alreadyExists
  /-- A directory stands where a file is needed. -/
  | isDirectory
  /-- A file stands where a directory is needed. -/
  | notDirectory
  /-- A file is not valid UTF-8. -/
  | undecodable
  /-- A value has a type that the operation does not take. -/
  | wrongType
  /-- A value has the right type but is not acceptable. -/
  | badValue
  /-- A member of an object is missing. -/
  | missingKey
  /-- A value lacks a property that the operation relies on. -/
  | missingProperty
  /-- A position lies outside a sequence. -/
  | badIndex
  /-- The operation does not support this input. -/
  | unsupported
  /-- A path is too long to be looked up. -/
  | tooLong
  deriving Repr, DecidableEq

/-! ### Kinds and reports -/

/-- **Kinds of problems.** -/
inductive Kind where
  | any
  | configuration
  | duplicateEntryPoint
  | accessDenied
  | compilation
  | diagnostics
  | emission
  | compiler
  | process
  deriving Repr, DecidableEq

/-- The kind that a kind is a special case of. -/
def Kind.general? : Kind → Option Kind
  | .any => none
  | .configuration => some .any
  | .duplicateEntryPoint => some .configuration
  | .accessDenied => some .configuration
  | .compilation => some .any
  | .diagnostics => some .compilation
  | .emission => some .diagnostics
  | .compiler => some .compilation
  | .process => some .any

/-- How far a kind is from the most general one. -/
def Kind.depth : Kind → Nat
  | .any => 0
  | .configuration | .compilation | .process => 1
  | .duplicateEntryPoint | .accessDenied | .diagnostics | .compiler => 2
  | .emission => 3

theorem Kind.depth_general {k g : Kind} (h : k.general? = some g) : g.depth < k.depth := by
  cases k <;> simp only [Kind.general?, Option.some.injEq, reduceCtorEq] at h <;> subst h <;> decide

/-- A kind and all that it is a special case of. -/
def Kind.lineage (k : Kind) : List Kind :=
  match _h : k.general? with
  | some g => k :: g.lineage
  | none => [k]
  termination_by k.depth
  decreasing_by exact Kind.depth_general _h

/-- **What the user is told.** -/
structure Report where
  kind : Kind
  message : String
  details : Members
  /-- The diagnostics behind the report, if its kind has any. -/
  diagnostics : List Diagnostic
  /-- The emission pass that failed, if the report is about one. -/
  target : Option String
  /-- The arguments and the exit code of the process that failed, if the report is about one. -/
  process : Option (List String × Int)
  deriving Repr

namespace Report

/-- A report with nothing but a kind, a message and details. -/
def plain (kind : Kind) (message : String) (details : Members) : Report :=
  { kind := kind, message := message, details := details, diagnostics := [], target := none
    process := none }

/-- The details with a member added, if there is a value for it. -/
def withDetail (details : Members) (key : String) : Option Json → Members
  | some v => details.put key v
  | none => details

/-- Strings as a value. -/
def strings (ss : List String) : Json :=
  .arr (ss.map .str)

/-- A value that is not nothing. -/
def present : Json → Option Json
  | .null => none
  | v => some v

/-- Two entry points share a name. -/
def duplicateEntryPoint (message : String) (name paths : Option Json) (details : Members) : Report :=
  plain .duplicateEntryPoint message
    (withDetail (withDetail details "name" name) "paths" (Json.given? paths))

/-- The policy refused an action. -/
def accessDenied (message : String) (capability target : Option Json) (details : Members) : Report :=
  plain .accessDenied message
    (withDetail (withDetail details "capability" (Json.given? capability))
      "target" (Json.given? target))

/-- The compiler reported diagnostics. -/
def ofDiagnostics (message : String) (ds : List Diagnostic) (details : Members) : Report :=
  { plain .diagnostics message (details.put "diagnostic_count" (.int ds.length)) with
    diagnostics := ds }

/-- An emission pass reported diagnostics. -/
def emission (message target : String) (ds : List Diagnostic) (details : Members) : Report :=
  { ofDiagnostics message ds (details.put "target" (.str target)) with
    kind := .emission
    target := some target }

/-- The compiler itself failed. -/
def compiler (message : String) (command exitCode output : Option Json) (details : Members) : Report :=
  plain .compiler message
    (withDetail (withDetail (withDetail details "command" (Json.given? command))
      "exit_code" exitCode) "output" (Json.given? output))

/-- An external process failed. -/
def ofProcess (message : String) (args : List String) (exitCode : Int) (details : Members) : Report :=
  { plain .process message
      ((details.put "args" (strings args)).put "exit_code" (.int exitCode)) with
    process := some (args, exitCode) }

/-- **The exit status** of the program after a reported problem. -/
def exitStatus (_ : Report) : Nat := 1

end Report

/-! ### Problems -/

/-- **Problems**, by their causes. -/
inductive Problem where
  /-- A required option is missing. -/
  | missingOption (key : String)
  /-- An entry point is neither a path nor a pair of a name and a path. -/
  | invalidEntryPoint (entry : Json)
  /-- No script target has this name. -/
  | unknownTarget (name : String) (allowed : List String)
  /-- The compiler has no such options. -/
  | unknownCompilerOptions (names : List String)
  /-- Two entry points share a name. -/
  | duplicateEntryPoint (name firstPath secondPath : Json)
  /-- There is no entry point at all. -/
  | noEntryPoint
  /-- No entry point is the root of the package. -/
  | noRootEntryPoint
  /-- The transformed program has another number of entry points than the configuration. -/
  | entryPointMismatch (configured transformed : Nat)
  /-- The configuration is no JSON text. -/
  | invalidConfiguration (reason : String)
  /-- The configuration file cannot be read. -/
  | unreadableConfiguration (file reason : String)
  /-- The configuration is no JSON object. -/
  | configurationNotObject
  /-- The policy does not allow to write there. -/
  | writeDenied (path : String)
  /-- The policy does not allow to run that. -/
  | runDenied (command : String)
  /-- The type check reported diagnostics. -/
  | typeCheckFailed (ds : List Diagnostic)
  /-- An emission pass reported diagnostics. -/
  | emissionFailed (description target : String) (ds : List Diagnostic)
  /-- The compiler is not there. -/
  | compilerMissing (command : List String)
  /-- The compiler took too long. -/
  | compilerTimedOut (limit : Json) (command : List String)
  /-- The compiler failed without a diagnostic. -/
  | compilerFailed (exitCode : Int) (output : String) (command : List String)
  /-- A source file lies outside the directory of the sources. -/
  | sourceOutsideRoot (file root : String)
  /-- Nobody said where to emit to. -/
  | noEmitDirectory
  /-- An external command is not there. -/
  | processMissing (program : String) (args : List String) (executable : String)
  /-- An external command failed. -/
  | processFailed (program : String) (args : List String) (exitCode : Int)
  deriving Repr

namespace Problem

/-- A number in a message. -/
def count (n : Nat) : String :=
  Diagnostic.intText n

/-- A program and its arguments in a message. -/
def commandText (program : String) (args : List String) : String :=
  program ++ " " ++ String.intercalate " " args

/-- **The report of a problem.** -/
def report : Problem → Report
  | missingOption key =>
    .plain .configuration ("Missing required option: " ++ key) [("option", .str key)]
  | invalidEntryPoint entry =>
    .plain .configuration ("Invalid entry point: " ++ entry.shownText) []
  | unknownTarget name allowed =>
    .plain .configuration ("Unknown script target: " ++ name)
      [("allowed", Report.strings allowed)]
  | unknownCompilerOptions names =>
    .plain .configuration ("Unknown compiler option(s): " ++ String.intercalate ", " names)
      [("options", Report.strings names)]
  | duplicateEntryPoint name firstPath secondPath =>
    .duplicateEntryPoint ("Duplicate entry point name: " ++ name.plainText) (Report.present name)
      (some (.arr [firstPath, secondPath])) []
  | noEntryPoint => .plain .configuration "At least one entry point is required" []
  | noRootEntryPoint => .plain .configuration "One entry point must be named \".\"" []
  | entryPointMismatch configured transformed =>
    .plain .configuration "Transform output does not match the entry points"
      [("entry_points", .int configured), ("transformed", .int transformed)]
  | invalidConfiguration reason => .plain .configuration ("Invalid JSON config: " ++ reason) []
  | unreadableConfiguration file reason =>
    .plain .configuration ("Could not read config file " ++ file ++ ": " ++ reason) []
  | configurationNotObject => .plain .configuration "Config must be a JSON object" []
  | writeDenied path =>
    .accessDenied ("Write access denied: " ++ path) (some (.str "write")) (some (.str path)) []
  | runDenied command =>
    .accessDenied ("Run access denied: " ++ command) (some (.str "run")) (some (.str command)) []
  | typeCheckFailed ds =>
    .ofDiagnostics ("Type checking failed with " ++ count ds.length ++ " diagnostic(s)") ds []
  | emissionFailed description target ds =>
    .emission ("Emitting " ++ description ++ " failed with " ++ count ds.length ++ " diagnostic(s)")
      target ds []
  | compilerMissing command =>
    .compiler ("TypeScript compiler not found: " ++ command.headD "")
      (some (Report.strings command)) none none []
  | compilerTimedOut limit command =>
    .compiler ("TypeScript compiler timed out after " ++ limit.plainText ++ "s")
      (some (Report.strings command)) none none []
  | compilerFailed exitCode output command =>
    .compiler ("TypeScript compiler failed with exit code " ++ Diagnostic.intText exitCode)
      (some (Report.strings command)) (some (.int exitCode)) (some (.str output)) []
  | sourceOutsideRoot file root =>
    .compiler ("Source file " ++ file ++ " is outside the project root " ++ root) none none none []
  | noEmitDirectory => .compiler "An emit directory is required when emitting" none none none []
  | processMissing program args executable =>
    .ofProcess (commandText program args ++ " failed: " ++ executable ++ " not found") args 127 []
  | processFailed program args exitCode =>
    .ofProcess (commandText program args ++ " failed with exit code " ++ Diagnostic.intText exitCode)
      args exitCode []

end Problem

/-- **Failures.** -/
inductive Failure where
  | problem (p : Problem)
  | fault (f : Fault)
  deriving Repr

end DenoPackager

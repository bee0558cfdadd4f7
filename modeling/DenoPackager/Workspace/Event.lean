import DenoPackager.Path.Basic
import DenoPackager.Json.Basic

/-!
# Events

What a build does that can be seen from outside while it runs: the messages it logs, the files
it writes and removes, and the programs it starts. A workspace keeps them in order.

## Main definitions

* `Event`: one thing that was done.
* `CompilerRun`: what the compiler was given to work on.
* `messages`, `launches`, `compilerRuns`: the events of one sort.
-/

namespace DenoPackager

/-- **How serious a message is.** -/
inductive Level where
  | debug
  | info
  | warning
  | error
  | critical
  deriving Repr, DecidableEq

/-- The rank of a level, in steps of ten. -/
def Level.rank : Level → Nat
  | .debug => 10
  | .info => 20
  | .warning => 30
  | .error => 40
  | .critical => 50

/-- **One run of the compiler**: its command line, the directory it works in, the configuration
it finds there, and the sources that the configuration names, with their texts. -/
structure CompilerRun where
  command : List String
  directory : Path
  config : Members
  files : List (String × String)
  deriving Repr

/-- **Events.** -/
inductive Event where
  /-- A message was logged. -/
  | logged (level : Level) (message : String)
  /-- A file was written. -/
  | wrote (path : Path)
  /-- A file was removed. -/
  | removed (path : String)
  /-- The start of a package manager command was tried. -/
  | launched (command : List String) (directory : Path)
  /-- The program to start is not there. -/
  | absent (command : List String)
  /-- A package manager command ended by itself. -/
  | exited (command : List String) (code : Int)
  /-- A package manager command was killed. -/
  | killed (command : List String)
  /-- The compiler was run. -/
  | compiled (run : CompilerRun)
  deriving Repr

/-- **A start of the package manager**, and whether it was killed. -/
structure Launch where
  command : List String
  directory : Path
  killed : Bool
  deriving Repr

namespace Event

/-- The messages among the events, from a level on. -/
def messages (least : Level) : List Event → List (Level × String)
  | [] => []
  | .logged level message :: es =>
    if least.rank ≤ level.rank then (level, message) :: messages least es else messages least es
  | _ :: es => messages least es

/-- Whether a command is killed before it is started again. -/
def isKilledIn (command : List String) : List Event → Bool
  | [] => false
  | .killed c :: es => c = command || isKilledIn command es
  | .launched c _ :: es => c ≠ command && isKilledIn command es
  | _ :: es => isKilledIn command es

/-- The starts of the package manager among the events. -/
def launches : List Event → List Launch
  | [] => []
  | .launched command directory :: es =>
    { command := command, directory := directory, killed := isKilledIn command es } :: launches es
  | _ :: es => launches es

/-- The runs of the compiler among the events. -/
def compilerRuns : List Event → List CompilerRun
  | [] => []
  | .compiled run :: es => run :: compilerRuns es
  | _ :: es => compilerRuns es

end Event

end DenoPackager

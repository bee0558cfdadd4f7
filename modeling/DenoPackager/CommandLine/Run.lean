import DenoPackager.Build
import DenoPackager.CommandLine.Arguments
import DenoPackager.Configuration.Source
import DenoPackager.Console

/-!
# The command line

The command line takes a configuration, changes it as its options ask for, and builds the
package. Messages are shown while the build goes on. A problem ends the program with its exit
status, after its message was shown; the diagnostics of a compiler were shown already.

## Main definitions

* `CommandLine.run`: a run of the program.
-/

namespace DenoPackager.CommandLine

/-- The name of the program. -/
def programName : String := "dnt"

/-- **How a run of the program ends.** -/
inductive Ending where
  /-- Help was asked for. -/
  | help
  /-- The command line is bad; this is the line that says so. -/
  | usage (line : String)
  /-- The program ended with a status. -/
  | finished (status : Nat)
  /-- The program broke off. -/
  | broken (f : Fault)
  deriving Repr, DecidableEq

/-- The exit status of an ending. -/
def Ending.status : Ending → Nat
  | .help => 0
  | .usage _ => 2
  | .finished status => status
  | .broken _ => 1

/-- The line that says what is wrong with a command line. -/
def usageLine (e : UsageError) : String :=
  programName ++ ": error: " ++ e.message

/-- A configuration changed by a flag, if it is set. -/
def withFlag (ms : Members) (key : String) (isSet value : Bool) : Members :=
  if isSet then ms.put key (.bool value) else ms

/-- **A configuration changed** as the command line asks for. -/
def override (a : Arguments) (ms : Members) : Members :=
  let ms := match a.outDir with
    | some dir => ms.put "outDir" dir
    | none => ms
  let ms := withFlag ms "typeCheck" a.noTypeCheck false
  let ms := withFlag ms "test" a.noTest false
  let ms := withFlag ms "declaration" a.noDeclaration false
  let ms := withFlag ms "keepSourceFiles" a.keepSourceFiles true
  withFlag ms "keepTestFiles" a.keepTestFiles true

/-- Loading the configuration that the command line names. -/
def loadConfig (a : Arguments) : Action Members :=
  match a.config with
  | some (.str s) => Configuration.load s
  | _ => Action.fault .missingProperty

/-- **The build** that the command line asks for. -/
def buildConfigured (b : BuildTools) (a : Arguments) : Action BuildResult := do
  let ms ← loadConfig a
  let c ← Action.ofExcept (Configuration.ofMembers (override a ms))
  build b (BuildOptions.ofConfiguration c)

/-- Whether a problem's diagnostics were shown when it arose. -/
def isShown (r : Report) : Bool :=
  r.kind.lineage.contains .diagnostics

/-- **The rest of a run** once the arguments are taken: a problem is shown, and ends the
program with its exit status. -/
def finish (b : BuildTools) (a : Arguments) : Action Ending := do
  match ← Action.attempt (buildConfigured b a) with
  | .ok _ => pure (.finished 0)
  | .error (.fault f) => pure (.broken f)
  | .error (.problem p) =>
    let r := p.report
    if isShown r then pure () else Action.log .error r.message
    pure (.finished r.exitStatus)

/-- **A run of the program**: how it ends, and whether all messages are to be shown. -/
def run (b : BuildTools) (texts : List String) : Action (Ending × Bool) :=
  match Arguments.parse texts with
  | .error .help => pure (.help, false)
  | .error (.usage e) => pure (.usage (usageLine e), false)
  | .ok a => do
    let ending ← finish b a
    pure (ending, a.verbose)

/-- What a run shows on its console. -/
def shownText (verbose : Bool) (events : List Event) : String :=
  Console.plainLines (Event.messages (Console.leastLevel verbose) events)

end DenoPackager.CommandLine

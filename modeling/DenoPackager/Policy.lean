import DenoPackager.Workspace.Action

/-!
# Policies

A policy says which directories may be written below and which commands may be started. A list
that is not given allows everything. Paths are compared by their absolute normal forms, a
command also by its last name.
-/

namespace DenoPackager

/-- **What is allowed.** -/
structure Policy where
  /-- The directories that may be written, with everything below them. -/
  writeRoots : Option (List Path)
  /-- The commands that may be started. -/
  runCommands : Option (List String)
  deriving Repr

namespace Policy

/-- Everything is allowed. -/
def unrestricted : Policy := { writeRoots := none, runCommands := none }

/-- Nothing is allowed. -/
def denyAll : Policy := { writeRoots := some [], runCommands := some [] }

/-- Writing is confined to a directory, and running to a list of commands if there is one. -/
def confinedTo (dir : Path) (commands : Option (List String)) : Policy :=
  { writeRoots := some [dir], runCommands := commands }

/-- Whether a path may be written, seen from `cwd`. -/
def allowsWrite (policy : Policy) (cwd path : Path) : Bool :=
  match policy.writeRoots with
  | none => true
  | some roots => roots.any fun root => (path.absolute cwd).isWithin (root.absolute cwd)

/-- Whether a command may be started. -/
def allowsRun (policy : Policy) (command : String) : Bool :=
  match policy.runCommands with
  | none => true
  | some commands => commands.contains command || commands.contains (Path.ofString command).name

/-- **Checking a write** to the path with this text. -/
def checkWrite (policy : Policy) (text : String) : Action Unit := do
  let w ← Action.get
  let path := Path.ofString text
  if policy.allowsWrite w.cwd path then pure ()
  else
    Action.log .debug ("Denied write to " ++ (path.absolute w.cwd).text)
    Action.fail (.writeDenied text)

/-- **Checking the start** of a command. -/
def checkRun (policy : Policy) (command : String) : Action Unit := do
  if policy.allowsRun command then pure ()
  else
    Action.log .debug ("Denied run of " ++ command)
    Action.fail (.runDenied command)

end Policy

end DenoPackager

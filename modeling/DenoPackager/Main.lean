import DenoPackager.CommandLine.Run

/-!
# The program

The program reads the files of the current directory, runs on them, and writes what changed. It
starts no other program: commands of the package manager succeed and do nothing, and the
compiler finds no fault and passes every script on as it is.

This is the only module that reads and writes anything; all decisions are taken by
`CommandLine.run`.
-/

namespace DenoPackager.CommandLine

/-- External programs that find no fault. -/
def plainTools : Tools :=
  { platform := "linux"
    packageManager := fun _ _ => .exits 0
    compiler := fun _ run =>
      let options := ((run.config.get? "compilerOptions").getD .null).members
      let declarations := ((options.get? "emitDeclarationOnly").getD .null).truthy
      .exits 0 "" "" (plainOutputs declarations run.files) }

/-- The name of a place in the file system. -/
def placeName (p : Place) : String :=
  "/" ++ String.intercalate "/" p

/-- The tree with a file of the file system in it, if there is one. -/
def readPlace (t : FileTree) (p : Place) : IO FileTree := do
  try
    let content ← IO.FS.readBinFile (placeName p)
    return t.insert p (.file content)
  catch _ => return t

/-- The tree with what the file system has at a place and below it. -/
partial def readBelow (t : FileTree) (p : Place) (entry : IO.FS.DirEntry) : IO FileTree := do
  if ← entry.path.isDir then
    let mut t := t.insert p .directory
    for inner in ← entry.path.readDir do
      t ← readBelow t (p ++ [inner.fileName]) inner
    return t
  else readPlace t p

/-- The tree of the current directory, with the directories above it. -/
def readTree (cwd : Path) : IO FileTree := do
  let mut t := FileTree.empty.insert ["tmp"] .directory
  for n in List.range cwd.parts.length do
    t := t.insert (cwd.parts.take (n + 1)) .directory
  for entry in ← (← IO.currentDir).readDir do
    t ← readBelow t (cwd.parts ++ [entry.fileName]) entry
  return t

/-- Writing what a new tree has and the old one has not, and removing the files of the old one
that the new one has not. -/
def writeChanges (old new : FileTree) : IO Unit := do
  for (p, n) in new.entriesFrom [] do
    if old.get? p ≠ some n then
      match n with
      | .directory => IO.FS.createDirAll (placeName p)
      | .file content => do
        IO.FS.createDirAll (placeName p.dropLast)
        IO.FS.writeBinFile (placeName p) content
  for (p, n) in old.entriesFrom [] do
    if n ≠ .directory ∧ new.get? p = none then IO.FS.removeFile (placeName p)

/-- **The program**: its exit status. -/
def program (texts : List String) : IO UInt32 := do
  let cwd := Path.ofString (← IO.currentDir).toString
  let tree ← readTree cwd
  let (r, w) := (run (.standard plainTools) texts).run (Workspace.fresh cwd tree)
  writeChanges tree w.tree
  match r with
  | .error _ => return 1
  | .ok (ending, verbose) => do
    IO.print (shownText verbose w.events)
    match ending with
    | .help => IO.println ("usage: " ++ programName ++ " [options]")
    | .usage line => IO.eprintln line
    | .broken _ => IO.eprintln (programName ++ ": internal error")
    | .finished _ => pure ()
    return UInt32.ofNat ending.status

end DenoPackager.CommandLine

/-- The program. -/
def main (texts : List String) : IO UInt32 :=
  DenoPackager.CommandLine.program texts

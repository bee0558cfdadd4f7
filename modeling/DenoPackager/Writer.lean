import DenoPackager.Policy

/-!
# The writer

All files of a build are written and removed through the writer. It asks the policy first, makes
the directories on the way, and remembers which directories it has seen to and which files it
has written. It writes text as UTF-8, exactly as it is.
-/

namespace DenoPackager.Writer

/-- The byte order mark. -/
def byteOrderMark : Char := '\uFEFF'

/-- The bytes of a text, after a byte order mark if there is to be one. -/
def encode (text : String) (mark : Bool) : ByteArray :=
  (if mark then String.singleton byteOrderMark ++ text else text).toUTF8

/-- Seeing to a directory, unless that has been done before. -/
def seeTo (dir : Path) : Action Unit := do
  let w ← Action.get
  if w.created.contains dir then pure ()
  else
    Action.change fun t cwd => t.makeDirs cwd dir
    Action.modify fun w => { w with created := w.created ++ [dir] }

/-- **Writing** a text to a path, with a byte order mark in front if `mark` is set. -/
def writeMarked (policy : Policy) (path : Path) (text : String) (mark : Bool) : Action Unit := do
  policy.checkWrite path.text
  seeTo path.parent
  Action.step fun t cwd => t.write cwd path (encode text mark)
  Action.modify fun w => { w with written := w.written ++ [path] }
  Action.note (.wrote path)

/-- Writing a text to a path. -/
def write (policy : Policy) (path : Path) (text : String) : Action Unit :=
  writeMarked policy path text false

/-- **Removing** the file at a path. -/
def remove (policy : Policy) (path : String) : Action Unit := do
  policy.checkWrite path
  Action.log .debug ("Removing " ++ path)
  Action.step fun t cwd => t.remove cwd path
  Action.note (.removed path)

/-- Removing files of a directory, one after the other. -/
def removeAll (policy : Policy) (dir : Path) (names : List String) : Action Unit := do
  Action.forEach (fun name => remove policy (dir.joinText name).text) names
  Action.log .debug ("Removed " ++ Problem.count names.length ++ " test artifact(s)")

end DenoPackager.Writer

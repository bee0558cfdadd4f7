import DenoPackager.Glob.Braces
import DenoPackager.Glob.Search
import DenoPackager.Json.Equality
import DenoPackager.Json.Parts
import DenoPackager.Workspace.Action

/-!
# Finding tests

The tests of a program are the files below a directory that match a pattern, except for those
in the directories of installed packages and of version control and in directories that are
left out by request.

A pattern is a text. Any other value that counts as given is no pattern, which is a fault once
the search begins.

## Main definitions

* `Discovery.patternOf`: the pattern that a value stands for.
* `Discovery.testsIn`: the tests that a file tree holds.
* `Discovery.find`: finding the tests, as an action.
-/

namespace DenoPackager.Discovery

open DenoPackager.Glob

/-- **The pattern of test files**: files called `test`, or with a name that ends in `.test` or
`_test`, with the extension of a script. -/
def defaultPattern : String :=
  let extensions := "\x7bts,tsx,js,mjs,jsx\x7d"
  "**/\x7btest." ++ extensions ++ ",*.test." ++ extensions ++ ",*_test." ++ extensions ++ "\x7d"

/-- A part of a value as a character of a pattern: all that counts is whether it is a brace. -/
def braceOf (v : Json) : Char :=
  if v == .str "\x7b" then '{' else if v == .str "\x7d" then '}' else ' '

/-- The fault of a value that is no pattern. One that has parts is taken for a pattern until
alternatives are put together, or, if it has none, until it is searched for. -/
def patternFault (v : Json) : Fault :=
  match v.parts with
  | .error f => f
  | .ok parts => if (firstGroup? (parts.map braceOf)).isSome then .wrongType else .missingProperty

/-- **The pattern that a value stands for.** What does not count as given stands for the pattern
of test files. -/
def patternOf (v : Json) : Except Fault String :=
  if v.truthy then
    match v with
    | .str s => .ok s
    | v => .error (patternFault v)
  else .ok defaultPattern

/-- The names of directories that hold no tests of the program itself. -/
def ignoredNames : List String := ["node_modules", ".git"]

/-- The path of what was found below a directory. -/
def pathOf (root : Path) (f : Found) : Path :=
  { root with parts := root.parts ++ f.way }

/-- Whether what was found is a test: a file, in no ignored directory and in none of those that
are left out. -/
def isTest (t : FileTree) (root : Path) (excluded : List Path) (f : Found) : Bool :=
  t.isFileAt f.place &&
    !(f.way.any ignoredNames.contains) &&
    !(excluded.any fun dir => (pathOf root f).isWithin dir)

/-- What the expanded patterns find below a directory. -/
def search (t : FileTree) (root : Path) : List (List Char) → Except Fault (List Found)
  | [] => .ok []
  | p :: ps =>
    match Glob.search t root.parts (String.ofList (Text.dropStart "./".toList p)) with
    | .error e => .error e
    | .ok found => (search t root ps).map (found ++ ·)

/-- **The tests in a file tree**: the files below `root` that match the pattern, in ascending
order and without repetition. -/
def testsIn (t : FileTree) (root : Path) (pattern : String) (excluded : List Path) :
    Except Fault (List Path) :=
  (search t root (expandBraces pattern.toList)).map fun found =>
    Path.ascendingBy Path.key ((found.filter (isTest t root excluded)).map (pathOf root))

/-- **Finding tests** below a directory. -/
def find (root : Path) (pattern : Json) (excluded : List Path) : Action (List Path) := do
  let w ← Action.get
  Action.onlyIf ((root :: excluded).any fun p => p.parts.any Path.hasNul) (Action.fault .badValue)
  let dir := root.resolved w.cwd
  let tests ← Action.look fun t cwd => do
    testsIn t dir (← patternOf pattern) (excluded.map (·.resolved cwd))
  Action.log .debug ("Found " ++ Problem.count tests.length ++ " test file(s) in " ++ dir.text)
  pure tests

end DenoPackager.Discovery

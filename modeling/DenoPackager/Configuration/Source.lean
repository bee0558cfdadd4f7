import DenoPackager.Json.Reader
import DenoPackager.Text.Blank
import DenoPackager.Workspace.Action

/-!
# Where a configuration comes from

A configuration is given as a JSON text or as the path of a file that holds one. A text is taken
for JSON if it starts with an opening brace, blanks aside.
-/

namespace DenoPackager.Configuration

/-- Whether a text is meant as JSON itself. -/
def isInline (s : String) : Bool :=
  (Text.dropBlanks s.toList).head? = some '{'

/-- What the system says about a file that it did not open: a number, its meaning, and the file. -/
def systemText (code : Int) (meaning : String) (file : Path) : String :=
  "[Errno " ++ Diagnostic.intText code ++ "] " ++ meaning ++ ": " ++ (Json.str file.text).shownText

/-- The failure that a fault is when a configuration file is opened. -/
def fileFailure (s : String) (f : Fault) : Failure :=
  let unreadable (code : Int) (meaning : String) : Failure :=
    .problem (.unreadableConfiguration s (systemText code meaning (Path.ofString s)))
  match f with
  | .notFound => unreadable 2 "No such file or directory"
  | .notDirectory => unreadable 20 "Not a directory"
  | .isDirectory => unreadable 21 "Is a directory"
  | f => .fault f

/-- The JSON text that is meant. -/
def sourceText (s : String) : Action String := do
  if isInline s then pure s
  else
    let w ← Action.get
    match w.tree.readText w.cwd (Path.ofString s) with
    | .ok text => pure text
    | .error f => Action.failure (fileFailure s f)

/-- The members of the object that a JSON text is. -/
def parse (text : String) : Except Failure Members :=
  match Json.read text.toList with
  | .ok (.obj ms) => .ok ms
  | .ok _ => .error (.problem .configurationNotObject)
  | .error (.malformed m) => .error (.problem (.invalidConfiguration (m.report text.toList)))
  | .error .oversized => .error (.fault .badValue)

/-- **Loading** a configuration: the members of the object. -/
def load (s : String) : Action Members := do
  let text ← sourceText s
  Action.ofExcept (parse text)

end DenoPackager.Configuration

import DenoPackager.Workspace.Event

/-!
# The console

Messages are shown on a console, each on a line of its own behind a tag. On a terminal warnings
are yellow and errors red, unless the environment asks for no colour.

A console is set up for a stream; setting it up again leads all later messages to the new
stream. Messages below its level are not shown, nor are those of loggers that are not the
program's own.
-/

namespace DenoPackager

namespace Console

/-- The name of the program's own logger; its other loggers have names that go on from there. -/
def loggerName : String := "dnt"

/-- The tag in front of every message. -/
def tag : String := "[dnt]"

/-- The escape sequence that starts a colour or ends it. -/
def escape (code : String) : String := "\x1b[" ++ code ++ "m"

/-- The colour of messages of a rank, if they have one. -/
def colour? (rank : Nat) : Option String :=
  if 40 ≤ rank then some (escape "31") else if 30 ≤ rank then some (escape "33") else none

/-- **The text of a message** of a rank. -/
def format (colours : Bool) (rank : Nat) (message : String) : String :=
  let text := tag ++ " " ++ message
  match colours, colour? rank with
  | true, some colour => colour ++ text ++ escape "0"
  | _, _ => text

/-- The line of a message. -/
def line (colours : Bool) (level : Level) (message : String) : String :=
  format colours level.rank message ++ "\n"

/-- The lines of messages, without colours. -/
def plainLines (messages : List (Level × String)) : String :=
  String.join (messages.map fun m => line false m.1 m.2)

/-- Whether a stream shows colours: a terminal does unless the environment asks for none. -/
def showsColours (noColour : Option String) (isTerminal : Bool) : Bool :=
  (noColour.getD "" = "") && isTerminal

/-- The least level of the messages that are shown. -/
def leastLevel (verbose : Bool) : Level :=
  if verbose then .debug else .info

/-- Whether a logger is one of the program's own. -/
def isOwnLogger (name : String) : Bool :=
  name = loggerName || (loggerName ++ ".").toList.isPrefixOf name.toList

end Console

/-- **A console**: what every stream got so far, and how messages are shown on the last one. -/
structure Console where
  outputs : List String
  colours : Bool
  least : Level
  deriving Repr

namespace Console

/-- The console that was never set up. -/
def closed : Console := { outputs := [], colours := false, least := .info }

/-- The console set up for a new stream. -/
def configure (c : Console) (colours verbose : Bool) : Console :=
  { outputs := c.outputs ++ [""], colours := colours, least := leastLevel verbose }

/-- A text added to the last of some outputs. -/
def addToLast (text : String) : List String → List String
  | [] => []
  | [s] => [s ++ text]
  | s :: ss => s :: addToLast text ss

/-- **Logging** a message. -/
def log (c : Console) (logger : String) (level : Level) (message : String) : Console :=
  if isOwnLogger logger ∧ c.least.rank ≤ level.rank then
    { c with outputs := addToLast (line c.colours level message) c.outputs }
  else c

end Console

end DenoPackager

import DenoPackager.Json.Display
import DenoPackager.Text.Digit
import DenoPackager.Text.Pieces

/-!
# Command line arguments

The command line knows options only. A long option may be cut short as long as it stays
unambiguous, and its value may follow an equals sign. Short options may be run together behind
one hyphen. What looks like a negative number or holds a blank is no option, and after two
hyphens nothing is.

All arguments are sorted first: an ambiguous option is reported before anything else. Then the
options are taken one by one.

## Main definitions

* `Argument.ofText`: what an argument is on its own.
* `Arguments.parse`: reading a command line.
* `UsageError.message`: what is said about a bad command line.
-/

namespace DenoPackager

/-- **What an option is for.** -/
inductive OptionRole where
  | help
  | config
  | outDir
  | noTypeCheck
  | noTest
  | noDeclaration
  | keepSourceFiles
  | keepTestFiles
  | verbose
  deriving Repr, DecidableEq

namespace OptionRole

/-- All roles, in the order in which options are listed. -/
def all : List OptionRole :=
  [.help, .config, .outDir, .noTypeCheck, .noTest, .noDeclaration, .keepSourceFiles,
    .keepTestFiles, .verbose]

/-- The names of the option with a role. -/
def names : OptionRole → List String
  | .help => ["-h", "--help"]
  | .config => ["--config"]
  | .outDir => ["--out-dir"]
  | .noTypeCheck => ["--no-type-check"]
  | .noTest => ["--no-test"]
  | .noDeclaration => ["--no-declaration"]
  | .keepSourceFiles => ["--keep-source-files"]
  | .keepTestFiles => ["--keep-test-files"]
  | .verbose => ["--verbose", "-v"]

/-- Whether the option takes a value. -/
def takesValue : OptionRole → Bool
  | .config | .outDir => true
  | _ => false

/-- All names with their roles. -/
def named : List (String × OptionRole) :=
  all.flatMap fun role => role.names.map fun name => (name, role)

/-- The role of the option with just this name. -/
def ofName? (name : String) : Option OptionRole :=
  named.lookup name

end OptionRole

/-- **What is wrong with a command line.** -/
inductive UsageError where
  /-- An option could be several. -/
  | ambiguous (argument : String) (candidates : List String)
  /-- The value of an option is missing. -/
  | missingValue (role : OptionRole)
  /-- An option takes no value, but has one. -/
  | unexpectedValue (role : OptionRole) (value : String)
  /-- The configuration is missing. -/
  | missingConfig
  /-- Nobody knows these arguments. -/
  | unrecognized (arguments : List String)
  deriving Repr, DecidableEq

namespace UsageError

/-- An option in a message, with all its names. -/
def optionText (role : OptionRole) : String :=
  "argument " ++ String.intercalate "/" role.names ++ ": "

/-- **What is said** about a bad command line. -/
def message : UsageError → String
  | ambiguous argument candidates =>
    "ambiguous option: " ++ argument ++ " could match " ++ String.intercalate ", " candidates
  | missingValue role => optionText role ++ "expected one argument"
  | unexpectedValue role value =>
    optionText role ++ "ignored explicit argument " ++ (Json.str value).shownText
  | missingConfig => "the following arguments are required: --config"
  | unrecognized arguments =>
    "unrecognized arguments: " ++ String.intercalate " " arguments

end UsageError

/-- **An argument on its own.** -/
inductive Argument where
  /-- A value, or something that is in the wrong place. -/
  | value (text : String)
  /-- Two hyphens, after which nothing is an option. -/
  | separator
  /-- An option by its full name, with the value that it carries. -/
  | option (role : OptionRole) (name : String) (carried : Option String)
  /-- An option that nobody knows. -/
  | unknown (text : String)
  deriving Repr, DecidableEq

namespace Argument

/-- An option's name and the value after an equals sign. -/
def splitCarried (s : String) : String × Option String :=
  match s.toList.dropWhile (· ≠ '=') with
  | _ :: v => (String.ofList (s.toList.takeWhile (· ≠ '=')), some (String.ofList v))
  | [] => (s, none)

/-- Whether a name starts with a text. -/
def startsWith (name start : String) : Bool :=
  Text.startsWith start.toList name.toList

/-- **The options that an argument may be cut short from.** Behind a single hyphen a short
option may carry a value without an equals sign. -/
def candidates (s : String) : List (OptionRole × String × Option String) :=
  match s.toList with
  | '-' :: '-' :: _ =>
    let (start, carried) := splitCarried s
    (OptionRole.named.filter fun o => startsWith o.1 start).map fun o => (o.2, o.1, carried)
  | '-' :: c :: rest =>
    OptionRole.named.filterMap fun o =>
      if o.1 = String.ofList ['-', c] then some (o.2, o.1, some (String.ofList rest))
      else if startsWith o.1 s then some (o.2, o.1, none)
      else none
  | _ => []

/-- A line feed at the end is not looked at. -/
def withoutLastBreak (s : List Char) : List Char :=
  if s.getLast? = some '\n' then s.dropLast else s

/-- Whether a text is a negative number: digits, perhaps with a point among them and then with a
digit after it. -/
def isNegativeNumber (s : String) : Bool :=
  match withoutLastBreak s.toList with
  | '-' :: digits =>
    match digits.dropWhile Text.isDigit with
    | [] => !digits.isEmpty
    | '.' :: fraction => !fraction.isEmpty && fraction.all Text.isDigit
    | _ => false
  | _ => false

/-- **What an argument is**, looked at alone. -/
def ofText (s : String) : Except UsageError Argument :=
  match s.toList with
  | '-' :: _ :: _ =>
    let (name, carried) := splitCarried s
    match OptionRole.ofName? s, OptionRole.ofName? name, carried with
    | some role, _, _ => .ok (.option role s none)
    | none, some role, some v => .ok (.option role name (some v))
    | _, _, _ =>
      match candidates s with
      | [(role, name, carried)] => .ok (.option role name carried)
      | [] =>
        if isNegativeNumber s || s.toList.contains ' ' then .ok (.value s) else .ok (.unknown s)
      | several => .error (.ambiguous s (several.map fun c => c.2.1))
  | _ => .ok (.value s)

/-- **Sorting the arguments**, up to two hyphens and after them. -/
def ofTexts : List String → Except UsageError (List Argument)
  | [] => .ok []
  | s :: ss =>
    if s = "--" then .ok (.separator :: ss.map .value)
    else
      match ofText s with
      | .error e => .error e
      | .ok a => (ofTexts ss).map (a :: ·)

end Argument

/-- **What a command line asks for.** The value of an option is text; two hyphens as a value
stand for an empty list. -/
structure Arguments where
  config : Option Json
  outDir : Option Json
  noTypeCheck : Bool
  noTest : Bool
  noDeclaration : Bool
  keepSourceFiles : Bool
  keepTestFiles : Bool
  verbose : Bool
  /-- What nobody knows, in order. -/
  extras : List String
  deriving Repr

/-- **Why the arguments are not taken**: help is asked for, or something is wrong. -/
inductive Refusal where
  | help
  | usage (e : UsageError)
  deriving Repr, DecidableEq

namespace Arguments

/-- Nothing is asked for. -/
def none : Arguments :=
  { config := Option.none, outDir := Option.none, noTypeCheck := false, noTest := false
    noDeclaration := false, keepSourceFiles := false, keepTestFiles := false, verbose := false
    extras := [] }

/-- The value of an option. -/
def value (s : String) : Json :=
  if s = "--" then .arr [] else .str s

/-- Taking an option that has no value. -/
def takeFlag (a : Arguments) : OptionRole → Except Refusal Arguments
  | .help => .error .help
  | .noTypeCheck => .ok { a with noTypeCheck := true }
  | .noTest => .ok { a with noTest := true }
  | .noDeclaration => .ok { a with noDeclaration := true }
  | .keepSourceFiles => .ok { a with keepSourceFiles := true }
  | .keepTestFiles => .ok { a with keepTestFiles := true }
  | .verbose => .ok { a with verbose := true }
  | .config | .outDir => .ok a

/-- Taking an option that has a value. -/
def takeValue (a : Arguments) (role : OptionRole) (s : String) : Arguments :=
  match role with
  | .config => { a with config := some (value s) }
  | .outDir => { a with outDir := some (value s) }
  | _ => a

/-- Taking options that have no values, one after the other. -/
def takeFlags (a : Arguments) : List OptionRole → Except Refusal Arguments
  | [] => .ok a
  | role :: roles =>
    match a.takeFlag role with
    | .ok a => a.takeFlags roles
    | .error e => .error e

/-- **Short options run together**: the roles of `role` and of those that it carries. -/
def runTogether (role : OptionRole) : List Char → Except UsageError (List OptionRole)
  | [] => .ok [role]
  | c :: cs =>
    match OptionRole.ofName? (String.ofList ['-', c]) with
    | some next => (runTogether next cs).map (role :: ·)
    | Option.none => .error (.unexpectedValue role (String.ofList (c :: cs)))

/-- Whether a name is that of a short option. -/
def isShort (name : String) : Bool :=
  name.length = 2

/-- The options without values that an option and the value that it carries stand for. -/
def flags (role : OptionRole) (name : String) (carried : Option String) :
    Except UsageError (List OptionRole) :=
  match carried with
  | Option.none => .ok [role]
  | some v => if isShort name ∧ v ≠ "" then runTogether role v.toList
    else .error (.unexpectedValue role v)

/-- **Taking the arguments** one by one. -/
def take (a : Arguments) : List Argument → Except Refusal Arguments
  | [] => .ok a
  | .value s :: rest => take { a with extras := a.extras ++ [s] } rest
  | .separator :: rest => take { a with extras := a.extras ++ ["--"] } rest
  | .unknown s :: rest => take { a with extras := a.extras ++ [s] } rest
  | .option role name carried :: rest =>
    if role.takesValue then
      match carried, rest with
      | some v, rest => take (a.takeValue role v) rest
      | Option.none, .value v :: rest => take (a.takeValue role v) rest
      | Option.none, _ => .error (.usage (.missingValue role))
    else
      match flags role name carried with
      | .error e => .error (.usage e)
      | .ok roles =>
        match a.takeFlags roles with
        | .error e => .error e
        | .ok a => take a rest

/-- Whether a configuration is given and every argument is known. -/
def check (a : Arguments) : Except UsageError Arguments :=
  if a.config.isNone then .error .missingConfig
  else if a.extras ≠ [] then .error (.unrecognized a.extras)
  else .ok a

/-- **Reading a command line.** -/
def parse (texts : List String) : Except Refusal Arguments :=
  match Argument.ofTexts texts with
  | .error e => .error (.usage e)
  | .ok arguments =>
    match take none arguments with
    | .error e => .error e
    | .ok a => (check a).mapError .usage

end Arguments

end DenoPackager

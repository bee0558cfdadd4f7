import DenoPackager.Failure
import DenoPackager.Text.Pieces

/-!
# Script targets

The language level of emitted scripts. A target is asked for by its name, in upper or lower
case.

## Main results

* `ofName?_name`: every target is found under its own name.
-/

namespace DenoPackager

/-- **Script targets.** -/
inductive ScriptTarget where
  | es3
  | es5
  | es2015
  | es2016
  | es2017
  | es2018
  | es2019
  | es2020
  | es2021
  | es2022
  | latest
  deriving Repr, DecidableEq

namespace ScriptTarget

/-- All targets, in ascending order. -/
def all : List ScriptTarget :=
  [.es3, .es5, .es2015, .es2016, .es2017, .es2018, .es2019, .es2020, .es2021, .es2022, .latest]

/-- The name of a target. -/
def name : ScriptTarget → String
  | .es3 => "ES3"
  | .es5 => "ES5"
  | .es2015 => "ES2015"
  | .es2016 => "ES2016"
  | .es2017 => "ES2017"
  | .es2018 => "ES2018"
  | .es2019 => "ES2019"
  | .es2020 => "ES2020"
  | .es2021 => "ES2021"
  | .es2022 => "ES2022"
  | .latest => "Latest"

/-- The name of a target in the compiler's configuration. -/
def configName : ScriptTarget → String
  | .latest => "ESNext"
  | t => t.name

/-- The target that is used unless another one is asked for. -/
def standard : ScriptTarget := .es2021

/-- The target of a name, in upper or lower case. -/
def ofName? (s : String) : Option ScriptTarget :=
  all.find? fun t => Text.lowerAscii t.name.toList = Text.lowerAscii s.toList

/-- **Reading a target**: nothing stands for the standard one, and a string for the target of
that name. -/
def ofJson : Json → Except Failure ScriptTarget
  | .null => .ok standard
  | .str s =>
    match ofName? s with
    | some t => .ok t
    | none => .error (.problem (.unknownTarget s (all.map name)))
  | _ => .error (.fault .missingProperty)

/-- Every target is found under its own name. -/
theorem ofName?_name (t : ScriptTarget) : ofName? t.name = some t := by
  cases t <;> decide +kernel

end ScriptTarget

end DenoPackager

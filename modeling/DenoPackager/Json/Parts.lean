import DenoPackager.Failure
import DenoPackager.Json.Key
import DenoPackager.Path.Basic

/-!
# Values taken apart

What a value of a configuration can be asked for: its parts, a member, a path, a key, a table.
A value that is not of a kind to have what is asked for is a fault, and so is a required member
that is missing.

## Main definitions

* `Json.parts`, `Json.member`, `Json.path`, `Json.key`: what a value consists of and what it is.
* `Table.ofValue`: the table that a value describes.
-/

namespace DenoPackager

namespace Json

/-- **What a value consists of**: the items of an array, the characters of a string, the names
of an object. -/
def parts : Json → Except Fault (List Json)
  | .arr items => .ok items
  | .str s => .ok (s.toList.map fun c => .str (String.singleton c))
  | .obj ms => .ok (ms.map fun m => .str m.1)
  | _ => .error .wrongType

/-- **A required member** of an object. -/
def member : Json → String → Except Fault Json
  | .obj ms, name =>
    match Table.get? ms name with
    | some v => .ok v
    | none => .error .missingKey
  | _, _ => .error .wrongType

/-- **The path** that a value is; only strings are paths. -/
def path : Json → Except Fault Path
  | .str s => .ok (Path.ofString s)
  | _ => .error .wrongType

/-- **The key** that a value is. -/
def key (v : Json) : Except Fault Key :=
  match Key.ofJson? v with
  | some k => .ok k
  | none => .error .wrongType

end Json

/-- The entry of a table that a pair of values describes. -/
def Table.entryOf (pair : Json) : Except Fault (Key × Json) := do
  match ← pair.parts with
  | [name, value] => .ok (← name.key, value)
  | _ => .error .badValue

/-- **The table that a value describes**: that of an object, or that of a list of pairs. -/
def Table.ofValue : Json → Except Fault (Table Key)
  | .obj ms => .ok (Table.ofMembers ms)
  | v => do
    let pairs ← v.parts
    let entries ← pairs.mapM Table.entryOf
    .ok (Table.ofPairs entries)

end DenoPackager

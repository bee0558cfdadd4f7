import DenoPackager.Json.Parts
import DenoPackager.Text.Extension

/-!
# Entry points

An entry point is a source file that the package exports under a name; the name `.` is the
package itself. Entry points may be given as bare paths: the first one is the package itself,
the others are exported under their own paths, with the extension of a script.

A name and a path that are given as a pair are kept as they are. Which names are equal is decided
when names are checked, and whether a path is one is decided when the file is looked for.

## Main definitions

* `EntryPoint.ofSpecs`: the entry points that a list of specifications stands for.
* `EntryPoint.check`: whether names are unique and the package itself is among them.

## Main results

* `check_ok_iff`: what is accepted.
-/

namespace DenoPackager

/-- **An entry point** of the package. -/
structure EntryPoint where
  name : Json
  path : Json
  deriving Repr

/-- **A specification** of an entry point. -/
inductive EntrySpec where
  /-- A path alone. -/
  | bare (path : String)
  /-- A name and a path. -/
  | named (entry : EntryPoint)
  deriving Repr

namespace EntryPoint

/-- The name of the package itself. -/
def rootName : String := "."

/-- The path with the extension of a script. -/
def scriptPath (path : String) : String :=
  String.ofList (Text.toScriptName path.toList)

/-- The entry point of a specification, which may be the first one. -/
def ofSpec (isFirst : Bool) : EntrySpec → EntryPoint
  | .named entry => entry
  | .bare path =>
    { name := .str (if isFirst then rootName else scriptPath path), path := .str path }

/-- **The entry points** that specifications stand for. -/
def ofSpecs : List EntrySpec → List EntryPoint
  | [] => []
  | s :: ss => ofSpec true s :: ss.map (ofSpec false)

/-- **The paths of entry points under their names**, put into a table one by one. A name has to
be a key, and must not be there yet. -/
def register (seen : Table Key) : List EntryPoint → Except Failure (Table Key)
  | [] => .ok seen
  | e :: es =>
    match e.name.key with
    | .error f => .error (.fault f)
    | .ok key =>
      match seen.get? key with
      | some first => .error (.problem (.duplicateEntryPoint e.name first e.path))
      | none => register (seen ++ [(key, e.path)]) es

/-- **Checking entry points**: there is one at least, no two share a name, and one of them is
the package itself. -/
def check (entries : List EntryPoint) : Except Failure Unit :=
  if entries.isEmpty then .error (.problem .noEntryPoint)
  else
    match register [] entries with
    | .error e => .error e
    | .ok seen =>
      if seen.has (.text rootName) then .ok () else .error (.problem .noRootEntryPoint)

/-- **What is accepted**: entry points that can be put into a table with the package itself
among them. -/
theorem check_ok_iff (entries : List EntryPoint) :
    check entries = .ok () ↔
      entries ≠ [] ∧ ∃ seen, register [] entries = .ok seen ∧ seen.has (.text rootName) := by
  simp only [check, List.isEmpty_iff]
  by_cases he : entries = []
  · simp [he]
  · cases register [] entries with
    | error e => simp [he]
    | ok seen => cases hs : seen.has (.text rootName) <;> simp [he, hs]

end EntryPoint

end DenoPackager

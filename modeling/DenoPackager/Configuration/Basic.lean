import DenoPackager.Compiler.Target
import DenoPackager.EntryPoint
import DenoPackager.Transform.Output

/-!
# Configurations

A configuration is what the user asks for, as a JSON object. Three of its members are required:
the entry points, the output directory, and members for the package manifest. Members that were
left out have defaults, and for some of them anything that is empty counts as left out.

The values of flags, and the names, paths and versions in entry points and mappings, are kept as
they are given.

## Main definitions

* `Configuration.ofMembers`: reading a configuration.
-/

namespace DenoPackager

/-- **A configuration.** -/
structure Configuration where
  entryPoints : List EntrySpec
  outDir : Path
  package : Table Key
  typeCheck : Json
  test : Json
  declaration : Json
  keepSourceFiles : Json
  keepTestFiles : Json
  rootTestDir : Option Path
  testPattern : Json
  /-- The package for the Deno namespace. -/
  shimPackage : Option Shim
  /-- The package for each mapped specifier. -/
  mappings : List (String × Mapping)
  target : Option ScriptTarget
  deriving Repr

namespace Configuration

/-- The options that have to be there. -/
def requiredKeys : List String := ["entryPoints", "outDir", "package"]

/-- A failure that is a fault. -/
def ofFault {α : Type} : Except Fault α → Except Failure α
  | .ok a => .ok a
  | .error f => .error (.fault f)

/-- The value of an option, or a default. -/
def optionOr (ms : Members) (key : String) (default : Json) : Json :=
  (ms.get? key).getD default

/-- Reading an entry point: a path, or an object with a name and a path. -/
def entrySpec : Json → Except Failure EntrySpec
  | .str s => .ok (.bare s)
  | .obj ms =>
    match Table.get? ms "name", Table.get? ms "path" with
    | some name, some path => .ok (.named { name := name, path := path })
    | _, _ => .error (.problem (.invalidEntryPoint (.obj ms)))
  | v => .error (.problem (.invalidEntryPoint v))

/-- Reading a mapping. -/
def mapping (m : String × Json) : Except Fault (String × Mapping) := do
  let name ← m.2.member "name"
  .ok (m.1, { name := name, version := (m.2.members.get? "version").getD .null })

/-- Reading the mappings: an object, or nothing. -/
def mappingsOf (v : Option Json) : Except Fault (List (String × Mapping)) :=
  match Json.given? v with
  | none => .ok []
  | some (.obj ms) => ms.mapM mapping
  | some _ => .error .missingProperty

/-- Reading the package for the Deno namespace. -/
def shimOf (v : Option Json) : Except Fault (Option Shim) :=
  match Json.given? v with
  | none => .ok none
  | some shim => do
    let name ← shim.member "name"
    let version ← shim.member "version"
    .ok (some { name := name, version := version })

/-- Reading the target among the compiler options. -/
def targetOf (v : Option Json) : Except Failure (Option ScriptTarget) :=
  match Json.given? v with
  | none => .ok none
  | some (.obj ms) =>
    match Json.given? (Table.get? ms "target") with
    | none => .ok none
    | some target => (ScriptTarget.ofJson target).map some
  | some _ => .error (.fault .missingProperty)

/-- **Reading a configuration.** -/
def ofMembers (ms : Members) : Except Failure Configuration := do
  match requiredKeys.find? fun key => !ms.has key with
  | some key => .error (.problem (.missingOption key))
  | none => .ok ()
  let entries ← ofFault (optionOr ms "entryPoints" .null).parts
  let entryPoints ← entries.mapM entrySpec
  let mappings ← ofFault (mappingsOf (ms.get? "mappings"))
  let outDir ← ofFault (optionOr ms "outDir" .null).path
  let package ← ofFault (Table.ofValue (optionOr ms "package" .null))
  let rootTestDir ←
    match Json.given? (ms.get? "rootTestDir") with
    | some dir => (ofFault dir.path).map some
    | none => .ok none
  let shimPackage ← ofFault (shimOf (ms.get? "shimPackage"))
  let target ← targetOf (ms.get? "compilerOptions")
  .ok
    { entryPoints := entryPoints
      outDir := outDir
      package := package
      typeCheck := optionOr ms "typeCheck" (.bool true)
      test := optionOr ms "test" (.bool true)
      declaration := optionOr ms "declaration" (.bool true)
      keepSourceFiles := optionOr ms "keepSourceFiles" (.bool false)
      keepTestFiles := optionOr ms "keepTestFiles" (.bool false)
      rootTestDir := rootTestDir
      testPattern := optionOr ms "testPattern" .null
      shimPackage := shimPackage
      mappings := mappings
      target := target }

end Configuration

end DenoPackager

import DenoPackager.Source.ImportMeta

/-!
# The Deno namespace

Outside Deno the namespace comes from a package. Where the code of a script refers to a member
of `Deno`, the reference is led through an import of that package, which is put in front of the
script. A script without such a reference is left alone.
-/

namespace DenoPackager.Source

open DenoPackager.Text

/-- The name that the package is imported under. -/
def shimName : List Char := "denoShim".toList

/-- **A reference** to a member of the namespace. -/
def namespaceReference : Matcher Unit := fun prev s =>
  if mayPrecede prev && startsWith "Deno.".toList s then some ((), 4) else none

/-- The import of the package, on a line of its own. -/
def shimImport (package : String) : List Char :=
  "import * as ".toList ++ shimName ++ " from \"".toList ++ package.toList ++ "\";\n".toList

/-- Whether the code of a script refers to the namespace. -/
def usesNamespace (s : List Char) : Bool :=
  (segments s).any fun g => g.isCode && !(findAll namespaceReference g.text).isEmpty

/-- The script with every reference led through the import. -/
def routeReferences (s : List Char) : List Char :=
  mapCode (replaceAll namespaceReference fun _ => shimName ++ ".Deno.".toList) s

/-- **Leading the namespace through a package**: the script, and whether it needs the
package. -/
def routeNamespace (package : String) (s : List Char) : List Char × Bool :=
  if usesNamespace s then (shimImport package ++ routeReferences s, true) else (s, false)

end DenoPackager.Source

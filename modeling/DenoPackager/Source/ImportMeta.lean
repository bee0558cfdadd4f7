import DenoPackager.Source.Segment
import DenoPackager.Text.Blank
import DenoPackager.Text.Search
import DenoPackager.Text.Word

/-!
# The module's own properties in UMD output

`import.meta` exists in ES modules only. For UMD output its occurrences in code are replaced by
an object with the same two properties, `url` and `main`, made from what such a module has.
-/

namespace DenoPackager.Source

open DenoPackager.Text

/-- Whether a character can be part of an identifier. -/
def isIdentifierChar (c : Char) : Bool :=
  isWordChar c || c = '$'

/-- Whether an identifier may start after this character: it is no part of an identifier, and
no dot. -/
def mayPrecede (prev : Option Char) : Bool :=
  match prev with
  | some c => !(c = '.' || isIdentifierChar c)
  | none => true

/-- Whether an identifier ends before this text. -/
def endsIdentifier : List Char → Bool
  | [] => true
  | c :: _ => !isIdentifierChar c

/-- **An occurrence** of `import.meta`, with blanks around the dot if there are any. -/
def importMeta : Matcher Unit := fun prev s => do
  let afterImport ← if mayPrecede prev then afterStart? "import".toList s else none
  let afterDot ← afterStart? ['.'] (dropBlanks afterImport)
  let rest ← afterStart? "meta".toList (dropBlanks afterDot)
  if endsIdentifier rest then some ((), s.length - rest.length - 1) else none

/-- What stands in for `import.meta`. -/
def importMetaObject : List Char :=
  "(\x7b url: require(\"url\").pathToFileURL(__filename).href, main: require.main === module \x7d)".toList

/-- Whether a word occurs in a text. -/
def mentions (word : List Char) : List Char → Bool
  | [] => word.isEmpty
  | c :: cs => startsWith word (c :: cs) || mentions word cs

/-- **Replacing `import.meta`** in the code of a script. A script that does not mention `meta`
is left alone. -/
def replaceImportMeta (s : List Char) : List Char :=
  if mentions "meta".toList s then mapCode (replaceAll importMeta fun _ => importMetaObject) s
  else s

end DenoPackager.Source

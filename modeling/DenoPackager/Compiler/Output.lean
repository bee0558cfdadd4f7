import DenoPackager.Compiler.Diagnostic
import DenoPackager.Failure
import DenoPackager.Text.Blank
import DenoPackager.Text.Pieces

/-!
# The compiler's output

The compiler prints a line for each diagnostic, with the file and the place in front if it knows
them:

    src/mod.ts(3,7): error TS2322: The message.
    error TS5023: Another message.

A line that starts with a blank goes on with the message of the diagnostic before it. Blank
lines say nothing, and what is no diagnostic is set aside.

## Main definitions

* `located?`, `unlocated?`: reading the line of a diagnostic.
* `parse`: the diagnostics in a text.
-/

namespace DenoPackager.CompilerOutput

open DenoPackager.Text

/-- **What a compiler printed**: its diagnostics in order, and the lines that are none. -/
structure Reading where
  diagnostics : List Diagnostic
  ignored : List String
  deriving Repr, DecidableEq

/-- The digits that a text starts with, one at least, and the text after them. -/
def digits? (s : List Char) : Option (List Char × List Char) :=
  match s.takeWhile isDigit with
  | [] => none
  | ds => some (ds, s.dropWhile isDigit)

/-- The category that a text starts with, and the text after it. -/
def category? (s : List Char) : Option (String × List Char) :=
  ["error", "warning", "message"].findSome? fun c =>
    (afterStart? c.toList s).map fun rest => (c, rest)

/-- **The head of a diagnostic**: its category, the digits of its code, and its message. -/
structure Head where
  category : String
  code : List Char
  message : List Char
  deriving Repr, DecidableEq

/-- The head that a text is. -/
def head? (s : List Char) : Option Head := do
  let (category, rest) ← category? s
  let rest ← afterStart? " TS".toList rest
  let (code, rest) ← digits? rest
  let message ← afterStart? ": ".toList rest
  some { category := category, code := code, message := message }

/-- **A place in a file**: the digits of a line and of a column, and the head after them. -/
def place? (s : List Char) : Option (List Char × List Char × Head) := do
  let rest ← afterStart? ['('] s
  let (line, rest) ← digits? rest
  let rest ← afterStart? [','] rest
  let (column, rest) ← digits? rest
  let rest ← afterStart? "): ".toList rest
  let head ← head? rest
  some (line, column, head)

/-- The shortest file name, one character at least, that has a place after it. -/
def located? : List Char → Option (List Char × List Char × List Char × Head)
  | [] => none
  | c :: cs =>
    match place? cs with
    | some (line, column, head) => some ([c], line, column, head)
    | none => (located? cs).map fun (file, rest) => (c :: file, rest)

/-- The number that digits denote; numbers have at most 4300 digits. -/
def number (ds : List Char) : Except Fault Int :=
  if ds.length > 4300 then .error .badValue else .ok ((natOfDigits? ds).getD 0)

/-- The diagnostic with a head and nothing else. -/
def ofHead (h : Head) : Except Fault Diagnostic :=
  (number h.code).map fun code =>
    { Diagnostic.ofMessage (String.ofList h.message) with code := some code, category := h.category }

/-- **The diagnostic of a line**, if it is one. File names are replaced as `names` says. -/
def ofLine? (names : List (String × String)) (line : List Char) :
    Option (Except Fault Diagnostic) :=
  match located? line with
  | some (file, line, column, head) => some do
    let d ← ofHead head
    let line ← number line
    let column ← number column
    let file := String.ofList file
    .ok { d with file := some ((names.lookup file).getD file), line := some line
                 column := some column }
  | none => (head? line).map ofHead

/-- A further line of the last diagnostic's message. -/
def continueLast (text : List Char) : List Diagnostic → List Diagnostic
  | [] => []
  | [d] => [{ d with message := d.message ++ "\n" ++ String.ofList text }]
  | d :: ds => d :: continueLast text ds

/-- **One more line.** -/
def readLine (names : List (String × String)) (r : Reading) (line : List Char) :
    Except Fault Reading :=
  if (trim line).isEmpty then .ok r
  else if (line.head?.map isBlank).getD false ∧ r.diagnostics ≠ [] then
    .ok { r with diagnostics := continueLast (trim line) r.diagnostics }
  else
    match ofLine? names line with
    | some (.ok d) => .ok { r with diagnostics := r.diagnostics ++ [d] }
    | some (.error e) => .error e
    | none => .ok { r with ignored := r.ignored ++ [String.ofList line] }

/-- The lines after what was read so far. -/
def readLines (names : List (String × String)) (r : Reading) :
    List (List Char) → Except Fault Reading
  | [] => .ok r
  | l :: ls =>
    match readLine names r l with
    | .ok r => readLines names r ls
    | .error e => .error e

/-- **Reading a compiler's output.** -/
def parse (output : String) (names : List (String × String)) : Except Fault Reading :=
  readLines names { diagnostics := [], ignored := [] } (lines output.toList)

end DenoPackager.CompilerOutput

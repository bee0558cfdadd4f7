import DenoPackager.Json.Basic
import DenoPackager.Text.Digit

/-!
# Diagnostics

What a compiler has to say about a program: a message, and as far as they are known its code,
its category and where it belongs. Codes from 4000 and from 9000 on, a thousand each, come from
the emission of declarations.
-/

namespace DenoPackager

/-- **A diagnostic.** -/
structure Diagnostic where
  message : String
  code : Option Int
  category : String
  file : Option String
  line : Option Int
  column : Option Int
  deriving Repr, DecidableEq

namespace Diagnostic

/-- A diagnostic that says nothing but a message. -/
def ofMessage (message : String) : Diagnostic :=
  { message := message, code := none, category := "error", file := none, line := none, column := none }

/-- An integer in a message. -/
def intText (n : Int) : String :=
  String.ofList (Text.decimalInt n)

/-- Whether the diagnostic comes from the emission of declarations. -/
def isDeclarationEmit (d : Diagnostic) : Bool :=
  match d.code with
  | some n => (4000 ≤ n && n < 5000) || (9000 ≤ n && n < 10000)
  | none => false

/-- The place in front of a diagnostic: a file with its line and column as far as they are
known. A column that is missing or zero is the first. -/
def placeText (d : Diagnostic) : String :=
  match d.file with
  | none => ""
  | some file =>
    if file = "" then ""
    else
      match d.line with
      | none => file ++ " - "
      | some line =>
        let column := match d.column with
          | some c => if c = 0 then 1 else c
          | none => 1
        file ++ ":" ++ intText line ++ ":" ++ intText column ++ " - "

/-- **The line of a diagnostic.** -/
def text (d : Diagnostic) : String :=
  let code := match d.code with
    | some n => " TS" ++ intText n
    | none => ""
  d.placeText ++ d.category ++ code ++ ": " ++ d.message

/-- **A report of diagnostics**: a line for each, and their number. -/
def listText (ds : List Diagnostic) : String :=
  let noun := if ds.length = 1 then "diagnostic" else "diagnostics"
  let summary := "Found " ++ intText ds.length ++ " " ++ noun ++ "."
  String.intercalate "\n" (ds.map text ++ [summary])

end Diagnostic

end DenoPackager

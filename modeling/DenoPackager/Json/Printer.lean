import DenoPackager.Json.Basic
import DenoPackager.Json.Escape
import DenoPackager.Number.Layout
import DenoPackager.Text.Digit

/-!
# Writing JSON

Two layouts: the indented one of a manifest, with every member on a line of its own and two
spaces more at each level, and the one-line one without any blank. Both write ASCII only.
-/

namespace DenoPackager.Json

open DenoPackager.Text (decimalInt)

/-- **Doubles in JSON.** Positional form from `10 ^ (-4)` to below `10 ^ 16`, an exponent of at
least two digits otherwise. -/
def numberLayout : Number.Layout :=
  { leastPositional := -4
    endPositional := 16
    exponentDigits := 2
    notANumber := "NaN"
    infinite := "Infinity" }

/-- A line feed and the indentation of a level. -/
def newLine (level : Nat) : List Char :=
  '\n' :: List.replicate (2 * level) ' '

mutual

/-- The text of a value at a level of an indented layout. -/
def indented (level : Nat) : Json → List Char
  | .null => "null".toList
  | .bool true => "true".toList
  | .bool false => "false".toList
  | .int n => decimalInt n
  | .float x => numberLayout.text x
  | .str s => literal s.toList
  | .arr [] => ['[', ']']
  | .arr (v :: vs) =>
    '[' :: (newLine (level + 1) ++ indented (level + 1) v ++ indentedItems (level + 1) vs ++
      newLine level ++ [']'])
  | .obj [] => ['{', '}']
  | .obj ((k, v) :: ms) =>
    '{' :: (newLine (level + 1) ++ literal k.toList ++ ':' :: ' ' :: indented (level + 1) v ++
      indentedMembers (level + 1) ms ++ newLine level ++ ['}'])

/-- The items after the first, each after a comma. -/
def indentedItems (level : Nat) : List Json → List Char
  | [] => []
  | v :: vs => ',' :: (newLine level ++ indented level v ++ indentedItems level vs)

/-- The members after the first, each after a comma. -/
def indentedMembers (level : Nat) : List (String × Json) → List Char
  | [] => []
  | (k, v) :: ms =>
    ',' :: (newLine level ++ literal k.toList ++ ':' :: ' ' :: indented level v ++
      indentedMembers level ms)

end

mutual

/-- The text of a value on one line. -/
def compact : Json → List Char
  | .null => "null".toList
  | .bool true => "true".toList
  | .bool false => "false".toList
  | .int n => decimalInt n
  | .float x => numberLayout.text x
  | .str s => literal s.toList
  | .arr [] => ['[', ']']
  | .arr (v :: vs) => '[' :: (compact v ++ compactItems vs ++ [']'])
  | .obj [] => ['{', '}']
  | .obj ((k, v) :: ms) =>
    '{' :: (literal k.toList ++ ':' :: compact v ++ compactMembers ms ++ ['}'])

/-- The items after the first, each after a comma. -/
def compactItems : List Json → List Char
  | [] => []
  | v :: vs => ',' :: (compact v ++ compactItems vs)

/-- The members after the first, each after a comma. -/
def compactMembers : List (String × Json) → List Char
  | [] => []
  | (k, v) :: ms => ',' :: (literal k.toList ++ ':' :: compact v ++ compactMembers ms)

end

/-- **A manifest file**: the indented text of a value and a line feed. -/
def fileText (v : Json) : String :=
  String.ofList (v.indented 0 ++ ['\n'])

/-- The indented text of a value. -/
def indentedText (v : Json) : String :=
  String.ofList (v.indented 0)

/-- The text of a value on one line. -/
def compactText (v : Json) : String :=
  String.ofList v.compact

end DenoPackager.Json

import DenoPackager.Json.Basic
import DenoPackager.Number.Layout
import DenoPackager.Text.Digit
import DenoPackager.Text.Printable

/-!
# Values in messages

How a value looks inside a message: the constants are capitalised words, a string stands
between single quotes (between double quotes if it holds a single quote and no double one), and
what is not printable is escaped by its code point. A string that is a whole message part of
its own is shown without quotes.
-/

namespace DenoPackager.Json

open DenoPackager.Text (decimalInt isPrintable)

/-- **Doubles in messages**: as in JSON, with the two special numbers in lower case. -/
def messageLayout : Number.Layout :=
  { leastPositional := -4
    endPositional := 16
    exponentDigits := 2
    notANumber := "nan"
    infinite := "inf" }

/-- A number in `width` hexadecimal digits, in lower case. -/
def hexDigits (width n : Nat) : List Char :=
  let ds := Nat.toDigits 16 n
  List.replicate (width - ds.length) '0' ++ ds

/-- A character between the quotes `quote`. -/
def quotedChar (quote c : Char) : List Char :=
  if c = quote || c = '\\' then ['\\', c]
  else if c = '\n' then ['\\', 'n']
  else if c = '\r' then ['\\', 'r']
  else if c = '\t' then ['\\', 't']
  else if isPrintable c then [c]
  else if c.toNat < 0x100 then '\\' :: 'x' :: hexDigits 2 c.toNat
  else if c.toNat < 0x10000 then '\\' :: 'u' :: hexDigits 4 c.toNat
  else '\\' :: 'U' :: hexDigits 8 c.toNat

/-- **A quoted string.** -/
def quoted (s : List Char) : List Char :=
  let quote := if s.contains '\x27' && !s.contains '\x22' then '\x22' else '\x27'
  quote :: (s.flatMap (quotedChar quote) ++ [quote])

mutual

/-- **A value inside a message.** -/
def shown : Json → List Char
  | .null => "None".toList
  | .bool true => "True".toList
  | .bool false => "False".toList
  | .int n => decimalInt n
  | .float x => messageLayout.text x
  | .str s => quoted s.toList
  | .arr [] => ['[', ']']
  | .arr (v :: vs) => '[' :: (shown v ++ shownItems vs ++ [']'])
  | .obj [] => ['{', '}']
  | .obj ((k, v) :: ms) =>
    '{' :: (quoted k.toList ++ ':' :: ' ' :: shown v ++ shownMembers ms ++ ['}'])

/-- The items after the first, each after a comma and a blank. -/
def shownItems : List Json → List Char
  | [] => []
  | v :: vs => ',' :: ' ' :: (shown v ++ shownItems vs)

/-- The members after the first, each after a comma and a blank. -/
def shownMembers : List (String × Json) → List Char
  | [] => []
  | (k, v) :: ms =>
    ',' :: ' ' :: (quoted k.toList ++ ':' :: ' ' :: shown v ++ shownMembers ms)

end

/-- The value inside a message, as a string. -/
def shownText (v : Json) : String :=
  String.ofList v.shown

/-- **A value as a part of a message**: a string is shown as it is. -/
def plainText : Json → String
  | .str s => s
  | v => v.shownText

end DenoPackager.Json

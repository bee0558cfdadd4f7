import DenoPackager.Text.Pieces

/-!
# File name endings

Three rules about how a file name ends.

* `toScriptName` replaces a final `.ts` or `.tsx` by `.js`.
* `isDeclarationName` recognises a final `.d.ts`.
* `splitExtension` cuts a path before its last extension.

The first two read the ending without regard to case, where the long s counts as an `s`, and
let one line feed stand after it. The third is exact and knows no letter at all.

## Main results

* `splitExtension_append`: the stem and the extension make up the path.
-/

namespace DenoPackager.Text

/-- **Letters up to case.** Whether `c` is the lower-case ASCII letter `letter` in some case;
the long s is a lower case of `S`. -/
def isLetter (letter c : Char) : Bool :=
  c.toLower = letter || (letter = 's' && c = 'ſ')

/-- The text itself, if it is nothing but what may stand after an ending: nothing or a line
feed. -/
def lineEnd? : List Char → Option (List Char)
  | [] => some []
  | ['\n'] => some ['\n']
  | _ => none

/-- What follows a `.ts` or `.tsx` that the text starts with and ends with: nothing or a line
feed. -/
def typeScriptTail? : List Char → Option (List Char)
  | '.' :: t :: s :: rest =>
    if isLetter 't' t && isLetter 's' s then
      match rest with
      | [] => some []
      | x :: more => if isLetter 'x' x then lineEnd? more else lineEnd? (x :: more)
    else none
  | _ => none

/-- **Script name.** The name with a final `.ts` or `.tsx` replaced by `.js`; any other name is
kept. -/
def toScriptName : List Char → List Char
  | [] => []
  | c :: cs =>
    match typeScriptTail? (c :: cs) with
    | some tail => ".js".toList ++ tail
    | none => c :: toScriptName cs

/-- Whether the text is `.d.ts`, perhaps with a line feed after it. -/
def isDeclarationEnding : List Char → Bool
  | ['.', d, '.', t, s] => isLetter 'd' d && isLetter 't' t && isLetter 's' s
  | ['.', d, '.', t, s, '\n'] => isLetter 'd' d && isLetter 't' t && isLetter 's' s
  | _ => false

/-- **Declaration files.** Whether a name ends in `.d.ts`. -/
def isDeclarationName : List Char → Bool
  | [] => false
  | c :: cs => isDeclarationEnding (c :: cs) || isDeclarationName cs

/-- The stem and extension of a path's last name: the extension starts at the last dot that has
something other than dots before it. -/
def splitNameExtension (name : List Char) : List Char × List Char :=
  let dots := name.takeWhile (· = '.')
  match splitLast? '.' (name.dropWhile (· = '.')) with
  | some (stem, ext) => (dots ++ stem, '.' :: ext)
  | none => (name, [])

/-- **Extension.** A path cut before the last extension of its last name. -/
def splitExtension (path : List Char) : List Char × List Char :=
  match splitLast? '/' path with
  | some (dir, name) => (dir ++ '/' :: (splitNameExtension name).1, (splitNameExtension name).2)
  | none => splitNameExtension path

/-! ### The parts make up the whole -/

theorem splitNameExtension_append (name : List Char) :
    (splitNameExtension name).1 ++ (splitNameExtension name).2 = name := by
  simp only [splitNameExtension]
  split
  · rename_i stem ext h
    simp only [List.append_assoc, ← (splitLast?_eq_some h).1, List.takeWhile_append_dropWhile]
  · simp

/-- The stem and the extension make up the path. -/
theorem splitExtension_append (path : List Char) :
    (splitExtension path).1 ++ (splitExtension path).2 = path := by
  simp only [splitExtension]
  split
  · rename_i dir name h
    rw [List.append_assoc, List.cons_append, splitNameExtension_append, ← (splitLast?_eq_some h).1]
  · exact splitNameExtension_append path

end DenoPackager.Text

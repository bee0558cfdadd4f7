import DenoPackager.Failure
import DenoPackager.Path.Normal
import DenoPackager.Source.ImportMeta
import DenoPackager.Text.Extension

/-!
# Module specifiers

A specifier is the string after `from` or `import`, or in the parentheses of a dynamic import.
A relative one names a file from the directory of the script it stands in, a remote one starts
with a web scheme.

## Main definitions

* `specifierMatch`: an occurrence of a specifier.
* `replaceSpecifiers`: a script with its specifiers replaced.
* `relativeSpecifier`: the specifier that leads from one file to another.

## Main results

* `specifierMatch_takes`: a match stands for the text it was found in.
-/

namespace DenoPackager.Source

open DenoPackager.Text

/-- **An occurrence of a specifier**: what leads to it, its quote, and the specifier. -/
structure SpecifierMatch where
  lead : List Char
  quote : Char
  specifier : List Char
  deriving Repr, DecidableEq

/-- The text of an occurrence, with another specifier in it. -/
def SpecifierMatch.withSpecifier (m : SpecifierMatch) (specifier : List Char) : List Char :=
  m.lead ++ m.quote :: (specifier ++ [m.quote])

/-- The text of an occurrence. -/
def SpecifierMatch.text (m : SpecifierMatch) : List Char :=
  m.withSpecifier m.specifier

/-- The characters that a specifier is made of. -/
def isSpecifierChar (c : Char) : Bool :=
  c ≠ '\x22' && c ≠ '\x27' && c ≠ '\n'

/-- The quoted specifier that a text starts with. -/
def quotedSpecifier? : List Char → Option (Char × List Char)
  | [] => none
  | q :: cs =>
    if q = '\x22' ∨ q = '\x27' then
      let specifier := cs.takeWhile isSpecifierChar
      if specifier ≠ [] ∧ (cs.dropWhile isSpecifierChar).head? = some q then some (q, specifier)
      else none
    else none

/-- The occurrence made of a lead that stands in front of the text `rest`. -/
def afterLead? (lead rest : List Char) : Option SpecifierMatch :=
  let blanks := rest.takeWhile isBlank
  (quotedSpecifier? (dropBlanks rest)).map fun (quote, specifier) =>
    { lead := lead ++ blanks, quote := quote, specifier := specifier }

/-- A dynamic import whose parentheses open in front of the text `rest`, blanks aside. -/
def afterParenthesis? (rest : List Char) : Option SpecifierMatch :=
  match dropBlanks rest with
  | '(' :: inner => afterLead? ("import".toList ++ rest.takeWhile isBlank ++ ['(']) inner
  | _ => none

/-- The occurrence that a text starts with. -/
def specifierAt? (s : List Char) : Option SpecifierMatch :=
  match afterStart? "from".toList s with
  | some rest => afterLead? "from".toList rest
  | none =>
    match afterStart? "import".toList s with
    | some rest => (afterParenthesis? rest).or (afterLead? "import".toList rest)
    | none => none

/-- **Occurrences of specifiers.** The word in front is a whole word on its left. -/
def specifierMatch : Matcher SpecifierMatch := fun prev s =>
  if (prev.map isWordChar).getD false then none
  else (specifierAt? s).map fun m => (m, m.text.length - 1)

/-- All occurrences of specifiers in a script. -/
def specifierMatches (s : List Char) : List SpecifierMatch :=
  findAll specifierMatch s

/-- The specifiers in a script, in order. -/
def specifiers (s : List Char) : List String :=
  (specifierMatches s).map fun m => String.ofList m.specifier

/-- **Replacing specifiers** in a script. -/
def replaceSpecifiers (f : String → String) (s : List Char) : List Char :=
  replaceAll specifierMatch
    (fun m => m.withSpecifier (f (String.ofList m.specifier)).toList) s

/-- Whether a specifier names a file from the directory of its script. -/
def isRelative (specifier : String) : Bool :=
  startsWith "./".toList specifier.toList || startsWith "../".toList specifier.toList

/-- Whether a specifier starts with a web scheme. -/
def isRemote (specifier : String) : Bool :=
  startsWith "http://".toList specifier.toList || startsWith "https://".toList specifier.toList

/-! ### The way from one file to another -/

/-- The extensions of scripts. -/
def scriptExtensions : List (List Char) :=
  [".ts".toList, ".tsx".toList, ".js".toList, ".mjs".toList, ".jsx".toList]

/-- A path with the extension of a script replaced by `.js`. -/
def withScriptExtension (path : List Char) : List Char :=
  let (stem, extension) := splitExtension path
  if lowerAscii extension ∈ scriptExtensions then stem ++ ".js".toList else path

/-- The directory part of a path's text, up to its last slash. -/
def directoryText (path : String) : String :=
  match splitLast? '/' path.toList with
  | some (before, _) => String.ofList (before ++ ['/'])
  | none => ""

/-- The components that two lists start with in common are dropped from both. -/
def dropCommon : List String → List String → List String × List String
  | a :: as, b :: bs => if a = b then dropCommon as bs else (a :: as, b :: bs)
  | as, bs => (as, bs)

/-- **The way** from one directory to a file, both by their components: up as often as needed,
then down. -/
def wayBetween (dir file : List String) : List String :=
  let (climb, descend) := dropCommon dir file
  climb.map (fun _ => Path.up) ++ descend

/-- The text of a way; the empty way is a single dot. -/
def wayText : List String → String
  | [] => "."
  | way => String.intercalate "/" way

/-- **The specifier** that leads from the file `source` to the file `target`, with the extension
of a script replaced by `.js`. -/
def relativeSpecifier (cwd : Path) (source target : String) : String :=
  let dir := (Path.ofString (directoryText source)).absolute cwd
  let file := (Path.ofString target).absolute cwd
  let way := withScriptExtension (wayText (wayBetween dir.parts file.parts)).toList
  let specifier := String.ofList way
  if isRelative specifier then specifier else "./" ++ specifier

/-- The specifier that leads from one file to another; there is none to a file without a
name. -/
def specifierBetween (cwd : Path) (source target : String) : Except Fault String :=
  if target = "" then .error .badValue else .ok (relativeSpecifier cwd source target)

/-! ### A match stands for its text -/

theorem quotedSpecifier?_eq_some {s : List Char} {quote : Char} {specifier : List Char}
    (h : quotedSpecifier? s = some (quote, specifier)) :
    ∃ rest, s = quote :: (specifier ++ quote :: rest) := by
  cases s with
  | nil => simp [quotedSpecifier?] at h
  | cons q cs =>
    simp only [quotedSpecifier?] at h
    split at h
    · split at h
      · rename_i hs
        simp only [Option.some.injEq, Prod.mk.injEq] at h
        obtain ⟨rfl, rfl⟩ := h
        obtain ⟨_, hq⟩ := hs
        refine ⟨(cs.dropWhile isSpecifierChar).tail, ?_⟩
        congr 1
        cases hd : cs.dropWhile isSpecifierChar with
        | nil => simp [hd] at hq
        | cons d ds =>
          simp only [hd, List.head?_cons, Option.some.injEq] at hq
          subst hq
          rw [List.tail_cons, ← hd, List.takeWhile_append_dropWhile]
      · simp at h
    · simp at h

theorem afterLead?_eq_some {lead rest : List Char} {m : SpecifierMatch}
    (h : afterLead? lead rest = some m) : ∃ tail, lead ++ rest = m.text ++ tail := by
  simp only [afterLead?, Option.map_eq_some_iff] at h
  obtain ⟨⟨quote, specifier⟩, hq, rfl⟩ := h
  obtain ⟨tail, ht⟩ := quotedSpecifier?_eq_some hq
  refine ⟨tail, ?_⟩
  have hrest : rest = rest.takeWhile isBlank ++ quote :: (specifier ++ quote :: tail) := by
    rw [← ht, dropBlanks, List.takeWhile_append_dropWhile]
  simp only [SpecifierMatch.text, SpecifierMatch.withSpecifier, List.append_assoc, List.cons_append,
    List.nil_append]
  exact congrArg _ hrest

theorem afterParenthesis?_eq_some {rest : List Char} {m : SpecifierMatch}
    (h : afterParenthesis? rest = some m) : ∃ tail, "import".toList ++ rest = m.text ++ tail := by
  simp only [afterParenthesis?] at h
  split at h
  · rename_i inner hp
    obtain ⟨tail, ht⟩ := afterLead?_eq_some h
    refine ⟨tail, ?_⟩
    rw [← ht]
    have hrest : rest = rest.takeWhile isBlank ++ '(' :: inner := by
      rw [← hp, dropBlanks, List.takeWhile_append_dropWhile]
    simp only [List.append_assoc, List.cons_append, List.nil_append]
    exact congrArg _ hrest
  · simp at h

theorem specifierAt?_eq_some {s : List Char} {m : SpecifierMatch} (h : specifierAt? s = some m) :
    ∃ tail, s = m.text ++ tail := by
  simp only [specifierAt?] at h
  split at h
  · rename_i rest hs
    rw [afterStart?_eq_some_iff.1 hs]
    exact afterLead?_eq_some h
  · split at h
    · rename_i rest hs
      rw [afterStart?_eq_some_iff.1 hs]
      rcases Option.or_eq_some_iff.1 h with h | ⟨_, h⟩
      · exact afterParenthesis?_eq_some h
      · exact afterLead?_eq_some h
    · simp at h

/-- **A match stands for the text it was found in.** -/
theorem specifierMatch_takes : specifierMatch.Takes SpecifierMatch.text := by
  intro prev c cs m extra h
  simp only [specifierMatch] at h
  split at h
  · simp at h
  · simp only [Option.map_eq_some_iff, Prod.mk.injEq] at h
    obtain ⟨k, hm, rfl, rfl⟩ := h
    obtain ⟨tail, ht⟩ := specifierAt?_eq_some hm
    cases hx : k.text with
    | nil => simp [SpecifierMatch.text, SpecifierMatch.withSpecifier] at hx
    | cons d ds =>
      rw [hx] at ht
      simp only [List.cons_append, List.cons.injEq] at ht
      obtain ⟨rfl, rfl⟩ := ht
      simp

end DenoPackager.Source

import DenoPackager.FileTree.Locate
import DenoPackager.Glob.Match

/-!
# Searching a tree by a pattern

A glob pattern is a relative path whose components select step by step, from a directory on:
two stars select the directory and every directory below it, a name pattern the entries whose
names it matches, any other component the entry of just that name. A component that is not the
last one selects directories only. A slash at the end asks for directories.

A double dot is a component like any other: it selects the directory above, and stays in the
path of what is found.

## Main definitions

* `Selector.ofPattern`: the selectors of a pattern, or why it is none.
* `select`: what selectors find from several places on.

## Main results

* `mem_select_iff`: what is found from several places is what is found from one of them.
-/

namespace DenoPackager.Glob

/-- **A step of a pattern.** -/
inductive Selector where
  /-- The directory and all directories below it. -/
  | everyDirectory
  /-- The entries whose names match a pattern. -/
  | matching (pattern : String)
  /-- The entry of one name. -/
  | named (name : String)
  /-- The directory itself, at the end of a pattern. -/
  | itself
  deriving Repr, DecidableEq

namespace Selector

/-- The text of a component that stands for any number of directories. -/
def anyDepth : List Char := ['*', '*']

/-- Whether two stars follow each other somewhere in a text. -/
def hasTwoStars : List Char → Bool
  | '*' :: '*' :: _ => true
  | _ :: cs => hasTwoStars cs
  | [] => false

/-- The selector of a component. Two stars stand alone or not at all. -/
def ofComponent (c : String) : Except Fault Selector :=
  if c.toList = anyDepth then .ok .everyDirectory
  else if hasTwoStars c.toList then .error .badValue
  else if isWild c then .ok (.matching c)
  else .ok (.named c)

/-- The selectors of components, in order. -/
def ofComponents : List String → Except Fault (List Selector)
  | [] => .ok []
  | c :: cs =>
    match ofComponent c, ofComponents cs with
    | .ok s, .ok ss => .ok (s :: ss)
    | .error e, _ => .error e
    | _, .error e => .error e

/-- **The selectors of a pattern.** The pattern is relative and has a component. -/
def ofPattern (pattern : String) : Except Fault (List Selector) :=
  let path := Path.ofString pattern
  let atEnd := if pattern.toList.getLast? = some '/' then [.itself] else []
  if pattern = "" then .error .badValue
  else if path.isAbsolute then .error .unsupported
  else
    match path.parts, atEnd with
    | [], [] => .error .badIndex
    | [], _ :: _ => .error .missingProperty
    | parts, atEnd => (ofComponents parts).map fun ss => ss ++ atEnd

end Selector

/-- **What was found**: the way to it as the pattern went, and its place. -/
structure Found where
  way : List String
  place : Place
  deriving Repr, DecidableEq

/-- What is found one step further, at the entry of a name. -/
def Found.step (f : Found) (name : String) : Found :=
  if name = Path.up then ⟨f.way ++ [name], f.place.dropLast⟩
  else ⟨f.way ++ [name], f.place ++ [name]⟩

/-- The directories at and below a directory. -/
def directoriesFrom (t : FileTree) (f : Found) : List Found :=
  f :: (t.entriesFrom f.place).filterMap fun e =>
    match e.2 with
    | .directory => if e.1 = [] then none else some ⟨f.way ++ e.1, f.place ++ e.1⟩
    | .file _ => none

/-- Whether a step may go on from here: at the end of a pattern something has to be there,
before the end a directory. -/
def mayGoOn (t : FileTree) (rest : List Selector) (f : Found) : Bool :=
  match rest with
  | [] => (t.get? f.place).isSome
  | _ :: _ => t.isDirectoryAt f.place

/-- What one step of a pattern finds from a place, with the steps `rest` still to come. -/
def advance (t : FileTree) (rest : List Selector) (f : Found) : Selector → List Found
  | .itself => [f]
  | .everyDirectory => directoriesFrom t f
  | .matching pattern =>
    (((t.childNames f.place).filter (matchesName pattern)).map f.step).filter (mayGoOn t rest)
  | .named name => [f.step name].filter (mayGoOn t rest)

/-- **What selectors find**, step by step, from several places on. What a step finds on more than
one way is followed once. -/
def select (t : FileTree) : List Selector → List Found → List Found
  | [], fs => fs
  | s :: rest, fs =>
    select t rest (Path.ascendingBy Found.way (fs.flatMap fun f => advance t rest f s))

/-- **Searching** a directory by a pattern. Nothing is found in what is no directory. -/
def search (t : FileTree) (dir : Place) (pattern : String) : Except Fault (List Found) :=
  (Selector.ofPattern pattern).map fun selectors =>
    if t.isDirectoryAt dir then select t selectors [⟨[], dir⟩] else []

/-! ### Step by step -/

/-- **What is found from several places** is what is found from one of them. -/
theorem mem_select_iff (t : FileTree) (ss : List Selector) (fs : List Found) (g : Found) :
    g ∈ select t ss fs ↔ ∃ f ∈ fs, g ∈ select t ss [f] := by
  induction ss generalizing fs with
  | nil => simp [select]
  | cons s rest ih =>
    simp only [select]
    rw [ih]
    constructor
    · rintro ⟨e, he, hg⟩
      obtain ⟨f, hf, hef⟩ := List.mem_flatMap.1 (Path.mem_ascendingBy.1 he)
      refine ⟨f, hf, ?_⟩
      rw [ih]
      exact ⟨e, Path.mem_ascendingBy.2 (by simpa using hef), hg⟩
    · rintro ⟨f, hf, hg⟩
      rw [ih] at hg
      obtain ⟨e, he, hg⟩ := hg
      refine ⟨e, Path.mem_ascendingBy.2 (List.mem_flatMap.2 ⟨f, hf, ?_⟩), hg⟩
      simpa using Path.mem_ascendingBy.1 he

end DenoPackager.Glob

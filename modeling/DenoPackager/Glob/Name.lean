/-!
# Name patterns

A name pattern matches whole names. A star matches any text, a question mark any character, and
square brackets a set of characters: single ones and ranges, or after an exclamation mark all
but these. A bracket that is never closed stands for itself.

Inside brackets a closing bracket that comes first is a member of the set. A range whose ends
are in the wrong order is empty and vanishes together with its ends.

## Main definitions

* `elements`: reading a pattern.
* `isWild`: whether a text is a pattern at all.
-/

namespace DenoPackager.Glob

/-- **A set of characters**: those in some of the ranges, or those in none. -/
structure CharSet where
  negated : Bool
  ranges : List (Char × Char)
  deriving Repr, DecidableEq

namespace CharSet

/-- All characters. -/
def all : CharSet := ⟨true, []⟩

/-- One character. -/
def single (c : Char) : CharSet := ⟨false, [(c, c)]⟩

/-- Whether a character is in the set. -/
def contains (s : CharSet) (c : Char) : Bool :=
  s.negated ≠ s.ranges.any fun r => r.1 ≤ c ∧ c ≤ r.2

end CharSet

/-- **An element** of a name pattern. -/
inductive Element where
  /-- Any text. -/
  | star
  /-- One character of a set. -/
  | one (set : CharSet)
  deriving Repr, DecidableEq

/-! ### Sets between brackets -/

/-- A character of a set's description, or the hyphen of a range. -/
inductive SetMark where
  | char (c : Char)
  | hyphen
  deriving Repr, DecidableEq

/-- The character that a mark is if it stands for itself. -/
def SetMark.toChar : SetMark → Char
  | .char c => c
  | .hyphen => '-'

/-- A text divided after its first character if that is `c`, and else before it. -/
def takeFirst (c : Char) (s : List Char) : List Char × List Char :=
  if s.head? = some c then ([c], s.tail) else ([], s)

/-- The text between an open bracket and its closing bracket, and the text after it. -/
def setBody? (s : List Char) : Option (List Char × List Char) :=
  let (mark, afterMark) := takeFirst '!' s
  let (first, afterFirst) := takeFirst ']' afterMark
  match afterFirst.dropWhile (· ≠ ']') with
  | _ :: rest => some (mark ++ first ++ afterFirst.takeWhile (· ≠ ']'), rest)
  | [] => none

/-- The text before and after the first hyphen that has at least `least` characters before it. -/
def cutAtHyphen? (least : Nat) (s : List Char) : Option (List Char × List Char) :=
  match (s.drop least).dropWhile (· ≠ '-') with
  | _ :: rest => some (s.take least ++ (s.drop least).takeWhile (· ≠ '-'), rest)
  | [] => none

theorem cutAtHyphen?_length {least : Nat} {s before after : List Char}
    (h : cutAtHyphen? least s = some (before, after)) : after.length < s.length := by
  simp only [cutAtHyphen?] at h
  split at h
  · rename_i c rest hd
    simp only [Option.some.injEq, Prod.mk.injEq] at h
    obtain ⟨_, rfl⟩ := h
    have hsub := (List.dropWhile_suffix (fun c => decide (c ≠ '-')) (l := s.drop least)).length_le
    rw [hd, List.length_cons, List.length_drop] at hsub
    omega
  · simp at h

/-- **The stretches between the hyphens of ranges.** The last character of a stretch and the
first of the next are the ends of a range. A hyphen at the very end stands for itself. -/
def stretches (least : Nat) (s : List Char) : List (List Char) :=
  match _h : cutAtHyphen? least s with
  | some (before, []) => [before ++ ['-']]
  | some (before, after) => before :: stretches 2 after
  | none => [s]
  termination_by s.length
  decreasing_by exact cutAtHyphen?_length _h

/-- A stretch in front of others, without the range between it and the next if that range is
empty. -/
def joinStretch (s : List Char) : List (List Char) → List (List Char)
  | [] => [s]
  | next :: rest =>
    match s.getLast?, next.head? with
    | some low, some high =>
      if high < low then (s.dropLast ++ next.tail) :: rest else s :: next :: rest
    | _, _ => s :: next :: rest

/-- The marks of stretches, with the hyphens of ranges between them. -/
def marks : List (List Char) → List SetMark
  | [] => []
  | [s] => s.map .char
  | s :: rest => s.map .char ++ .hyphen :: marks rest

/-- The ranges that marks describe. -/
def rangesOf : List SetMark → List (Char × Char)
  | a :: .hyphen :: b :: rest => (a.toChar, b.toChar) :: rangesOf rest
  | a :: rest => (a.toChar, a.toChar) :: rangesOf rest
  | [] => []

/-- **The set** that a text between brackets describes. -/
def setOf (body : List Char) : CharSet :=
  let least := if body.head? = some '!' then 2 else 1
  match marks ((stretches least body).foldr joinStretch []) with
  | .char '!' :: rest => ⟨true, rangesOf rest⟩
  | rest => ⟨false, rangesOf rest⟩

/-! ### Patterns -/

theorem takeFirst_length (c : Char) (s : List Char) : (takeFirst c s).2.length ≤ s.length := by
  simp only [takeFirst]
  split
  · simp
  · exact Nat.le_refl _

theorem setBody?_length {s body rest : List Char} (h : setBody? s = some (body, rest)) :
    rest.length < s.length + 1 := by
  simp only [setBody?] at h
  split at h
  · rename_i c r hd
    simp only [Option.some.injEq, Prod.mk.injEq] at h
    obtain ⟨_, rfl⟩ := h
    have hsub := (List.dropWhile_suffix (fun c => decide (c ≠ ']'))
      (l := (takeFirst ']' (takeFirst '!' s).2).2)).length_le
    rw [hd, List.length_cons] at hsub
    have h₁ := takeFirst_length '!' s
    have h₂ := takeFirst_length ']' (takeFirst '!' s).2
    omega
  · simp at h

/-- **Reading a name pattern.** -/
def elements : List Char → List Element
  | [] => []
  | c :: cs =>
    if c = '*' then .star :: elements cs
    else if c = '?' then .one .all :: elements cs
    else if c = '[' then
      match _h : setBody? cs with
      | some (body, rest) => .one (setOf body) :: elements rest
      | none => .one (.single c) :: elements cs
    else .one (.single c) :: elements cs
  termination_by s => s.length
  decreasing_by
    all_goals first
      | (have hlen := setBody?_length _h; simp only [List.length_cons]; omega)
      | (simp only [List.length_cons]; omega)

/-- Whether a text says more than itself when read as a name pattern. -/
def isWild (s : String) : Bool :=
  s.toList.any fun c => c = '*' || c = '?' || c = '['

end DenoPackager.Glob

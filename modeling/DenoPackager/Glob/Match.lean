import DenoPackager.Glob.Name

/-!
# Matching names

What a pattern's elements match is a plain recursion on the elements and the text: a star takes
nothing more, or one character and goes on. Followed as it stands, that tries every way to divide
a text among the stars, and their number grows with a power of the length for every star.

The answers are therefore computed in a table, element by element from the last one: for each
position of the text, whether the elements from here on match the text from there on. That takes
as many steps as there are elements times positions.

## Main definitions

* `matchesElements`: what elements match.
* `answers`: the table.
* `matchesName`: whether a pattern matches a name.

## Main results

* `firstAnswer_answers`: the table begins with the answer for the whole text.
* `matchesName_eq`: a name is matched if the elements of the pattern match it.
-/

namespace DenoPackager.Glob

/-- **Whether elements match a whole text.** -/
def matchesElements : List Element → List Char → Bool
  | [], s => s.isEmpty
  | .one set :: es, c :: cs => set.contains c && matchesElements es cs
  | .one _ :: _, [] => false
  | .star :: es, [] => matchesElements es []
  | .star :: es, c :: cs => matchesElements es (c :: cs) || matchesElements (.star :: es) cs
  termination_by es s => es.length + s.length

/-! ### The table of answers -/

/-- The first of some answers; no answer counts as false. -/
def firstAnswer (answers : List Bool) : Bool :=
  answers.head?.getD false

/-- The answers for one character of a set in front: the text has such a character, and the
answer after it is yes. -/
def afterOne (set : CharSet) : List Char → List Bool → List Bool
  | c :: cs, _ :: later => (set.contains c && firstAnswer later) :: afterOne set cs later
  | _, _ => [false]

/-- The answers for a star in front: the answer here or further on is yes. -/
def afterStar : List Bool → List Bool
  | [] => []
  | here :: later =>
    let later := afterStar later
    (here || firstAnswer later) :: later

/-- **The answers** for elements at every position of a text, its end included. -/
def answers : List Element → List Char → List Bool
  | [], s => s.map (fun _ => false) ++ [true]
  | .one set :: es, s => afterOne set s (answers es s)
  | .star :: es, s => afterStar (answers es s)

/-- **Whether a pattern matches a name.** -/
def matchesName (pattern name : String) : Bool :=
  firstAnswer (answers (elements pattern.toList) name.toList)

/-! ### The table agrees with the recursion -/

/-- At the end of a text the table holds one answer. -/
theorem answers_nil (es : List Element) : answers es [] = [matchesElements es []] := by
  induction es with
  | nil => simp [answers, matchesElements]
  | cons e es ih =>
    cases e with
    | one set => simp [answers, afterOne, matchesElements]
    | star => simp [answers, afterStar, firstAnswer, matchesElements, ih]

/-- A character in front adds the answer for the whole text, if the table for the text after it
begins with its answers. -/
theorem answers_cons_of {cs : List Char}
    (first : ∀ es, firstAnswer (answers es cs) = matchesElements es cs) (es : List Element)
    (c : Char) : answers es (c :: cs) = matchesElements es (c :: cs) :: answers es cs := by
  induction es with
  | nil => simp [answers, matchesElements]
  | cons e es ih =>
    cases e with
    | one set => simp [answers, afterOne, matchesElements, ih, first]
    | star =>
      have hstar := first (.star :: es)
      simp only [answers] at hstar
      simp [answers, afterStar, matchesElements, ih, hstar]

/-- **The table begins with the answer** for the whole text. -/
theorem firstAnswer_answers (es : List Element) (s : List Char) :
    firstAnswer (answers es s) = matchesElements es s := by
  induction s generalizing es with
  | nil => simp [answers_nil, firstAnswer]
  | cons c cs ih => simp [answers_cons_of ih, firstAnswer]

/-- **A name is matched** if the elements of the pattern match it. -/
theorem matchesName_eq (pattern name : String) :
    matchesName pattern name = matchesElements (elements pattern.toList) name.toList :=
  firstAnswer_answers _ _

end DenoPackager.Glob

/-!
# Searching a text

A matcher looks at the character before a position and at the text from there on. It answers
with what it found and with the number of characters it took beyond the first one, so a match
always takes at least one character and a search moves on after every step.

`pieces` cuts a text into the matches, found from left to right without overlap, and the
single characters between them. Collecting the matches and replacing them are then a
`filterMap` and a `flatMap` over one and the same list.

## Main results

* `Matcher.Takes`: what a match took is the start of the text it was found in.
* `flatMap_pieces`: if every match stands for the text it took, the pieces make up the text.
-/

namespace DenoPackager.Text

/-- **A matcher** takes the previous character, if there is one, and the text that follows. -/
abbrev Matcher (α : Type) := Option Char → List Char → Option (α × Nat)

/-- A text cut into matches and the single characters between them. -/
inductive Piece (α : Type) where
  /-- A character outside every match. -/
  | plain (c : Char)
  /-- A match. -/
  | found (a : α)
  deriving Repr, DecidableEq

/-- **Cutting a text** into its leftmost matches and the characters between them. `prev` is the
character before the text. -/
def pieces {α : Type} (m : Matcher α) (prev : Option Char) : List Char → List (Piece α)
  | [] => []
  | c :: cs =>
    match m prev (c :: cs) with
    | some (a, extra) =>
      .found a :: pieces m ((c :: cs)[extra]?) (cs.drop extra)
    | none => .plain c :: pieces m (some c) cs
  termination_by s => s.length
  decreasing_by all_goals (simp only [List.length_drop, List.length_cons]; omega)

/-- The match that a piece holds. -/
def Piece.found? {α : Type} : Piece α → Option α
  | .plain _ => none
  | .found a => some a

/-- **All matches**, from left to right. -/
def findAll {α : Type} (m : Matcher α) (s : List Char) : List α :=
  (pieces m none s).filterMap Piece.found?

/-- The text that a piece stands for when every match is replaced by `f`. -/
def Piece.render {α : Type} (f : α → List Char) : Piece α → List Char
  | .plain c => [c]
  | .found a => f a

/-- **Replacing all matches.** -/
def replaceAll {α : Type} (m : Matcher α) (f : α → List Char) (s : List Char) : List Char :=
  (pieces m none s).flatMap (Piece.render f)

/-- The matcher takes text that `f` gives back: `f a` is what a match `a` took. -/
def Matcher.Takes {α : Type} (m : Matcher α) (f : α → List Char) : Prop :=
  ∀ prev c cs a extra, m prev (c :: cs) = some (a, extra) → f a = c :: cs.take extra

/-- **Nothing is lost** between the matches: if every match stands for the text it took, the
pieces make up the text. -/
theorem flatMap_pieces {α : Type} {m : Matcher α} {f : α → List Char} (h : m.Takes f)
    (prev : Option Char) (s : List Char) : (pieces m prev s).flatMap (Piece.render f) = s := by
  fun_induction pieces m prev s with
  | case1 => rfl
  | case2 prev c cs a extra hm ih =>
    simp only [List.flatMap_cons, Piece.render, ih, h _ _ _ _ _ hm, List.cons_append,
      List.take_append_drop]
  | case3 prev c cs _ ih => simp [Piece.render, ih]

end DenoPackager.Text

/-!
# Character tables

A character class of the Unicode standard is a list of ranges of code points, in ascending
order and disjoint. The modules `Blank`, `Digit`, `Word` and `Printable` each hold one such
table; this module holds the look-up that they share.
-/

namespace DenoPackager.Text

/-- The range of an ascending table that holds the code point `n`. -/
def findRange? : List (Nat × Nat) → Nat → Option (Nat × Nat)
  | [], _ => none
  | (lo, hi) :: rest, n =>
    if n < lo then none else if n ≤ hi then some (lo, hi) else findRange? rest n

/-- **Membership.** Whether some range of an ascending table holds the code point `n`. -/
def inRanges (table : List (Nat × Nat)) (n : Nat) : Bool :=
  (findRange? table n).isSome

end DenoPackager.Text

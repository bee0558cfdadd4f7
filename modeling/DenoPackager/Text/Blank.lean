import DenoPackager.Text.Table

/-!
# Blank characters

The characters that count as white space in source text, in compiler output and around a
configuration value: the bidirectional classes `WS`, `B` and `S` of the Unicode standard
together with the general category `Zs`. The zero width space and the byte order mark are
not among them.
-/

namespace DenoPackager.Text

/-- **The blank characters**, as ascending ranges of code points. -/
def blankRanges : List (Nat × Nat) :=
  [(0x9, 0xD), (0x1C, 0x20), (0x85, 0x85), (0xA0, 0xA0), (0x1680, 0x1680), (0x2000, 0x200A),
  (0x2028, 0x2029), (0x202F, 0x202F), (0x205F, 0x205F), (0x3000, 0x3000)]

/-- Whether `c` is a blank character. -/
def isBlank (c : Char) : Bool :=
  inRanges blankRanges c.toNat

/-- The text without the blanks at its start. -/
def dropBlanks (s : List Char) : List Char :=
  s.dropWhile isBlank

/-- **Trimming.** The text without the blanks at either end. -/
def trim (s : List Char) : List Char :=
  (dropBlanks (dropBlanks s).reverse).reverse

end DenoPackager.Text

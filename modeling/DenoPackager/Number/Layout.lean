import DenoPackager.Number.Shortest

/-!
# Writing a double

How the digits of a shortest decimal are laid out: in positional form for moderate powers of
ten and with an exponent otherwise. What a text format decides for itself (where positional
form ends, how an exponent looks) is one record.
-/

namespace DenoPackager.Number

/-- The choices of a text format. A number whose first digit stands for `10 ^ k` is written in
positional form when `leastPositional ≤ k < endPositional`. -/
structure Layout where
  leastPositional : Int
  endPositional : Int
  exponentDigits : Nat
  notANumber : String
  infinite : String

/-- A digit string of at least `width` digits. -/
def padded (width n : Nat) : List Char :=
  let ds := Nat.toDigits 10 n
  List.replicate (width - ds.length) '0' ++ ds

/-- Positional form: the point stands after the digit for `10 ^ 0`, with a digit on either side
of it. -/
def positional (ds : List Char) : Int → List Char
  | .ofNat k =>
    let whole := ds.take (k + 1)
    let part := ds.drop (k + 1)
    whole ++ List.replicate (k + 1 - whole.length) '0' ++ '.' :: (if part.isEmpty then ['0'] else part)
  | .negSucc k => '0' :: '.' :: (List.replicate k '0' ++ ds)

/-- Exponent form: one digit before the point, and a point only if digits follow it. -/
def Layout.exponential (l : Layout) (ds : List Char) (k : Int) : List Char :=
  let tail := ds.drop 1
  ds.take 1 ++ (if tail.isEmpty then [] else '.' :: tail) ++
    'e' :: (if k < 0 then '-' else '+') :: padded l.exponentDigits k.natAbs

/-- **The text of a double.** -/
def Layout.text (l : Layout) : Binary64 → List Char
  | .notANumber => l.notANumber.toList
  | .infinite negative => (if negative then ['-'] else []) ++ l.infinite.toList
  | .finite negative m q =>
    (if negative then ['-'] else []) ++
      if m = 0 then ['0', '.', '0']
      else
        let s := shortest m q
        if l.leastPositional ≤ s.exponent ∧ s.exponent < l.endPositional then
          positional s.digits s.exponent
        else l.exponential s.digits s.exponent

end DenoPackager.Number

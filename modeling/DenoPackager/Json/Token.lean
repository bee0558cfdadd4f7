import DenoPackager.Json.Basic
import DenoPackager.Text.Digit
import DenoPackager.Text.Pieces

/-!
# JSON tokens

The lexical layer of the JSON reader. It never fails: what is no token is a token as well, which
the reader refuses where it stands, so that a mistake further on cannot hide an earlier one.

Beyond the standard the reader takes `NaN`, `Infinity` and `-Infinity`. A literal may hold any
character but the control characters. An integer with more digits than `maxDigits` is a token of
its own. A number ends where it cannot go on: what follows is for the reader to refuse.

## Main definitions

* `Mistake`: what is wrong with a text, and where.
* `lexemes`: the tokens of a text, each with the place that it begins at.
-/

namespace DenoPackager.Json

/-! ### Mistakes -/

/-- **What is wrong** with a text that is no value. -/
inductive Complaint where
  | byteOrderMark
  | noValue
  | noName
  | noColon
  | noComma
  | moreText
  | openLiteral
  | controlCharacter
  | badEscape
  | badUnit
  deriving Repr, DecidableEq

/-- The words of a complaint. -/
def Complaint.text : Complaint → String
  | .byteOrderMark => "Unexpected UTF-8 BOM (decode using utf-8-sig)"
  | .noValue => "Expecting value"
  | .noName => "Expecting property name enclosed in double quotes"
  | .noColon => "Expecting ':' delimiter"
  | .noComma => "Expecting ',' delimiter"
  | .moreText => "Extra data"
  | .openLiteral => "Unterminated string starting at"
  | .controlCharacter => "Invalid control character at"
  | .badEscape => "Invalid \\escape"
  | .badUnit => "Invalid \\uXXXX escape"

/-- **A mistake** in a text: what is wrong, and what is left of the text where that is noticed. -/
structure Mistake where
  complaint : Complaint
  remaining : List Char
  deriving Repr, DecidableEq

/-- **What is said of a mistake** in a text: its place by line and column, both counted from one,
and by the number of characters in front of it. -/
def Mistake.report (m : Mistake) (s : List Char) : String :=
  let before := s.take (s.length - m.remaining.length)
  let column := (before.reverse.takeWhile (· ≠ '\n')).length + 1
  m.complaint.text ++ ": line " ++ toString (before.count '\n' + 1) ++ " column " ++
    toString column ++ " (char " ++ toString before.length ++ ")"

/-- **Tokens.** -/
inductive Token where
  | openBrace
  | closeBrace
  | openBracket
  | closeBracket
  | comma
  | colon
  | text (s : String)
  | scalar (v : Json)
  | oversized
  /-- A literal with a mistake in it. -/
  | broken (m : Mistake)
  /-- What no token begins with. -/
  | bad
  deriving Repr

/-- A token, and what is left of the text where it begins. -/
structure Lexeme where
  token : Token
  remaining : List Char
  deriving Repr

/-! ### String literals -/

/-- What a literal is made of: characters, and UTF-16 units that were written as escapes. -/
inductive Element where
  | char (c : Char)
  | unit (n : Nat)
  deriving Repr, DecidableEq

/-- The value of a hexadecimal digit. -/
def hexValue? (c : Char) : Option Nat :=
  if '0' ≤ c ∧ c ≤ '9' then some (c.toNat - 48)
  else if 'a' ≤ c ∧ c ≤ 'f' then some (c.toNat - 87)
  else if 'A' ≤ c ∧ c ≤ 'F' then some (c.toNat - 55)
  else none

/-- The UTF-16 unit of four hexadecimal digits. -/
def hexUnit? (a b c d : Char) : Option Nat := do
  let a ← hexValue? a
  let b ← hexValue? b
  let c ← hexValue? c
  let d ← hexValue? d
  return ((a * 16 + b) * 16 + c) * 16 + d

/-- The character that a backslash and a letter stand for. -/
def simpleEscape? : Char → Option Char
  | '\x22' => some '\x22'
  | '\\' => some '\\'
  | '/' => some '/'
  | 'b' => some '\x08'
  | 'f' => some '\x0c'
  | 'n' => some '\n'
  | 'r' => some '\r'
  | 't' => some '\t'
  | _ => none

/-- What a literal comes to: its elements and what follows its closing quote, or a mistake. -/
abbrev Scan := Except Mistake (List Element × List Char)

/-- A further element in front. -/
def Scan.cons (e : Element) : Scan → Scan
  | .ok (es, rest) => .ok (e :: es, rest)
  | .error m => .error m

/-- **The elements of a literal** up to its closing quote; `opening` is what was left of the text at
the opening quote. Four hexadecimal digits are only looked at if the text goes on behind them. -/
def scanText (opening : List Char) : List Char → Scan
  | [] => .error ⟨.openLiteral, opening⟩
  | '\x22' :: cs => .ok ([], cs)
  | '\\' :: 'u' :: a :: b :: c :: d :: cs =>
    match if cs.isEmpty then none else hexUnit? a b c d with
    | some n => (scanText opening cs).cons (.unit n)
    | none => .error ⟨.badUnit, 'u' :: a :: b :: c :: d :: cs⟩
  | '\\' :: 'u' :: cs => .error ⟨.badUnit, 'u' :: cs⟩
  | '\\' :: e :: cs =>
    match simpleEscape? e with
    | some c => (scanText opening cs).cons (.char c)
    | none => .error ⟨.badEscape, '\\' :: e :: cs⟩
  | c :: cs =>
    if c = '\\' then .error ⟨.openLiteral, opening⟩
    else if c < ' ' then .error ⟨.controlCharacter, c :: cs⟩
    else (scanText opening cs).cons (.char c)

/-- Whether a UTF-16 unit is the first of a pair. -/
def isHighUnit (n : Nat) : Bool := 0xD800 ≤ n && n < 0xDC00

/-- Whether a UTF-16 unit is the second of a pair. -/
def isLowUnit (n : Nat) : Bool := 0xDC00 ≤ n && n < 0xE000

/-- **Joining units.** The characters of a literal: a high and a low unit are one character, and
a unit that stands alone and is no character is replaced by the replacement character. -/
def joinUnits : List Element → List Char
  | [] => []
  | .char c :: es => c :: joinUnits es
  | .unit h :: .unit l :: es =>
    if isHighUnit h && isLowUnit l then
      Char.ofNat (0x10000 + (h - 0xD800) * 0x400 + (l - 0xDC00)) :: joinUnits es
    else
      (if isHighUnit h || isLowUnit h then '\uFFFD' else Char.ofNat h) :: joinUnits (.unit l :: es)
  | .unit n :: es =>
    (if isHighUnit n || isLowUnit n then '\uFFFD' else Char.ofNat n) :: joinUnits es

/-- **A literal that stays in its text**: it ends with a quote of the text, or its mistake is at the
opening quote or behind it. -/
def Scan.Within (opening s : List Char) : Scan → Prop
  | .ok (_, rest) => '\x22' :: rest <:+ s
  | .error m => m.remaining = opening ∨ m.remaining <:+ s

theorem Scan.Within.cons {opening s t : List Char} {scan : Scan} (h : scan.Within opening s)
    (hs : s <:+ t) (e : Element) : (scan.cons e).Within opening t := by
  cases scan with
  | ok p => exact List.IsSuffix.trans h hs
  | error m => exact Or.imp_right (·.trans hs) h

theorem scanText_within (opening s : List Char) : (scanText opening s).Within opening s := by
  fun_induction scanText opening s with
  | case1 => exact .inl rfl
  | case2 cs => exact List.suffix_rfl
  | case3 a b c d cs n _ ih => exact ih.cons (List.suffix_append ['\\', 'u', a, b, c, d] cs) _
  | case4 a b c d cs => exact .inr (List.suffix_cons '\\' _)
  | case5 cs => exact .inr (List.suffix_cons '\\' _)
  | case6 e cs _ _ c _ ih => exact ih.cons (List.suffix_append ['\\', e] cs) _
  | case7 e cs => exact .inr List.suffix_rfl
  | case8 => exact .inl rfl
  | case9 c cs => exact .inr List.suffix_rfl
  | case10 c cs _ _ _ _ _ _ ih => exact ih.cons (List.suffix_cons c cs) _

theorem suffix_of_scanText {opening s : List Char} {es : List Element} {rest : List Char}
    (h : scanText opening s = .ok (es, rest)) : '\x22' :: rest <:+ s := by
  have hwithin := scanText_within opening s
  rwa [h] at hwithin

/-! ### Numbers -/

/-- The most digits that an integer may have. -/
def maxDigits : Nat := 4300

/-- The value of a string of ASCII digits. -/
def digitsValue (ds : List Char) : Nat :=
  ds.foldl (fun n d => 10 * n + (d.toNat - 48)) 0

/-- Whether a text begins with a minus sign, and what follows it. -/
def minus : List Char → Bool × List Char
  | '-' :: cs => (true, cs)
  | cs => (false, cs)

/-- Whether a text begins with a minus sign, and what follows a sign of either kind. -/
def sign : List Char → Bool × List Char
  | '+' :: cs => (false, cs)
  | cs => minus cs

/-- The digits in front of the point, and what follows them: a zero, or digits of which the first
is none. -/
def wholePart? : List Char → Option (List Char × List Char)
  | [] => none
  | c :: cs =>
    if c = '0' then some ([c], cs)
    else if c.isDigit then some (c :: cs.takeWhile Char.isDigit, cs.dropWhile Char.isDigit)
    else none

/-- The digits behind a point, and what follows them. -/
def fraction : List Char → List Char × List Char
  | [] => ([], [])
  | c :: cs =>
    if c = '.' && !(cs.takeWhile Char.isDigit).isEmpty then
      (cs.takeWhile Char.isDigit, cs.dropWhile Char.isDigit)
    else ([], c :: cs)

/-- The exponent, and what follows it: an `e`, perhaps a sign, and digits. -/
def exponent : List Char → Option Int × List Char
  | [] => (none, [])
  | c :: cs =>
    let digits := (sign cs).2.takeWhile Char.isDigit
    if (c = 'e' || c = 'E') && !digits.isEmpty then
      (some (if (sign cs).1 then -(digitsValue digits : Int) else digitsValue digits),
        (sign cs).2.dropWhile Char.isDigit)
    else (none, c :: cs)

/-- The token of a number: a fraction or an exponent makes it a double. -/
def numberToken (negative : Bool) (whole digits : List Char) (exponent : Option Int) : Token :=
  if digits.isEmpty && exponent.isNone then
    if maxDigits < whole.length then .oversized
    else .scalar (.int (if negative then -(digitsValue whole : Int) else digitsValue whole))
  else
    .scalar (.float (.ofDecimal negative (digitsValue (whole ++ digits))
      (exponent.getD 0 - digits.length)))

/-- **Numbers**: the token of the number that a text begins with, and what follows it. -/
def number? (s : List Char) : Option (Token × List Char) :=
  (wholePart? (minus s).2).map fun (whole, tail) =>
    let (digits, behind) := fraction tail
    let (e, rest) := exponent behind
    (numberToken (minus s).1 whole digits e, rest)

theorem minus_suffix (s : List Char) : (minus s).2 <:+ s := by
  fun_cases minus s
  · exact List.suffix_cons _ _
  · exact List.suffix_rfl

theorem sign_suffix (s : List Char) : (sign s).2 <:+ s := by
  fun_cases sign s
  · exact List.suffix_cons _ _
  · exact minus_suffix s

theorem suffix_of_wholePart? {s ds rest : List Char} (h : wholePart? s = some (ds, rest)) :
    rest <:+ s ∧ rest.length < s.length := by
  cases s with
  | nil => cases h
  | cons c cs =>
    rw [wholePart?] at h
    split at h
    · cases h
      exact ⟨List.suffix_cons _ _, Nat.lt_succ_self _⟩
    · split at h
      · cases h
        have hsuffix := List.dropWhile_suffix Char.isDigit (l := cs)
        exact ⟨hsuffix.trans (List.suffix_cons c cs), Nat.lt_succ_of_le hsuffix.length_le⟩
      · cases h

theorem fraction_suffix (s : List Char) : (fraction s).2 <:+ s := by
  cases s with
  | nil => exact List.suffix_rfl
  | cons c cs =>
    rw [fraction]
    split
    · exact (List.dropWhile_suffix _).trans (List.suffix_cons c cs)
    · exact List.suffix_rfl

theorem exponent_suffix (s : List Char) : (exponent s).2 <:+ s := by
  cases s with
  | nil => exact List.suffix_rfl
  | cons c cs =>
    rw [exponent]
    split
    · exact (List.dropWhile_suffix _).trans ((sign_suffix cs).trans (List.suffix_cons c cs))
    · exact List.suffix_rfl

/-- **A number takes at least a digit.** -/
theorem suffix_of_number? {s rest : List Char} {t : Token} (h : number? s = some (t, rest)) :
    rest <:+ s ∧ rest.length < s.length := by
  obtain ⟨⟨whole, tail⟩, hwhole, heq⟩ := Option.map_eq_some_iff.1 h
  obtain ⟨htail, hlength⟩ := suffix_of_wholePart? hwhole
  have hrest : rest <:+ tail := by
    rw [← (Prod.mk.inj heq).2]
    exact (exponent_suffix _).trans (fraction_suffix tail)
  have hsign := minus_suffix s
  refine ⟨hrest.trans (htail.trans hsign), ?_⟩
  have hle := hrest.length_le
  have hsignLe := hsign.length_le
  omega

/-! ### The tokens of a text -/

/-- The words that are values. -/
def words : List (List Char × Json) :=
  [("null".toList, .null), ("true".toList, .bool true), ("false".toList, .bool false),
    ("NaN".toList, .float .notANumber), ("Infinity".toList, .float (.infinite false)),
    ("-Infinity".toList, .float (.infinite true))]

/-- A word that the text starts with, and how many characters it has beyond the first. -/
def word? (s : List Char) : Option (Json × Nat) :=
  words.findSome? fun w => (Text.afterStart? w.1 s).map fun _ => (w.2, w.1.length - 1)

/-- The characters that are tokens by themselves. -/
def punctuation? : Char → Option Token
  | '{' => some .openBrace
  | '}' => some .closeBrace
  | '[' => some .openBracket
  | ']' => some .closeBracket
  | ',' => some .comma
  | ':' => some .colon
  | _ => none

/-- The characters that may stand between tokens. -/
def isGap (c : Char) : Bool :=
  c = ' ' || c = '\t' || c = '\n' || c = '\r'

/-- **The tokens of a text**, up to the first that is none. -/
def lexemes : List Char → List Lexeme
  | [] => []
  | c :: cs =>
    if isGap c then lexemes cs
    else
      match punctuation? c with
      | some t => ⟨t, c :: cs⟩ :: lexemes cs
      | none =>
        if c = '\x22' then
          match _h : scanText (c :: cs) cs with
          | .ok (es, rest) => ⟨.text (String.ofList (joinUnits es)), c :: cs⟩ :: lexemes rest
          | .error m => [⟨.broken m, c :: cs⟩]
        else
          match word? (c :: cs) with
          | some (v, extra) => ⟨.scalar v, c :: cs⟩ :: lexemes (cs.drop extra)
          | none =>
            match _h : number? (c :: cs) with
            | some (t, rest) => ⟨t, c :: cs⟩ :: lexemes rest
            | none => [⟨.bad, c :: cs⟩]
  termination_by s => s.length
  decreasing_by
    all_goals simp only [List.length_cons]
    all_goals first
      | omega
      | (have hlen := (suffix_of_scanText _h).length_le; simp only [List.length_cons] at hlen; omega)
      | (simp only [List.length_drop]; omega)
      | (have hlen := (suffix_of_number? _h).2; simp only [List.length_cons] at hlen; omega)

/-- A punctuation mark is one token. -/
theorem lexemes_punctuation {c : Char} {t : Token} (h : punctuation? c = some t) (cs : List Char) :
    lexemes (c :: cs) = ⟨t, c :: cs⟩ :: lexemes cs := by
  have hgap : isGap c = false := by
    revert h
    fun_cases punctuation? c <;> simp [isGap]
  simp only [lexemes, hgap, Bool.false_eq_true, if_false, h]

/-- A token that stays in a text, and so does a mistake in it. -/
structure Lexeme.Within (s : List Char) (l : Lexeme) : Prop where
  remaining : l.remaining <:+ s
  mistake : ∀ m, l.token = .broken m → m.remaining <:+ s

theorem Lexeme.Within.trans {s t : List Char} {l : Lexeme} (h : l.Within s) (hs : s <:+ t) :
    l.Within t where
  remaining := h.remaining.trans hs
  mistake m hm := (h.mistake m hm).trans hs

theorem Lexeme.Within.of_ne_broken {s : List Char} {t : Token} (h : ∀ m, t ≠ .broken m) :
    Lexeme.Within s ⟨t, s⟩ where
  remaining := List.suffix_rfl
  mistake m hm := absurd hm (h m)

theorem punctuation?_ne_broken {c : Char} {t : Token} (h : punctuation? c = some t) (m : Mistake) :
    t ≠ .broken m := by
  rintro rfl
  revert h
  fun_cases punctuation? c <;> simp

theorem numberToken_ne_broken (negative : Bool) (whole digits : List Char) (e : Option Int)
    (m : Mistake) : numberToken negative whole digits e ≠ .broken m := by
  rw [numberToken]
  split
  · split <;> simp
  · simp

theorem number?_ne_broken {s rest : List Char} {t : Token} (h : number? s = some (t, rest))
    (m : Mistake) : t ≠ .broken m := by
  obtain ⟨⟨whole, tail⟩, -, heq⟩ := Option.map_eq_some_iff.1 h
  rw [← (Prod.mk.inj heq).1]
  exact numberToken_ne_broken _ _ _ _ m

/-- **The tokens of a text stay in it.** -/
theorem lexemes_within (s : List Char) : ∀ l ∈ lexemes s, l.Within s := by
  fun_induction lexemes s with
  | case1 => simp
  | case2 c cs _ ih => exact fun l hl => (ih l hl).trans (List.suffix_cons c cs)
  | case3 c cs _ t htoken ih =>
    rintro l (_ | ⟨_, hl⟩)
    · exact .of_ne_broken (punctuation?_ne_broken htoken)
    · exact (ih l hl).trans (List.suffix_cons c cs)
  | case4 cs es rest _ _ hscan ih =>
    rintro l (_ | ⟨_, hl⟩)
    · exact .of_ne_broken (by simp)
    · have hrest := (List.suffix_cons '\x22' rest).trans (suffix_of_scanText hscan)
      exact (ih l hl).trans (hrest.trans (List.suffix_cons '\x22' cs))
  | case5 cs m _ _ hscan =>
    have hwithin := scanText_within ('\x22' :: cs) cs
    rw [hscan] at hwithin
    rintro l (_ | ⟨_, hl⟩)
    · refine ⟨List.suffix_rfl, fun m' hm => ?_⟩
      cases hm
      exact hwithin.elim (fun h => h ▸ List.suffix_rfl) fun h => h.trans (List.suffix_cons '\x22' cs)
    · cases hl
  | case6 c cs _ _ _ v extra _ ih =>
    rintro l (_ | ⟨_, hl⟩)
    · exact .of_ne_broken (by simp)
    · exact (ih l hl).trans ((List.drop_suffix extra cs).trans (List.suffix_cons c cs))
  | case7 c cs _ _ _ _ t rest hnumber ih =>
    rintro l (_ | ⟨_, hl⟩)
    · exact .of_ne_broken (number?_ne_broken hnumber)
    · exact (ih l hl).trans (suffix_of_number? hnumber).1
  | case8 c cs =>
    rintro l (_ | ⟨_, hl⟩)
    · exact .of_ne_broken (by simp)
    · cases hl

end DenoPackager.Json

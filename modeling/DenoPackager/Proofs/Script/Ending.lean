import DenoPackager.Proofs.Script.Parts
import DenoPackager.Source.ImportMeta

/-!
# What a name stands behind

Whether a name is the name of a property depends on the token in front of it: behind a member
access, `.` or `?.`, it is one, however far away that token is. Three dots are one token, which
spreads a value and accesses no member, and the dot in `1.` belongs to a number. So the code in
front of a name is read token by token, the longest token first, as far as that is needed to
tell dots apart.

White space and comments separate tokens. White space is what is blank, and the byte order mark.

## Main definitions

* `Ending`, `ending`: what lexemes end with.
* `Ending.isFree`: whether a name behind them is an identifier of its own, and no property.

## Main results

* `mayPrecede_lastCode`: what the character in front of a name tells about the ending.
* `Ending.isFree_eq_iff`: where that is enough to tell whether the name is free.
-/

namespace DenoPackager.Source

open Text (isBlank)

/-! ### Gaps -/

/-- Whether a character is white space. -/
def isWhite (c : Char) : Bool :=
  isBlank c || c = '\ufeff'

/-- Whether a lexeme is white space or a comment. -/
def Lexeme.isGap : Lexeme → Bool
  | .code c => isWhite c
  | .inert text => text.head? = some '/'

/-! ### Endings -/

/-- **What code ends with**, as far as the next character may still belong to it. -/
inductive Ending where
  /-- A token that is complete, or none. -/
  | other
  /-- A name, or a number that takes no point any more. -/
  | word
  /-- The mark of a private name. -/
  | hash
  /-- The digits in front of the point of a number. -/
  | integer
  /-- The point of a number. -/
  | point
  /-- The digits behind the point of a number. -/
  | fraction
  /-- The letter that starts the exponent of a number. -/
  | exponent
  /-- The sign of an exponent. -/
  | sign
  /-- A dot that accesses a member, if no other two follow it. -/
  | dot
  /-- Two dots. -/
  | twoDots
  /-- The three dots that spread a value. -/
  | spread
  /-- A question mark. -/
  | question
  /-- A question mark with a dot, which access a member. -/
  | chain
  /-- A member access with a gap behind it. -/
  | access
  deriving Repr, DecidableEq

namespace Ending

/-- Whether the last token is a member access. -/
def isAccess : Ending → Bool
  | dot | twoDots | chain | access => true
  | _ => false

/-- Whether the last character is part of a name or a number, so that a letter would be, too. -/
def isWord : Ending → Bool
  | word | integer | fraction | exponent => true
  | _ => false

/-- Whether the last character is a dot. -/
def isDot : Ending → Bool
  | point | dot | twoDots | spread | chain => true
  | _ => false

/-- **A name that starts here is free**: it is an identifier of its own, and no property. -/
def isFree (e : Ending) : Bool :=
  !(e.isWord || e = hash || e.isAccess)

/-- The ending behind a dot. -/
def afterDot : Ending → Ending
  | integer => point
  | dot => twoDots
  | twoDots => spread
  | question => chain
  | _ => dot

/-- The ending behind a gap. -/
def afterGap (e : Ending) : Ending :=
  if e.isAccess then access else other

/-- The ending behind a decimal digit. -/
def afterDigit : Ending → Ending
  | word | hash | exponent | sign => word
  | point | fraction | dot | twoDots | chain => fraction
  | _ => integer

/-- The ending behind another character that names are made of. -/
def afterLetter (c : Char) : Ending → Ending
  | integer => if c = '_' then integer else if c = 'e' ∨ c = 'E' then exponent else word
  | fraction => if c = '_' then fraction else if c = 'e' ∨ c = 'E' then exponent else word
  | point => if c = 'e' ∨ c = 'E' then exponent else word
  | _ => word

/-- The ending behind a character that no name has. -/
def afterMark (c : Char) (e : Ending) : Ending :=
  if c = '.' then e.afterDot
  else if c = '?' then if e = question then other else question
  else if c = '#' then hash
  else if isWhite c then e.afterGap
  else if e = exponent ∧ (c = '+' ∨ c = '-') then sign
  else other

/-- The ending behind a lexeme. -/
def next (e : Ending) : Lexeme → Ending
  | .code c =>
    if isIdentifierChar c then if c.isDigit then e.afterDigit else e.afterLetter c
    else e.afterMark c
  | .inert text => if (Lexeme.inert text).isGap then e.afterGap else other

end Ending

/-- **What lexemes end with.** -/
def ending (ls : List Lexeme) : Ending :=
  ls.foldl Ending.next .other

example : ending (lexemes [] "f(...".toList) = .spread := by decide +kernel

example : ending (lexemes [] "a?. /* b */ ".toList) = .access := by decide +kernel

theorem ending_append (ls ls' : List Lexeme) :
    ending (ls ++ ls') = ls'.foldl Ending.next (ending ls) :=
  List.foldl_append

/-! ### What the last character tells -/

/-- Behind three dots or a point, and behind the mark of a private name or a member access that is
not directly in front, the last character of the code tells the wrong thing about a name. -/
def Ending.misleads : Ending → Bool
  | point | spread | hash | access => true
  | _ => false

namespace Ending

variable (e : Ending) (c : Char)

theorem isWord_afterLetter : (e.afterLetter c).isWord = true := by
  cases e <;> unfold afterLetter <;> (repeat' split) <;> rfl

theorem isWord_afterDigit : e.afterDigit.isWord = true := by
  cases e <;> rfl

theorem isDot_of_isWord {e : Ending} (h : e.isWord = true) : e.isDot = false := by
  cases e <;> first | rfl | exact absurd h (by decide)

theorem afterGap_cases : e.afterGap = access ∨ e.afterGap = other := by
  rw [afterGap]
  split
  · exact .inl rfl
  · exact .inr rfl

/-- Behind a mark there is no word, and a dot only if the mark is one. -/
theorem afterMark_cases :
    (e.afterMark c).isWord = false ∧ ((e.afterMark c).isDot = true ↔ c = '.') := by
  rw [afterMark]
  by_cases hdot : c = '.'
  · rw [if_pos hdot]
    cases e <;> exact ⟨rfl, iff_of_true rfl hdot⟩
  · rw [if_neg hdot]
    have hother : ∀ e', e' = other ∨ e' = question ∨ e' = hash ∨ e' = access ∨ e' = sign →
        e'.isWord = false ∧ (e'.isDot = true ↔ c = '.') := by
      rintro e' (rfl | rfl | rfl | rfl | rfl) <;> exact ⟨rfl, iff_of_false (by decide) hdot⟩
    refine hother _ ?_
    split
    · split
      · exact .inl rfl
      · exact .inr (.inl rfl)
    split
    · exact .inr (.inr (.inl rfl))
    split
    · rcases e.afterGap_cases with h | h <;> rw [h] <;> decide
    split <;> decide

/-- Behind inert text there is neither a word nor a dot. -/
theorem next_inert (text : List Char) :
    (e.next (.inert text)).isWord = false ∧ (e.next (.inert text)).isDot = false := by
  rw [next]
  split
  · rcases e.afterGap_cases with h | h <;> rw [h] <;> decide
  · decide

/-- Behind a character that names are made of there is a word, and only there. -/
theorem isWord_next (l : Lexeme) :
    (e.next l).isWord = true ↔ ∃ c, l = .code c ∧ isIdentifierChar c = true := by
  cases l with
  | code c =>
    rw [next]
    by_cases hname : isIdentifierChar c = true
    · rw [if_pos hname]
      refine iff_of_true ?_ ⟨c, rfl, hname⟩
      split
      · exact e.isWord_afterDigit
      · exact e.isWord_afterLetter c
    · rw [if_neg hname, (e.afterMark_cases c).1]
      refine iff_of_false (by decide) ?_
      rintro ⟨d, hd, hname'⟩
      exact hname (Lexeme.code.inj hd ▸ hname')
  | inert text => exact iff_of_false (by simp [(e.next_inert text).1]) (by simp)

/-- Behind a dot there is one, and only there. -/
theorem isDot_next (l : Lexeme) : (e.next l).isDot = true ↔ l = .code '.' := by
  cases l with
  | code c =>
    rw [Lexeme.code.injEq]
    by_cases hname : isIdentifierChar c = true
    · have hword := (e.isWord_next (.code c)).2 ⟨c, rfl, hname⟩
      rw [isDot_of_isWord hword]
      refine iff_of_false (by decide) ?_
      rintro rfl
      exact absurd hname (by decide +kernel)
    · rw [next, if_neg hname]
      exact (e.afterMark_cases c).2
  | inert text => exact iff_of_false (by simp [(e.next_inert text).2]) (by simp)

end Ending

/-- The character that lexemes end with is that of the last one. -/
theorem lastCode_append (prev : Option Char) (ls ls' : List Lexeme) :
    lastCode prev (ls ++ ls') = lastCode (lastCode prev ls) ls' := by
  induction ls generalizing prev with
  | nil => rfl
  | cons l ls ih => cases l <;> exact ih _

/-- **What the character in front of a name tells**: whether the ending is a word or a dot, and
no more. -/
theorem mayPrecede_lastCode (ls : List Lexeme) :
    mayPrecede (lastCode none ls) = !((ending ls).isWord || (ending ls).isDot) := by
  rcases List.eq_nil_or_concat ls with rfl | ⟨ls, l, rfl⟩
  · rfl
  · rw [List.concat_eq_append, lastCode_append, ending_append]
    have hword := (ending ls).isWord_next l
    have hdot := (ending ls).isDot_next l
    cases l with
    | code c =>
      rw [Lexeme.code.injEq] at hdot
      have hname : ((ending ls).next (.code c)).isWord = isIdentifierChar c := by
        rw [Bool.eq_iff_iff, hword]
        simp
      have hdot' : ((ending ls).next (.code c)).isDot = decide (c = '.') := by
        rw [Bool.eq_iff_iff, hdot, decide_eq_true_iff]
      rw [lastCode, lastCode, mayPrecede, List.foldl_cons, List.foldl_nil, hname, hdot',
        Bool.or_comm]
    | inert text =>
      have hname : ((ending ls).next (.inert text)).isWord = false := by
        rw [← Bool.not_eq_true, hword]
        simp
      have hdot' : ((ending ls).next (.inert text)).isDot = false := by
        rw [← Bool.not_eq_true, hdot]
        simp
      rw [lastCode, lastCode, mayPrecede, List.foldl_cons, List.foldl_nil, hname, hdot']
      rfl

/-- What the last character tells is right where it does not mislead, and only there. -/
theorem Ending.isFree_eq_iff (e : Ending) :
    (!(e.isWord || e.isDot)) = e.isFree ↔ e.misleads = false := by
  cases e <;> decide

end DenoPackager.Source

import DenoPackager.Proofs.Script.Segments

/-!
# What a script holds

The inert texts of a script in order, and its code put together. Both can be read off its lexemes,
one at a time, so they are known for a changed script as soon as its lexemes are.

## Main definitions

* `inertTexts`, `codeText`: what segments hold.

## Main results

* `inertTexts_segments`, `codeText_segments`: the same, read off lexemes.
-/

namespace DenoPackager.Source

/-- **The inert texts** among segments, in order. -/
def inertTexts (gs : List Segment) : List (List Char) :=
  (gs.filter fun g => !g.isCode).map Segment.text

/-- **The code** of segments, put together. -/
def codeText (gs : List Segment) : List Char :=
  (gs.filter Segment.isCode).flatMap Segment.text

/-- The text of a lexeme, if it is inert. -/
def Lexeme.inert? : Lexeme → Option (List Char)
  | .code _ => none
  | .inert text => some text

/-- The character of a lexeme, if it is code. -/
def Lexeme.code? : Lexeme → Option Char
  | .code c => some c
  | .inert _ => none

theorem inertTexts_consCode (c : Char) (gs : List Segment) :
    inertTexts (consCode c gs) = inertTexts gs := by
  match gs with
  | [] => rfl
  | ⟨true, text⟩ :: gs => rfl
  | ⟨false, text⟩ :: gs => rfl

theorem codeText_consCode (c : Char) (gs : List Segment) :
    codeText (consCode c gs) = c :: codeText gs := by
  match gs with
  | [] => rfl
  | ⟨true, text⟩ :: gs => rfl
  | ⟨false, text⟩ :: gs => rfl

theorem inertTexts_ofLexemes (ls : List Lexeme) :
    inertTexts (ofLexemes ls) = ls.filterMap Lexeme.inert? := by
  induction ls with
  | nil => rfl
  | cons l ls ih =>
    cases l with
    | code c => rw [ofLexemes, inertTexts_consCode, ih]; rfl
    | inert text => exact congrArg (text :: ·) ih

theorem codeText_ofLexemes (ls : List Lexeme) :
    codeText (ofLexemes ls) = ls.filterMap Lexeme.code? := by
  induction ls with
  | nil => rfl
  | cons l ls ih =>
    cases l with
    | code c => rw [ofLexemes, codeText_consCode, ih]; rfl
    | inert text => exact ih

/-- The inert texts of a script are the inert ones of its lexemes. -/
theorem inertTexts_segments (s : List Char) :
    inertTexts (segments s) = (lexemes [] s).filterMap Lexeme.inert? :=
  inertTexts_ofLexemes _

/-- The code of a script is that of its lexemes. -/
theorem codeText_segments (s : List Char) :
    codeText (segments s) = (lexemes [] s).filterMap Lexeme.code? :=
  codeText_ofLexemes _

end DenoPackager.Source

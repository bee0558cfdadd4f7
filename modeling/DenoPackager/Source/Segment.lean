import DenoPackager.Text.Pieces

/-!
# Code and inert text

A script is made of code and of inert text: string literals, template text and comments. What
stands between `$` with an open brace and its closing brace inside a template is code again, so
the braces that are open inside each substitution are counted. A regular expression literal is
taken for code.

A script is first read as a list of lexemes, each a single character of code or a whole stretch
of inert text; the code characters between two stretches are then put together.

## Main definitions

* `lexemes`: a script, character by character and stretch by stretch.
* `segments`: a script as a list of segments.

## Main results

* `flatten_lexemes`, `flatten_segments`: no character is lost.
-/

namespace DenoPackager.Source

/-- **A piece of a script**: a character of code, or a stretch of inert text. -/
inductive Lexeme where
  | code (c : Char)
  | inert (text : List Char)
  deriving Repr, DecidableEq

/-- **A segment of a script**: a run of code or a stretch of inert text. -/
structure Segment where
  isCode : Bool
  text : List Char
  deriving Repr, DecidableEq

/-! ### Stretches of inert text -/

/-- The length of the rest of a string literal after its opening quote, the closing quote
included. A backslash covers the character after it; a line feed ends a literal that was not
closed and is not part of it. -/
def stringLength (quote : Char) : List Char → Nat
  | [] => 0
  | ['\\'] => 1
  | '\\' :: _ :: cs => stringLength quote cs + 2
  | c :: cs => if c = quote then 1 else if c = '\n' then 0 else stringLength quote cs + 1

/-- The length of the rest of a line. -/
def lineLength : List Char → Nat
  | [] => 0
  | c :: cs => if c = '\n' then 0 else lineLength cs + 1

/-- The length of the rest of a block comment after its opening mark, the closing mark
included. -/
def blockLength : List Char → Nat
  | [] => 0
  | '*' :: '/' :: _ => 2
  | _ :: cs => blockLength cs + 1

/-- The length of a stretch of template text, with what ends it included, and whether that is
the start of a substitution. A backslash covers the character after it. -/
def templateLength : List Char → Nat × Bool
  | [] => (0, false)
  | ['\\'] => (1, false)
  | '\\' :: _ :: cs => ((templateLength cs).1 + 2, (templateLength cs).2)
  | '$' :: '{' :: _ => (2, true)
  | c :: cs =>
    if c = '\x60' then (1, false) else ((templateLength cs).1 + 1, (templateLength cs).2)

/-- **The depths of open braces**, one number for each open template substitution, the
innermost first. -/
abbrev Depths := List Nat

/-- The depths after a character of code. -/
def Depths.afterCode (c : Char) : Depths → Depths
  | [] => []
  | d :: ds => if c = '{' then (d + 1) :: ds else if c = '}' then (d - 1) :: ds else d :: ds

/-- The depths after a stretch of template text. -/
def Depths.afterTemplate (entered : Bool) (ds : Depths) : Depths :=
  if entered then 0 :: ds else ds

/-- **A stretch of inert text** that starts with the character `c` before `cs`: the number of
further characters it takes, and the depths after it. -/
def inertFrom? (ds : Depths) (c : Char) (cs : List Char) : Option (Nat × Depths) :=
  if c = '\x27' ∨ c = '\x22' then some (stringLength c cs, ds)
  else if c = '/' then
    match cs with
    | '/' :: _ => some (lineLength cs, ds)
    | '*' :: rest => some (blockLength rest + 1, ds)
    | _ => none
  else if c = '\x60' then
    some ((templateLength cs).1, Depths.afterTemplate (templateLength cs).2 ds)
  else if c = '}' then
    match ds with
    | 0 :: outer => some ((templateLength cs).1, Depths.afterTemplate (templateLength cs).2 outer)
    | _ => none
  else none

/-! ### Lexemes and segments -/

/-- **The lexemes of a script**, for the depths at its start. -/
def lexemes (ds : Depths) : List Char → List Lexeme
  | [] => []
  | c :: cs =>
    match inertFrom? ds c cs with
    | some (n, ds) => .inert (c :: cs.take n) :: lexemes ds (cs.drop n)
    | none => .code c :: lexemes (ds.afterCode c) cs
  termination_by s => s.length
  decreasing_by all_goals (simp only [List.length_drop, List.length_cons]; omega)

/-- Putting a character of code in front of segments. -/
def consCode (c : Char) : List Segment → List Segment
  | ⟨true, text⟩ :: ss => ⟨true, c :: text⟩ :: ss
  | ss => ⟨true, [c]⟩ :: ss

/-- The segments that lexemes make up. -/
def ofLexemes : List Lexeme → List Segment
  | [] => []
  | .code c :: ls => consCode c (ofLexemes ls)
  | .inert text :: ls => ⟨false, text⟩ :: ofLexemes ls

/-- **The segments of a script.** -/
def segments (s : List Char) : List Segment :=
  ofLexemes (lexemes [] s)

/-- A script with its code changed and its inert text kept. -/
def mapCode (f : List Char → List Char) (s : List Char) : List Char :=
  (segments s).flatMap fun g => if g.isCode then f g.text else g.text

/-! ### Nothing is lost -/

/-- The text of a lexeme. -/
def Lexeme.text : Lexeme → List Char
  | .code c => [c]
  | .inert text => text

/-- The lexemes of a script make it up. -/
theorem flatten_lexemes (ds : Depths) (s : List Char) :
    (lexemes ds s).flatMap Lexeme.text = s := by
  fun_induction lexemes ds s with
  | case1 => rfl
  | case2 ds c cs n ds' _ ih =>
    simp only [List.flatMap_cons, Lexeme.text, ih, List.cons_append, List.take_append_drop]
  | case3 ds c cs _ ih => simp only [List.flatMap_cons, Lexeme.text, ih, List.singleton_append]

theorem flatMap_consCode (c : Char) (ss : List Segment) :
    (consCode c ss).flatMap Segment.text = c :: ss.flatMap Segment.text := by
  unfold consCode
  split <;> simp

theorem flatMap_ofLexemes (ls : List Lexeme) :
    (ofLexemes ls).flatMap Segment.text = ls.flatMap Lexeme.text := by
  induction ls with
  | nil => rfl
  | cons l ls ih =>
    cases l with
    | code c =>
      simp only [ofLexemes, flatMap_consCode, ih, List.flatMap_cons, Lexeme.text,
        List.singleton_append]
    | inert text => simp only [ofLexemes, List.flatMap_cons, ih, Lexeme.text]

/-- **The segments of a script make it up.** -/
theorem flatten_segments (s : List Char) : (segments s).flatMap Segment.text = s := by
  rw [segments, flatMap_ofLexemes, flatten_lexemes]

end DenoPackager.Source

import DenoPackager.Proofs.Script.Relex

/-!
# Literals and comments

Inert text as it is written on purpose: string literals that are closed, comments, and the text of
template literals. Each one says how it is spelled, and a script reads it up to its own end, with
whatever stands in it: quotes of the other kind, braces, the marks of comments, and anything behind
a backslash.

## Main definitions

* `Glyph`: a character of a literal, covered by a backslash or not.
* `StringLiteral`, `LineComment`, `BlockComment`, `TemplateText`: the kinds of inert text.

## Main results

* `stringLength_spell`, `lineLength_body`, `blockLength_body`, `templateLength_spell`: where each
  kind ends.
* `lexemes_inert`: a stretch of inert text of known length.
* `StringLiteral.selfContained`, `BlockComment.selfContained`: what is read in the same way wherever
  it stands.
-/

namespace DenoPackager.Source

/-! ### Characters of literals -/

/-- **A character of a literal**: one by itself, or one that a backslash covers. -/
inductive Glyph where
  | plain (c : Char)
  | covered (c : Char)
  deriving Repr, DecidableEq

/-- The characters that are written for one. -/
def Glyph.text : Glyph → List Char
  | .plain c => [c]
  | .covered c => ['\\', c]

/-- The text of a literal. -/
def spell (gs : List Glyph) : List Char :=
  gs.flatMap Glyph.text

@[simp] theorem spell_nil : spell [] = [] := rfl

@[simp] theorem spell_plain (c : Char) (gs : List Glyph) :
    spell (.plain c :: gs) = c :: spell gs := rfl

@[simp] theorem spell_covered (c : Char) (gs : List Glyph) :
    spell (.covered c :: gs) = '\\' :: c :: spell gs := rfl

/-! ### Kinds of inert text -/

/-- **A string literal** that is closed. -/
structure StringLiteral where
  quote : Char
  body : List Glyph
  quote_eq : quote = '\x27' ∨ quote = '\x22'
  proper : ∀ c, .plain c ∈ body → c ≠ quote ∧ c ≠ '\\' ∧ c ≠ '\n'

/-- **A comment** up to the end of a line. -/
structure LineComment where
  body : List Char
  proper : '\n' ∉ body

/-- **A comment** up to the first closing mark. -/
structure BlockComment where
  body : List Char
  proper : ¬['*', '/'] <:+: body

/-- **The text of a template literal**, up to its closing backtick or to a substitution. -/
structure TemplateText where
  glyphs : List Glyph
  proper : ∀ c, .plain c ∈ glyphs → c ≠ '\x60' ∧ c ≠ '\\'
  whole : ¬[Glyph.plain '$', .plain '\x7b'] <:+: glyphs

/-- How a string literal is written. -/
def StringLiteral.text (l : StringLiteral) : List Char :=
  l.quote :: (spell l.body ++ [l.quote])

/-- How a line comment is written. -/
def LineComment.text (l : LineComment) : List Char :=
  '/' :: '/' :: l.body

/-- How a block comment is written. -/
def BlockComment.text (l : BlockComment) : List Char :=
  '/' :: '*' :: (l.body ++ ['*', '/'])

/-! ### Where they end -/

/-- **A string literal ends** at its closing quote. -/
theorem stringLength_spell {quote : Char} {gs : List Glyph} (rest : List Char)
    (hquote : quote ≠ '\\')
    (h : ∀ c, .plain c ∈ gs → c ≠ quote ∧ c ≠ '\\' ∧ c ≠ '\n') :
    stringLength quote (spell gs ++ quote :: rest) = (spell gs ++ [quote]).length := by
  induction gs with
  | nil =>
    rw [spell_nil, List.nil_append, stringLength_cons hquote, if_pos rfl]
    rfl
  | cons g gs ih =>
    have hrest := ih fun c hc => h c (List.mem_cons_of_mem g hc)
    cases g with
    | covered c =>
      rw [spell_covered, List.cons_append, List.cons_append, stringLength, hrest]
      rfl
    | plain c =>
      obtain ⟨hq, hb, hn⟩ := h c List.mem_cons_self
      rw [spell_plain, List.cons_append, stringLength_cons hb, if_neg hq, if_neg hn, hrest]
      rfl

/-- **A line comment ends** where the line does. -/
theorem lineLength_body {body rest : List Char} (hbody : '\n' ∉ body)
    (hrest : ∀ c ∈ rest.head?, c = '\n') : lineLength (body ++ rest) = body.length := by
  induction body with
  | nil =>
    cases rest with
    | nil => rfl
    | cons c rest =>
      obtain rfl := hrest c rfl
      rfl
  | cons c body ih =>
    rw [List.mem_cons, not_or] at hbody
    rw [List.cons_append, lineLength, if_neg (Ne.symm hbody.1), ih hbody.2]
    rfl

/-- **A block comment ends** at the first closing mark. -/
theorem blockLength_body {body : List Char} (rest : List Char)
    (hbody : ¬['*', '/'] <:+: body) :
    blockLength (body ++ '*' :: '/' :: rest) = (body ++ ['*', '/']).length := by
  induction body with
  | nil => rfl
  | cons c body ih =>
    have hopen : ∀ tail, c = '*' → body ++ '*' :: '/' :: rest = '/' :: tail → False := by
      rintro tail rfl heq
      cases body with
      | nil => exact absurd (List.cons.inj heq).1 (by decide)
      | cons d body =>
        obtain rfl : d = '/' := (List.cons.inj heq).1
        exact hbody ⟨[], body, rfl⟩
    rw [List.cons_append, blockLength.eq_3 c _ hopen, ih fun h => hbody (List.infix_cons h)]
    rfl

/-- **Template text goes on** to what ends it. A dollar sign at its end starts nothing, as no brace
follows. -/
theorem templateLength_spell {gs : List Glyph} {tail : List Char}
    (hplain : ∀ c, .plain c ∈ gs → c ≠ '\x60' ∧ c ≠ '\\')
    (hwhole : ¬[Glyph.plain '$', .plain '\x7b'] <:+: gs) (htail : tail.head? ≠ some '\x7b') :
    templateLength (spell gs ++ tail) =
      ((spell gs).length + (templateLength tail).1, (templateLength tail).2) := by
  induction gs with
  | nil => simp
  | cons g gs ih =>
    have hrest := ih (fun c hc => hplain c (List.mem_cons_of_mem g hc))
      fun h => hwhole (List.infix_cons h)
    cases g with
    | covered c =>
      rw [spell_covered, List.cons_append, List.cons_append, templateLength, hrest]
      simp only [List.length_cons]
      congr 1
      omega
    | plain c =>
      obtain ⟨hclose, hb⟩ := hplain c List.mem_cons_self
      have hopen : ∀ t, c = '$' → spell gs ++ tail = '\x7b' :: t → False := by
        rintro t rfl heq
        cases gs with
        | nil => exact htail (by rw [spell_nil, List.nil_append] at heq; rw [heq]; rfl)
        | cons g gs =>
          cases g with
          | covered d => exact absurd (List.cons.inj heq).1 (by decide)
          | plain d =>
            obtain rfl : d = '\x7b' := (List.cons.inj heq).1
            exact hwhole ⟨[], gs, rfl⟩
      rw [spell_plain, List.cons_append, templateLength_cons hb hopen, if_neg hclose, hrest]
      simp only [List.length_cons]
      congr 1
      omega

/-! ### How they are read -/

/-- **A stretch of inert text** of known length. -/
theorem lexemes_inert {ds ds' : Depths} {c : Char} {body rest : List Char}
    (h : inertFrom? ds c (body ++ rest) = some (body.length, ds')) :
    lexemes ds (c :: (body ++ rest)) = .inert (c :: body) :: lexemes ds' rest := by
  rw [lexemes, h]
  simp only [List.take_left, List.drop_left]

/-- A string literal is read as it is wherever it stands. -/
theorem StringLiteral.selfContained (l : StringLiteral) : SelfContained [.inert l.text] := by
  intro ds rest
  have hquote : l.quote ≠ '\\' := by rcases l.quote_eq with h | h <;> rw [h] <;> decide
  have hlength := stringLength_spell rest hquote l.proper
  have hinert : inertFrom? ds l.quote (spell l.body ++ l.quote :: rest) =
      some ((spell l.body ++ [l.quote]).length, ds) :=
    inertFrom?_eq_some_iff.2 (.inl ⟨l.quote_eq, hlength.symm, rfl⟩)
  rw [List.append_cons] at hinert
  have hread := lexemes_inert hinert
  simpa [text, Lexeme.text] using hread

/-- A block comment is read as it is wherever it stands. -/
theorem BlockComment.selfContained (l : BlockComment) : SelfContained [.inert l.text] := by
  intro ds rest
  have hlength := blockLength_body rest l.proper
  have hinert : inertFrom? ds '/' ('*' :: (l.body ++ '*' :: '/' :: rest)) =
      some (('*' :: (l.body ++ ['*', '/'])).length, ds) :=
    inertFrom?_eq_some_iff.2
      (.inr (.inr (.inl ⟨rfl, ⟨_, rfl, congrArg (· + 1) hlength.symm⟩, rfl⟩)))
  have hsplit : '*' :: (l.body ++ '*' :: '/' :: rest) =
      ('*' :: (l.body ++ ['*', '/'])) ++ rest := by simp
  rw [hsplit] at hinert
  have hread := lexemes_inert hinert
  simpa [text, Lexeme.text] using hread

/-- A line comment is read as it is where the line ends behind it. -/
theorem LineComment.lexemes_text (l : LineComment) (ds : Depths) {rest : List Char}
    (hrest : ∀ c ∈ rest.head?, c = '\n') :
    lexemes ds (l.text ++ rest) = .inert l.text :: lexemes ds rest := by
  have hlength : lineLength ('/' :: (l.body ++ rest)) = ('/' :: l.body).length := by
    rw [lineLength, if_neg (by decide), lineLength_body l.proper hrest]
    rfl
  have hinert : inertFrom? ds '/' ('/' :: l.body ++ rest) = some (('/' :: l.body).length, ds) :=
    inertFrom?_eq_some_iff.2 (.inr (.inl ⟨rfl, ⟨_, rfl⟩, hlength.symm, rfl⟩))
  exact lexemes_inert hinert

/-- **Template text is read as it is** behind a backtick, or behind the brace that closes a
substitution, up to the characters `stop` that end it. -/
theorem TemplateText.lexemes_text (t : TemplateText) {ds ds' : Depths} {first : Char}
    {stop : List Char} {entered : Bool} (rest : List Char)
    (hfirst : first = '\x60' ∧ ds' = ds ∨ first = '\x7d' ∧ ds' = 0 :: ds)
    (hstop : templateLength (stop ++ rest) = (stop.length, entered))
    (hne : (stop ++ rest).head? ≠ some '\x7b') :
    lexemes ds' (first :: (spell t.glyphs ++ (stop ++ rest))) =
      .inert (first :: (spell t.glyphs ++ stop)) :: lexemes (ds.afterTemplate entered) rest := by
  have hlength := templateLength_spell t.proper t.whole hne
  rw [hstop] at hlength
  have hinert : inertFrom? ds' first (spell t.glyphs ++ (stop ++ rest)) =
      some ((spell t.glyphs ++ stop).length, ds.afterTemplate entered) := by
    rw [inertFrom?_eq_some_iff, hlength, List.length_append]
    rcases hfirst with ⟨rfl, rfl⟩ | ⟨rfl, rfl⟩
    · exact .inr (.inr (.inr (.inl ⟨rfl, rfl, rfl⟩)))
    · exact .inr (.inr (.inr (.inr ⟨rfl, ds, rfl, rfl, rfl⟩)))
  rw [← List.append_assoc] at hinert ⊢
  exact lexemes_inert hinert

end DenoPackager.Source

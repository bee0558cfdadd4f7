import DenoPackager.Proofs.Script.Literals
import DenoPackager.Proofs.Script.Segments

/-!
# The grammar of scripts

A script as it is meant: plain characters, blocks in braces, string literals, comments and template
literals, whose substitutions are scripts again, to any depth. What is code and what is inert can be
read off such a tree without looking for the ends of anything, and reading its text gives the same.

Reading keeps one number for each open substitution, and a tree leaves these numbers as they were:
the braces of a block are counted up and down again, so the brace that closes a substitution is the
one that finds its number at zero. That is what the induction on the tree carries.

Two things depend on what stands behind an item. A slash is a plain character only where it does not
start a comment, and a line comment goes on to the end of its line.

## Main definitions

* `Tree`, `Template`: scripts and template literals as trees.
* `Tree.render`, `Tree.readOff`: the text of a tree, and its lexemes.
* `Tree.Fits`: whether every item is followed by something that it can stand in front of.
* `Script`: a tree that fits.

## Main results

* `Tree.lexemes_render`: reading the text of a tree, wherever it stands.
* `segments_script`: the segments of a script are those that are read off its tree.
-/

namespace DenoPackager.Source

/-- A character that is neither a quote nor a backtick nor a brace. -/
def IsPlain (c : Char) : Prop :=
  c ≠ '\x27' ∧ c ≠ '\x22' ∧ c ≠ '\x60' ∧ c ≠ '\x7b' ∧ c ≠ '\x7d'

/-! ### Trees -/

mutual

/-- **A script as a tree**: a list of items, each with the items behind it. -/
inductive Tree where
  | done
  | plain (c : Char) (h : IsPlain c) (rest : Tree)
  | braces (inner rest : Tree)
  | string (l : StringLiteral) (rest : Tree)
  | line (l : LineComment) (rest : Tree)
  | block (l : BlockComment) (rest : Tree)
  | template (t : Template) (rest : Tree)

/-- **A template literal** behind its backtick, or behind the brace that closes a substitution. -/
inductive Template where
  /-- Text up to the closing backtick. -/
  | last (text : TemplateText)
  /-- Text up to a substitution, the script in it, and what stands behind its closing brace. -/
  | hole (text : TemplateText) (inner : Tree) (rest : Template)

end

mutual

/-- **The text of a tree.** -/
def Tree.render : Tree → List Char
  | .done => []
  | .plain c _ rest => c :: rest.render
  | .braces inner rest => '\x7b' :: (inner.render ++ '\x7d' :: rest.render)
  | .string l rest => l.text ++ rest.render
  | .line l rest => l.text ++ rest.render
  | .block l rest => l.text ++ rest.render
  | .template t rest => '\x60' :: (t.render ++ rest.render)

/-- The text of a template literal behind the character that opens its first piece. -/
def Template.render : Template → List Char
  | .last text => spell text.glyphs ++ ['\x60']
  | .hole text inner rest =>
    spell text.glyphs ++ '$' :: '\x7b' :: (inner.render ++ '\x7d' :: rest.render)

end

mutual

/-- **What is read off a tree**: plain characters and the braces of blocks are code, every literal
and every comment is a stretch of inert text. -/
def Tree.readOff : Tree → List Lexeme
  | .done => []
  | .plain c _ rest => .code c :: rest.readOff
  | .braces inner rest => .code '\x7b' :: (inner.readOff ++ .code '\x7d' :: rest.readOff)
  | .string l rest => .inert l.text :: rest.readOff
  | .line l rest => .inert l.text :: rest.readOff
  | .block l rest => .inert l.text :: rest.readOff
  | .template t rest => t.readOff '\x60' ++ rest.readOff

/-- The pieces of a template literal, each with the characters that open and end it, and the scripts
between them. -/
def Template.readOff (first : Char) : Template → List Lexeme
  | .last text => [.inert (first :: (spell text.glyphs ++ ['\x60']))]
  | .hole text inner rest =>
    .inert (first :: (spell text.glyphs ++ ['$', '\x7b'])) ::
      (inner.readOff ++ rest.readOff '\x7d')

end

/-! ### What may follow an item -/

/-- A text that starts a new line, or the end of a script. -/
def StartsLine (s : List Char) : Prop :=
  ∀ c ∈ s.head?, c = '\n'

mutual

/-- **Whether a tree fits** in front of a text: no slash in it starts a comment, and every line
comment is followed by the end of its line. -/
def Tree.Fits : Tree → List Char → Prop
  | .done, _ => True
  | .plain c _ rest, after => (c = '/' → TakesSlash (rest.render ++ after)) ∧ rest.Fits after
  | .braces inner rest, after =>
    inner.Fits ('\x7d' :: (rest.render ++ after)) ∧ rest.Fits after
  | .string _ rest, after => rest.Fits after
  | .line _ rest, after => StartsLine (rest.render ++ after) ∧ rest.Fits after
  | .block _ rest, after => rest.Fits after
  | .template t rest, after => t.Fits (rest.render ++ after) ∧ rest.Fits after

/-- Whether the substitutions of a template literal fit. -/
def Template.Fits : Template → List Char → Prop
  | .last _, _ => True
  | .hole _ inner rest, after =>
    inner.Fits ('\x7d' :: (rest.render ++ after)) ∧ rest.Fits after

end

/-- **A script**: a tree that fits. -/
structure Script where
  tree : Tree
  fits : tree.Fits []

/-- The text of a script. -/
def Script.text (t : Script) : List Char :=
  t.tree.render

/-! ### Reading the text of a tree -/

/-- A plain character is code, if no comment starts with it. -/
theorem inertFrom?_plain {c : Char} {rest : List Char} (ds : Depths) (h : IsPlain c)
    (hslash : c = '/' → TakesSlash rest) : inertFrom? ds c rest = none := by
  obtain ⟨hapostrophe, hquote, hbacktick, -, hclose⟩ := h
  exact inertFrom?_eq_none_iff.2
    ⟨⟨hapostrophe, hquote, hbacktick⟩, hslash, fun hc => absurd hc hclose⟩

/-- A plain character is not counted. -/
theorem afterCode_plain {c : Char} (ds : Depths) (h : IsPlain c) : ds.afterCode c = ds := by
  cases ds with
  | nil => rfl
  | cons d ds => rw [Depths.afterCode, if_neg h.2.2.2.1, if_neg h.2.2.2.2]

/-- The opening brace of a block is counted up. -/
theorem lexemes_open (ds : Depths) (rest : List Char) :
    lexemes ds ('\x7b' :: rest) = .code '\x7b' :: lexemes (ds.afterCode '\x7b') rest := by
  rw [lexemes]
  rfl

/-- The closing brace of a block is counted down again. -/
theorem lexemes_close (ds : Depths) (rest : List Char) :
    lexemes (ds.afterCode '\x7b') ('\x7d' :: rest) = .code '\x7d' :: lexemes ds rest := by
  cases ds with
  | nil => rw [lexemes]; rfl
  | cons d ds => rw [lexemes]; rfl

mutual

/-- **Reading the text of a tree** gives what is read off it, wherever it stands, and leaves the
depths as they were. -/
theorem Tree.lexemes_render (t : Tree) (ds : Depths) (after : List Char) (h : t.Fits after) :
    lexemes ds (t.render ++ after) = t.readOff ++ lexemes ds after := by
  cases t with
  | done => rfl
  | plain c hc rest =>
    obtain ⟨hslash, hrest⟩ := h
    rw [Tree.render, Tree.readOff, List.cons_append, List.cons_append, lexemes,
      inertFrom?_plain ds hc hslash]
    simp only [afterCode_plain ds hc, rest.lexemes_render ds after hrest]
  | braces inner rest =>
    obtain ⟨hinner, hrest⟩ := h
    simp only [Tree.render, Tree.readOff, List.cons_append, List.append_assoc]
    rw [lexemes_open, inner.lexemes_render _ _ hinner, lexemes_close,
      rest.lexemes_render ds after hrest]
  | string l rest =>
    have hread := l.selfContained ds (rest.render ++ after)
    rw [render_cons, render_nil, List.append_nil] at hread
    rw [Tree.render, Tree.readOff, List.append_assoc]
    exact hread.trans (congrArg _ (rest.lexemes_render ds after h))
  | line l rest =>
    obtain ⟨hline, hrest⟩ := h
    rw [Tree.render, Tree.readOff, List.append_assoc, l.lexemes_text ds hline,
      rest.lexemes_render ds after hrest, List.cons_append]
  | block l rest =>
    have hread := l.selfContained ds (rest.render ++ after)
    rw [render_cons, render_nil, List.append_nil] at hread
    rw [Tree.render, Tree.readOff, List.append_assoc]
    exact hread.trans (congrArg _ (rest.lexemes_render ds after h))
  | template t rest =>
    obtain ⟨ht, hrest⟩ := h
    rw [Tree.render, Tree.readOff, List.cons_append, List.append_assoc, List.append_assoc,
      t.lexemes_render (.inl ⟨rfl, rfl⟩) (rest.render ++ after) ht,
      rest.lexemes_render ds after hrest]

/-- **Reading the text of a template literal**, behind its backtick or behind the brace that closes
a substitution. -/
theorem Template.lexemes_render (t : Template) {ds ds' : Depths} {first : Char}
    (hfirst : first = '\x60' ∧ ds' = ds ∨ first = '\x7d' ∧ ds' = 0 :: ds) (after : List Char)
    (h : t.Fits after) :
    lexemes ds' (first :: (t.render ++ after)) = t.readOff first ++ lexemes ds after := by
  cases t with
  | last text =>
    have hread := @TemplateText.lexemes_text text ds ds' first ['\x60'] false after hfirst rfl
      (by simp)
    simp only [Template.render, Template.readOff, List.append_assoc, List.cons_append]
    exact hread
  | hole text inner rest =>
    obtain ⟨hinner, hrest⟩ := h
    have hread := @TemplateText.lexemes_text text ds ds' first ['$', '\x7b'] true
      (inner.render ++ '\x7d' :: (rest.render ++ after)) hfirst rfl (by simp)
    simp only [Template.render, Template.readOff, List.append_assoc, List.cons_append]
    refine hread.trans (congrArg _ ?_)
    rw [Depths.afterTemplate, if_pos rfl, inner.lexemes_render _ _ hinner,
      rest.lexemes_render (.inr ⟨rfl, rfl⟩) after hrest]

end

/-! ### Segments -/

/-- **The segments of a script** are those that are read off its tree: every string, every comment
and every piece of a template literal is one, and so is every run of other characters that is as
long as can be. There is only one such list of segments. -/
theorem segments_script (t : Script) (gs : List Segment) :
    gs = segments t.text ↔ Segmentation gs t.tree.readOff := by
  have hread := t.tree.lexemes_render [] [] t.fits
  rw [List.append_nil, lexemes, List.append_nil] at hread
  rw [segments, Script.text, hread]
  refine (segmentation_iff fun u hu => ?_).symm
  rw [← hread] at hu
  exact ne_nil_of_inert_mem hu

/-- A template literal in the substitution of another, with a brace in a string inside, and a line
comment at the end: of the braces behind the string, two close the substitutions and one the
block. -/
example : ∃ t : Script,
    t.text = "\x7b`x$\x7bb(`y$\x7b'\x7d'\x7d`)\x7d`\x7d//\x7d".toList ∧
    segments "\x7b`x$\x7bb(`y$\x7b'\x7d'\x7d`)\x7d`\x7d//\x7d".toList =
      [⟨true, "\x7b".toList⟩, ⟨false, "`x$\x7b".toList⟩, ⟨true, "b(".toList⟩,
        ⟨false, "`y$\x7b".toList⟩, ⟨false, "'\x7d'".toList⟩, ⟨false, "\x7d`".toList⟩,
        ⟨true, ")".toList⟩, ⟨false, "\x7d`".toList⟩, ⟨true, "\x7d".toList⟩,
        ⟨false, "//\x7d".toList⟩] := by
  let blank : TemplateText := ⟨[], by simp, by decide⟩
  let brace : StringLiteral := ⟨'\x27', [.plain '\x7d'], .inl rfl, by simp⟩
  let inner : Template :=
    .hole ⟨[.plain 'y'], by simp, by decide⟩ (.string brace .done) (.last blank)
  let call : Tree :=
    .plain 'b' (by simp [IsPlain]) <| .plain '(' (by simp [IsPlain]) <| .template inner <|
      .plain ')' (by simp [IsPlain]) .done
  let outer : Template := .hole ⟨[.plain 'x'], by simp, by decide⟩ call (.last blank)
  let comment : LineComment := ⟨['\x7d'], by decide⟩
  let tree : Tree := .braces (.template outer .done) (.line comment .done)
  have hfits : tree.Fits [] := by
    simp [tree, outer, call, inner, Tree.Fits, Template.Fits, Tree.render, StartsLine]
  exact ⟨⟨tree, hfits⟩, rfl, by decide +kernel⟩

end DenoPackager.Source

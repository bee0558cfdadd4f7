import DenoPackager.Proofs.Script.Segments

/-!
# Reading a script one character at a time

The segments of a script are found by jumps: from the start of inert text to its end, wherever
that is. The automaton here never looks ahead. It takes the characters one by one, knows what it
is reading and whether the last character may change the meaning of the next one, and keeps the
depths of open braces on a stack. Both come to the same segments for every text, however broken:
a text may end inside a literal or a comment, behind a backslash, or with braces that match
nothing.

A slash in code may turn out to start a comment. It is read as code until the next character says
otherwise, and is taken back then.

## Main definitions

* `Reader`: the state of the automaton, with the segments that it has read.
* `Reader.step`: one more character.

## Main results

* `Reader.finish_string`, `Reader.finish_block`, `Reader.finish_template`, `Reader.finish_line`:
  one stretch of inert text at a time.
* `Reader.finish_code`: from code on, the automaton puts out what the lexemes make up.
* `segments_automaton`: the segments of every text, and what they are like.
-/

namespace DenoPackager.Source

/-- **What is being read.** -/
inductive Context where
  | code
  | string (quote : Char)
  | line
  | block
  | template
  deriving Repr, DecidableEq

/-- **What the last character may change** about the next one. -/
inductive Pending where
  | nothing
  /-- A backslash covers the next character. -/
  | escape
  /-- A slash in code, a star in a block comment or a dollar sign in a template may be the first
  of two characters that delimit something. -/
  | delimiter
  deriving Repr, DecidableEq

/-- **A reader**: what it is reading, what is pending, the depths of the open braces, the segments
that are complete, and the text of the one that is not. -/
structure Reader where
  context : Context
  pending : Pending
  depths : Depths
  complete : List Segment
  text : List Char
  deriving Repr, DecidableEq

namespace Reader

/-- A reader in front of a script. -/
def start : Reader := ⟨.code, .nothing, [], [], []⟩

/-- The segments, if nothing more is read. -/
def segments (r : Reader) : List Segment :=
  if r.text = [] then r.complete
  else r.complete ++ [⟨decide (r.context = .code), r.text⟩]

/-- A character that belongs to the segment. -/
def push (r : Reader) (c : Char) (pending : Pending) : Reader :=
  { r with pending := pending, text := r.text ++ [c] }

/-- The end of a segment, and the start of the next one. -/
def turn (r : Reader) (context : Context) (text : List Char) : Reader :=
  { r with context := context, pending := .nothing, complete := r.segments, text := text }

/-- The last character is taken back. -/
def takeBack (r : Reader) : Reader :=
  { r with text := r.text.dropLast }

/-- **One more character in code.** -/
def codeStep (r : Reader) (c : Char) : Reader :=
  if r.pending = .delimiter ∧ c = '/' then r.takeBack.turn .line ['/', '/']
  else if r.pending = .delimiter ∧ c = '*' then r.takeBack.turn .block ['/', '*']
  else if c = '\x27' ∨ c = '\x22' then r.turn (.string c) [c]
  else if c = '\x60' then r.turn .template [c]
  else if c = '\x7d' ∧ r.depths.head? = some 0 then
    { r.turn .template [c] with depths := r.depths.tail }
  else
    { r.push c (if c = '/' then .delimiter else .nothing) with depths := r.depths.afterCode c }

/-- **One more character.** -/
def step (r : Reader) (c : Char) : Reader :=
  match r.context with
  | .code => r.codeStep c
  | .string quote =>
    if r.pending = .escape then r.push c .nothing
    else if c = '\\' then r.push c .escape
    else if c = quote then (r.push c .nothing).turn .code []
    else if c = '\n' then (r.turn .code []).codeStep c
    else r.push c .nothing
  | .line => if c = '\n' then (r.turn .code []).codeStep c else r.push c .nothing
  | .block =>
    if r.pending = .delimiter ∧ c = '/' then (r.push c .nothing).turn .code []
    else r.push c (if c = '*' then .delimiter else .nothing)
  | .template =>
    if r.pending = .escape then r.push c .nothing
    else if c = '\\' then r.push c .escape
    else if r.pending = .delimiter ∧ c = '\x7b' then
      { (r.push c .nothing).turn .code [] with depths := 0 :: r.depths }
    else if c = '\x60' then (r.push c .nothing).turn .code []
    else r.push c (if c = '$' then .delimiter else .nothing)

/-- **The segments after a text** has been read. -/
def finish (r : Reader) (s : List Char) : List Segment :=
  (s.foldl step r).segments

@[simp] theorem finish_nil (r : Reader) : r.finish [] = r.segments := rfl

@[simp] theorem finish_cons (r : Reader) (c : Char) (s : List Char) :
    r.finish (c :: s) = (r.step c).finish s := rfl

/-! ### One stretch of inert text -/

section Stretches

variable {ds : Depths} {done : List Segment} {text : List Char}

/-- A segment of inert text is complete. -/
theorem segments_inert {k : Context} {p : Pending} (hk : k ≠ .code) (htext : text ≠ []) :
    segments ⟨k, p, ds, done, text⟩ = done ++ [⟨false, text⟩] := by
  rw [segments, if_neg htext, decide_eq_false hk]

/-- Code goes on behind a segment of inert text. -/
theorem turn_code {k : Context} {p : Pending} (hk : k ≠ .code) (htext : text ≠ []) :
    turn ⟨k, p, ds, done, text⟩ .code [] = ⟨.code, .nothing, ds, done ++ [⟨false, text⟩], []⟩ := by
  rw [turn, segments_inert hk htext]

/-- **A string literal** is read up to its end. -/
theorem finish_string (quote : Char) (s : List Char) (htext : text ≠ []) :
    finish ⟨.string quote, .nothing, ds, done, text⟩ s =
      finish ⟨.code, .nothing, ds, done ++ [⟨false, text ++ s.take (stringLength quote s)⟩], []⟩
        (s.drop (stringLength quote s)) := by
  have hstring : Context.string quote ≠ .code := by simp
  induction s using stringLength.induct quote generalizing text with
  | case1 => simp [stringLength, segments, htext]
  | case2 => simp [stringLength, step, push, segments]
  | case3 x cs ih =>
    have hcovered := @ih (text ++ ['\\', x]) (by simp)
    simpa [stringLength, step, push] using hcovered
  | case4 cs hend hcover =>
    have hq := ne_backslash hend hcover
    rw [stringLength_cons hq, if_pos rfl]
    simp [step, push, hq, turn_code hstring]
  | case5 cs _ _ hquote =>
    -- The literal was not closed, and the line feed is the first character of the code behind it.
    rw [stringLength_cons (by decide), if_neg hquote, if_pos rfl]
    simp [step, hquote, turn_code hstring htext]
  | case6 c cs hend hcover hquote hline ih =>
    have hc := ne_backslash hend hcover
    have hnext := @ih (text ++ [c]) (by simp)
    rw [stringLength_cons hc, if_neg hquote, if_neg hline]
    simpa [step, push, hc, hquote, hline] using hnext

/-- **A line comment** is read up to the end of the line. -/
theorem finish_line (s : List Char) (htext : text ≠ []) :
    finish ⟨.line, .nothing, ds, done, text⟩ s =
      finish ⟨.code, .nothing, ds, done ++ [⟨false, text ++ s.take (lineLength s)⟩], []⟩
        (s.drop (lineLength s)) := by
  induction s generalizing text with
  | nil => simp [lineLength, segments, htext]
  | cons c cs ih =>
    by_cases hline : c = '\n'
    · simp [lineLength, step, hline, turn_code, htext]
    · have hnext := @ih (text ++ [c]) (by simp)
      simpa [lineLength, step, push, hline] using hnext

/-- A star is forgotten unless a slash follows it. -/
theorem finish_block_star (s : List Char) (hs : ∀ rest, s ≠ '/' :: rest) :
    finish ⟨.block, .delimiter, ds, done, text⟩ s =
      finish ⟨.block, .nothing, ds, done, text⟩ s := by
  cases s with
  | nil => rfl
  | cons c cs =>
    have hc : c ≠ '/' := fun hc => hs cs (hc ▸ rfl)
    simp [step, push, hc]

/-- **A block comment** is read up to its closing mark. -/
theorem finish_block (s : List Char) (htext : text ≠ []) :
    finish ⟨.block, .nothing, ds, done, text⟩ s =
      finish ⟨.code, .nothing, ds, done ++ [⟨false, text ++ s.take (blockLength s)⟩], []⟩
        (s.drop (blockLength s)) := by
  induction s using blockLength.induct generalizing text with
  | case1 => simp [blockLength, segments, htext]
  | case2 cs => simp [blockLength, step, push, turn_code]
  | case3 c cs hopen ih =>
    have hnext := @ih (text ++ [c]) (by simp)
    rw [blockLength.eq_3 c cs hopen]
    by_cases hstar : c = '*'
    · have hforget := @finish_block_star ds done (text ++ ['*']) cs fun rest => hopen rest hstar
      subst hstar
      simpa [step, push, hforget] using hnext
    · simpa [step, push, hstar] using hnext

/-- A dollar sign is forgotten unless a brace follows it. -/
theorem finish_template_dollar (s : List Char) (hs : ∀ rest, s ≠ '\x7b' :: rest) :
    finish ⟨.template, .delimiter, ds, done, text⟩ s =
      finish ⟨.template, .nothing, ds, done, text⟩ s := by
  cases s with
  | nil => rfl
  | cons c cs =>
    have hc : c ≠ '\x7b' := fun hc => hs cs (hc ▸ rfl)
    simp [step, push, turn, segments, hc]

/-- **A stretch of template text** is read up to the backtick that closes it, or to the brace that
opens a substitution. -/
theorem finish_template (s : List Char) (htext : text ≠ []) :
    finish ⟨.template, .nothing, ds, done, text⟩ s =
      finish ⟨.code, .nothing, ds.afterTemplate (templateLength s).2,
          done ++ [⟨false, text ++ s.take (templateLength s).1⟩], []⟩
        (s.drop (templateLength s).1) := by
  induction s using templateLength.induct generalizing text with
  | case1 => simp [templateLength, Depths.afterTemplate, segments, htext]
  | case2 => simp [templateLength, Depths.afterTemplate, step, push, segments]
  | case3 x cs ih =>
    have hcovered := @ih (text ++ ['\\', x]) (by simp)
    simpa [templateLength, step, push] using hcovered
  | case4 cs => simp [templateLength, Depths.afterTemplate, step, push, turn_code]
  | case5 cs => simp [templateLength, Depths.afterTemplate, step, push, turn_code]
  | case6 c cs hend hcover hopen hclose ih =>
    have hc := ne_backslash hend hcover
    have hnext := @ih (text ++ [c]) (by simp)
    rw [templateLength_cons hc hopen, if_neg hclose]
    by_cases hdollar : c = '$'
    · have hforget := @finish_template_dollar ds done (text ++ ['$']) cs
        fun rest => hopen rest hdollar
      subst hdollar
      simpa [step, push, hforget] using hnext
    · simpa [step, push, hc, hclose, hdollar] using hnext

end Stretches

/-! ### Code -/

section Code

variable {ds : Depths} {done : List Segment} {text : List Char}

/-- The segments after code are those before it, and the code if there is any. -/
theorem segments_code {p : Pending} :
    segments ⟨.code, p, ds, done, text⟩ = done ++ ofLexemes (codes text) := by
  rw [segments, ofLexemes_codes]
  split <;> simp

/-- A slash is forgotten unless another one or a star follows it. -/
theorem finish_code_slash (s : List Char) (hline : ∀ rest, s ≠ '/' :: rest)
    (hblock : ∀ rest, s ≠ '*' :: rest) :
    finish ⟨.code, .delimiter, ds, done, text⟩ s =
      finish ⟨.code, .nothing, ds, done, text⟩ s := by
  cases s with
  | nil => rfl
  | cons c cs =>
    have hc : c ≠ '/' := fun hc => hline cs (hc ▸ rfl)
    have hc' : c ≠ '*' := fun hc => hblock cs (hc ▸ rfl)
    simp [step, codeStep, push, turn, segments, hc, hc']

/-- A slash in code is not a brace, and may start a comment. -/
theorem step_slash :
    step ⟨.code, .nothing, ds, done, text⟩ '/' =
      ⟨.code, .delimiter, ds, done, text ++ ['/']⟩ := by
  have hdepth : ds.afterCode '/' = ds := by cases ds <;> rfl
  simp [step, codeStep, push, hdepth]

/-- Behind a slash, another one or a star starts a comment, and the slash belongs to it. -/
theorem step_comment {c : Char} {k : Context} (h : c = '/' ∧ k = .line ∨ c = '*' ∧ k = .block) :
    step ⟨.code, .delimiter, ds, done, text ++ ['/']⟩ c =
      ⟨k, .nothing, ds, done ++ ofLexemes (codes text), ['/', c]⟩ := by
  rcases h with ⟨rfl, rfl⟩ | ⟨rfl, rfl⟩ <;>
    simp [step, codeStep, takeBack, turn, segments_code]

/-- A quote in code starts a string. -/
theorem step_quote {c : Char} {p : Pending} (hc : c = '\x27' ∨ c = '\x22') :
    step ⟨.code, p, ds, done, text⟩ c =
      ⟨.string c, .nothing, ds, done ++ ofLexemes (codes text), [c]⟩ := by
  rcases hc with rfl | rfl <;> simp [step, codeStep, turn, segments_code]

/-- A backtick in code starts a template literal. -/
theorem step_backtick {p : Pending} :
    step ⟨.code, p, ds, done, text⟩ '\x60' =
      ⟨.template, .nothing, ds, done ++ ofLexemes (codes text), ['\x60']⟩ := by
  simp [step, codeStep, turn, segments_code]

/-- The brace that closes a substitution goes back to its template literal. -/
theorem step_closing {p : Pending} :
    step ⟨.code, p, 0 :: ds, done, text⟩ '\x7d' =
      ⟨.template, .nothing, ds, done ++ ofLexemes (codes text), ['\x7d']⟩ := by
  simp [step, codeStep, turn, segments_code]

/-- **A character of code** is put to the code so far. -/
theorem finish_code_cons {c : Char} {cs : List Char} (h : inertFrom? ds c cs = none) :
    finish ⟨.code, .nothing, ds, done, text⟩ (c :: cs) =
      finish ⟨.code, .nothing, ds.afterCode c, done, text ++ [c]⟩ cs := by
  obtain ⟨⟨hapostrophe, hquote, hbacktick⟩, hcomment, hclose⟩ := inertFrom?_eq_none_iff.1 h
  rw [finish_cons]
  by_cases hslash : c = '/'
  · subst hslash
    have hdepth : ds.afterCode '/' = ds := by cases ds <;> rfl
    have hnext := hcomment rfl
    rw [step_slash, hdepth]
    refine finish_code_slash cs ?_ ?_
    · rintro rest rfl
      exact (takesSlash_cons_iff.1 hnext).1 rfl
    · rintro rest rfl
      exact (takesSlash_cons_iff.1 hnext).2 rfl
  · simp [step, codeStep, push, hslash, hapostrophe, hquote, hbacktick, not_and.2 hclose]

/-- **From code on**, the segments are those that the lexemes make up. -/
theorem finish_code (s : List Char) :
    finish ⟨.code, .nothing, ds, done, text⟩ s =
      done ++ ofLexemes (codes text ++ lexemes ds s) := by
  fun_induction lexemes ds s generalizing done text with
  | case1 ds => rw [finish_nil, segments_code, List.append_nil]
  | case2 ds c cs n ds' hinert ih =>
    -- The code so far is complete, and so is the stretch of inert text that starts here.
    have hrest : ∀ u, finish
        ⟨.code, .nothing, ds', (done ++ ofLexemes (codes text)) ++ [⟨false, u⟩], []⟩
        (cs.drop n) = done ++ ofLexemes (codes text ++ .inert u :: lexemes ds' (cs.drop n)) := by
      intro u
      rw [ih, ofLexemes_codes_inert]
      simp [codes]
    rw [← hrest]
    rcases inertFrom?_eq_some_iff.1 hinert with ⟨hc, rfl, rfl⟩ | ⟨rfl, ⟨t, rfl⟩, rfl, rfl⟩ |
      ⟨rfl, ⟨t, rfl, rfl⟩, rfl⟩ | ⟨rfl, rfl, rfl⟩ | ⟨rfl, outer, rfl, rfl, rfl⟩
    · rw [finish_cons, step_quote hc, finish_string _ _ (by simp), List.singleton_append]
    · rw [finish_cons, finish_cons, step_slash, step_comment (.inl ⟨rfl, rfl⟩),
        finish_line _ (by simp)]
      rfl
    · rw [finish_cons, finish_cons, step_slash, step_comment (.inr ⟨rfl, rfl⟩),
        finish_block _ (by simp)]
      rfl
    · rw [finish_cons, step_backtick, finish_template _ (by simp), List.singleton_append]
    · rw [finish_cons, step_closing, finish_template _ (by simp), List.singleton_append]
  | case3 ds c cs hinert ih =>
    rw [finish_code_cons hinert, ih]
    simp [codes]

end Code

end Reader

/-! ### Segments -/

/-- **The segments of a script, read one character at a time.** -/
def readSegments (s : List Char) : List Segment :=
  Reader.start.finish s

theorem readSegments_eq (s : List Char) : readSegments s = segments s := by
  rw [readSegments, Reader.start, Reader.finish_code]
  rfl

/-- **The segments of every text**, terminated or not: they make it up, none is empty, no two
runs of code stand side by side, and reading it one character at a time gives the same ones. -/
theorem segments_automaton (s : List Char) :
    (segments s).flatMap Segment.text = s ∧ (∀ g ∈ segments s, g.text ≠ []) ∧
      (segments s).IsChain Segment.Apart ∧ segments s = readSegments s := by
  have h := segmentation_segments s
  exact ⟨flatten_segments s, h.ne_nil, h.apart, (readSegments_eq s).symm⟩

end DenoPackager.Source

import DenoPackager.Source.Segment
import Mathlib.Data.List.Basic

/-!
# Reading a changed script again

Where a stretch of inert text ends may depend on what follows it: a string literal that was not
closed and a comment to the end of a line both end before a line feed, and every stretch ends
where the script does. Whether a slash is code depends on the character behind it. Nothing else
about the text that follows matters. So when some of the code of a script is changed for other
code, and no line feed, slash or star comes or goes at the start of it, the lexemes of the new
script are those of the old one with the new code in place.

## Main definitions

* `Alike`: two texts that end what stands before them in the same place.
* `Lexed`: lexemes that are what their own text is read as.
* `SelfContained`, `Steady`: lexemes that are read as they are wherever they stand.

## Main results

* `inertFrom?_eq_some_iff`: what starts a stretch of inert text, and how far it goes.
* `inertFrom?_eq_none_iff`: when a character is code.
* `inertFrom?_take`, `inertFrom?_eq_none`: a stretch of inert text, and a character of code, are
  the same before texts that are alike.
* `Lexed.cons`: one lexeme is kept when what follows it is changed for something alike.
-/

namespace DenoPackager.Source

/-- The text of lexemes. -/
def render (ls : List Lexeme) : List Char :=
  ls.flatMap Lexeme.text

/-- A character of code for every character of a text. -/
def codes (text : List Char) : List Lexeme :=
  text.map .code

@[simp] theorem render_nil : render [] = [] := rfl

@[simp] theorem render_cons (l : Lexeme) (ls : List Lexeme) :
    render (l :: ls) = l.text ++ render ls :=
  List.flatMap_cons

@[simp] theorem render_append (ls ls' : List Lexeme) :
    render (ls ++ ls') = render ls ++ render ls' :=
  List.flatMap_append

@[simp] theorem codes_cons (c : Char) (text : List Char) :
    codes (c :: text) = .code c :: codes text := rfl

@[simp] theorem codes_append (text text' : List Char) :
    codes (text ++ text') = codes text ++ codes text' :=
  List.map_append

@[simp] theorem render_codes (text : List Char) : render (codes text) = text := by
  rw [render, codes, List.flatMap_map]
  exact List.flatMap_singleton' text

@[simp] theorem render_lexemes (ds : Depths) (s : List Char) : render (lexemes ds s) = s :=
  flatten_lexemes ds s

/-! ### What may follow a slash -/

/-- A text that a slash can stand in front of. -/
def TakesSlash (s : List Char) : Prop :=
  ∀ c ∈ s.head?, c ≠ '/' ∧ c ≠ '*'

theorem takesSlash_cons_iff {c : Char} {s : List Char} :
    TakesSlash (c :: s) ↔ c ≠ '/' ∧ c ≠ '*' := by
  constructor
  · exact fun h => h c rfl
  · intro h d hd
    rw [List.head?_cons, Option.mem_some_iff] at hd
    exact hd ▸ h

/-! ### Texts that are alike -/

/-- A character that does not end a line, make a comment of a slash before it, or start a
substitution behind a dollar sign. -/
def Neutral (c : Char) : Prop :=
  c ≠ '\n' ∧ c ≠ '/' ∧ c ≠ '*' ∧ c ≠ '\x7b'

instance (c : Char) : Decidable (Neutral c) :=
  inferInstanceAs (Decidable (_ ∧ _))

/-- **Texts that are alike** as what follows inert text or a slash: they start with the same
character, or each with a neutral one, or both are empty. -/
def Alike (s s' : List Char) : Prop :=
  s.head? = s'.head? ∨
    ∃ c c', s.head? = some c ∧ s'.head? = some c' ∧ Neutral c ∧ Neutral c'

section Alike

variable {s s' : List Char} {c : Char}

/-- They stay alike behind the same text. -/
theorem Alike.append_left (h : Alike s s') (t : List Char) : Alike (t ++ s) (t ++ s') := by
  cases t with
  | nil => exact h
  | cons c t => exact .inl rfl

/-- They are empty together. -/
theorem Alike.eq_nil_iff (h : Alike s s') : s = [] ↔ s' = [] := by
  rw [← List.head?_eq_none_iff, ← List.head?_eq_none_iff]
  rcases h with h | ⟨c, c', hc, hc', -, -⟩
  · rw [h]
  · rw [hc, hc']
    exact iff_of_false (by simp) (by simp)

/-- They start with a character that is not neutral together. -/
theorem Alike.head?_iff (h : Alike s s') (hc : ¬Neutral c) :
    s.head? = some c ↔ s'.head? = some c := by
  rcases h with h | ⟨d, d', hd, hd', hn, hn'⟩
  · rw [h]
  · rw [hd, hd', Option.some.injEq, Option.some.injEq]
    exact iff_of_false (fun heq => hc (heq ▸ hn)) (fun heq => hc (heq ▸ hn'))

/-- A line feed stays the first character. -/
theorem Alike.lineFeed (h : Alike ('\n' :: s) s') : ∃ t, s' = '\n' :: t := by
  refine List.head?_eq_some_iff.1 ((h.head?_iff (c := '\n') (by decide)).1 rfl)

/-- A text is alike to itself with another end that is alike to its own. -/
theorem Alike.take_append {n : Nat} (h : Alike (s.drop n) s') : Alike s (s.take n ++ s') := by
  cases n with
  | zero => exact h
  | succ n =>
    cases s with
    | nil =>
      obtain rfl : s' = [] := h.eq_nil_iff.1 rfl
      exact .inl rfl
    | cons c s => exact .inl rfl

/-- What does not start with a character that is not neutral does not with another end. -/
theorem Alike.ne_take_append {n : Nat} (h : Alike (s.drop n) s') (hc : ¬Neutral c)
    (hs : ∀ t, s ≠ c :: t) (t : List Char) : s.take n ++ s' ≠ c :: t := by
  intro heq
  have hhead := (h.take_append.head?_iff hc).2 (by rw [heq]; rfl)
  obtain ⟨t', ht'⟩ := List.head?_eq_some_iff.1 hhead
  exact hs t' ht'

/-- A text in front of a text that is alike to what followed it there is still the same
stretch. -/
theorem Alike.take_drop {n : Nat} (h : Alike (s.drop n) s') :
    (s.take n ++ s').take n = s.take n ∧ (s.take n ++ s').drop n = s' := by
  rcases Nat.le_total n s.length with hn | hn
  · have hlen : (s.take n).length = n := List.length_take_of_le hn
    exact ⟨List.take_left' hlen, List.drop_left' hlen⟩
  · obtain rfl : s' = [] := h.eq_nil_iff.1 (List.drop_of_length_le hn)
    rw [List.append_nil, List.take_take, Nat.min_self, List.drop_take, Nat.sub_self]
    exact ⟨rfl, rfl⟩

/-- A slash can stand in front of both or of neither. -/
theorem Alike.takesSlash (h : Alike s s') (hs : TakesSlash s) : TakesSlash s' := by
  intro c hc
  by_contra hcomment
  have hneutral : ¬Neutral c := fun hn => hcomment ⟨hn.2.1, hn.2.2.1⟩
  exact hcomment (hs c ((h.head?_iff hneutral).2 hc))

end Alike

/-! ### Stretches of inert text before texts that are alike -/

section Stretches

variable {c : Char} {cs rest : List Char}

/-- A character that covers nothing, whatever follows it, is no backslash. -/
theorem ne_backslash (hend : c = '\\' → cs = [] → False)
    (hcover : ∀ (x : Char) (cs' : List Char), c = '\\' → cs = x :: cs' → False) : c ≠ '\\' := by
  intro hc
  cases cs with
  | nil => exact hend hc rfl
  | cons x cs => exact hcover x cs hc rfl

theorem stringLength_cons {quote : Char} (h : c ≠ '\\') :
    stringLength quote (c :: cs) =
      if c = quote then 1 else if c = '\n' then 0 else stringLength quote cs + 1 :=
  stringLength.eq_4 quote c cs (fun hc _ => h hc) (fun _ _ hc _ => h hc)

/-- A string literal takes the same text. -/
theorem stringLength_take {quote : Char} (h : Alike (cs.drop (stringLength quote cs)) rest) :
    stringLength quote (cs.take (stringLength quote cs) ++ rest) = stringLength quote cs := by
  induction cs using stringLength.induct quote with
  | case1 => rw [h.eq_nil_iff.1 rfl]; rfl
  | case2 => rw [h.eq_nil_iff.1 rfl]; rfl
  | case3 x cs ih =>
    rw [stringLength] at h ⊢
    rw [List.take_succ_cons, List.take_succ_cons, List.cons_append, List.cons_append,
      stringLength, ih h]
  | case4 cs hend hcover =>
    rw [stringLength_cons (ne_backslash hend hcover), if_pos rfl, List.take_succ_cons,
      List.cons_append, stringLength_cons (ne_backslash hend hcover), if_pos rfl]
  | case5 cs _ _ hquote =>
    -- The literal was not closed, and the line feed it ended before is still there.
    rw [stringLength_cons (by decide), if_neg hquote, if_pos rfl] at h ⊢
    obtain ⟨t, rfl⟩ := Alike.lineFeed h
    rw [List.take_zero, List.nil_append, stringLength_cons (by decide), if_neg hquote, if_pos rfl]
  | case6 c cs hend hcover hquote hline ih =>
    have hc := ne_backslash hend hcover
    rw [stringLength_cons hc, if_neg hquote, if_neg hline] at h ⊢
    rw [List.take_succ_cons, List.cons_append, stringLength_cons hc, if_neg hquote,
      if_neg hline, ih h]

/-- The rest of a line is the same text. -/
theorem lineLength_take (h : Alike (cs.drop (lineLength cs)) rest) :
    lineLength (cs.take (lineLength cs) ++ rest) = lineLength cs := by
  induction cs with
  | nil => rw [h.eq_nil_iff.1 rfl]; rfl
  | cons c cs ih =>
    by_cases hline : c = '\n'
    · subst hline
      rw [lineLength, if_pos rfl] at h ⊢
      obtain ⟨t, rfl⟩ := Alike.lineFeed h
      rfl
    · rw [lineLength, if_neg hline] at h ⊢
      rw [List.take_succ_cons, List.cons_append, lineLength, if_neg hline, ih h]

/-- A block comment takes the same text. -/
theorem blockLength_take (h : Alike (cs.drop (blockLength cs)) rest) :
    blockLength (cs.take (blockLength cs) ++ rest) = blockLength cs := by
  induction cs using blockLength.induct with
  | case1 => rw [h.eq_nil_iff.1 rfl]; rfl
  | case2 cs => rfl
  | case3 c cs hopen ih =>
    rw [blockLength.eq_3 c cs hopen] at h ⊢
    have htail : Alike (cs.drop (blockLength cs)) rest := h
    have hopen' : ∀ tail, c = '*' → cs.take (blockLength cs) ++ rest = '/' :: tail → False :=
      fun tail hc => htail.ne_take_append (by decide) (fun t => hopen t hc) tail
    rw [List.take_succ_cons, List.cons_append, blockLength.eq_3 c _ hopen', ih h]

theorem templateLength_cons (h : c ≠ '\\')
    (hopen : ∀ tail, c = '$' → cs = '\x7b' :: tail → False) :
    templateLength (c :: cs) =
      if c = '\x60' then (1, false) else ((templateLength cs).1 + 1, (templateLength cs).2) :=
  templateLength.eq_5 c cs (fun hc _ => h hc) (fun _ _ hc _ => h hc) hopen

/-- A stretch of template text is the same, and ends in the same way. -/
theorem templateLength_take (h : Alike (cs.drop (templateLength cs).1) rest) :
    templateLength (cs.take (templateLength cs).1 ++ rest) = templateLength cs := by
  induction cs using templateLength.induct with
  | case1 => rw [h.eq_nil_iff.1 rfl]; rfl
  | case2 => rw [h.eq_nil_iff.1 rfl]; rfl
  | case3 x cs ih =>
    rw [templateLength] at h ⊢
    rw [List.take_succ_cons, List.take_succ_cons, List.cons_append, List.cons_append,
      templateLength, ih h]
  | case4 cs => rfl
  | case5 cs => rfl
  | case6 c cs hend hcover hopen hclose ih =>
    have hc := ne_backslash hend hcover
    rw [templateLength_cons hc hopen, if_neg hclose] at h ⊢
    have htail : Alike (cs.drop (templateLength cs).1) rest := h
    have hopen' : ∀ tail, c = '$' →
        cs.take (templateLength cs).1 ++ rest = '\x7b' :: tail → False :=
      fun tail hdollar => htail.ne_take_append (by decide) (fun t => hopen t hdollar) tail
    rw [List.take_succ_cons, List.cons_append, templateLength_cons hc hopen', if_neg hclose, ih h]

/-- **What starts a stretch of inert text**: a quote, two characters that start a comment, a
backtick, or the brace that closes a substitution. -/
theorem inertFrom?_eq_some_iff {ds ds' : Depths} {n : Nat} :
    inertFrom? ds c cs = some (n, ds') ↔
      (c = '\x27' ∨ c = '\x22') ∧ n = stringLength c cs ∧ ds' = ds ∨
      c = '/' ∧ (∃ t, cs = '/' :: t) ∧ n = lineLength cs ∧ ds' = ds ∨
      c = '/' ∧ (∃ t, cs = '*' :: t ∧ n = blockLength t + 1) ∧ ds' = ds ∨
      c = '\x60' ∧ n = (templateLength cs).1 ∧ ds' = ds.afterTemplate (templateLength cs).2 ∨
      c = '\x7d' ∧ ∃ outer, ds = 0 :: outer ∧ n = (templateLength cs).1 ∧
        ds' = Depths.afterTemplate (templateLength cs).2 outer := by
  unfold inertFrom?
  by_cases hquote : c = '\x27' ∨ c = '\x22'
  · rw [if_pos hquote]
    rcases hquote with rfl | rfl <;> simp [eq_comm]
  rw [if_neg hquote]
  by_cases hslash : c = '/'
  · subst hslash
    rw [if_pos rfl]
    cases cs with
    | nil => simp
    | cons d cs =>
      by_cases hline : d = '/'
      · subst hline
        simp [eq_comm]
      by_cases hblock : d = '*'
      · subst hblock
        simp [eq_comm]
      · simp [hline, hblock]
  rw [if_neg hslash]
  by_cases htemplate : c = '\x60'
  · subst htemplate
    simp [eq_comm]
  rw [if_neg htemplate]
  by_cases hclose : c = '\x7d'
  · subst hclose
    rw [if_pos rfl]
    cases ds with
    | nil => simp
    | cons d outer => cases d <;> simp [eq_comm]
  · simp [hquote, hslash, htemplate, hclose]

/-- **When a character is code.** -/
theorem inertFrom?_eq_none_iff {ds : Depths} :
    inertFrom? ds c cs = none ↔ (c ≠ '\x27' ∧ c ≠ '\x22' ∧ c ≠ '\x60') ∧
      (c = '/' → TakesSlash cs) ∧ (c = '\x7d' → ds.head? ≠ some 0) := by
  rw [Option.eq_none_iff_forall_ne_some]
  constructor
  · intro h
    refine ⟨⟨?_, ?_, ?_⟩, ?_, ?_⟩
    · exact fun hc => h _ (inertFrom?_eq_some_iff.2 (.inl ⟨.inl hc, rfl, rfl⟩))
    · exact fun hc => h _ (inertFrom?_eq_some_iff.2 (.inl ⟨.inr hc, rfl, rfl⟩))
    · exact fun hc => h _ (inertFrom?_eq_some_iff.2 (.inr (.inr (.inr (.inl ⟨hc, rfl, rfl⟩)))))
    · intro hc d hd
      obtain ⟨t, rfl⟩ := List.head?_eq_some_iff.1 hd
      constructor
      · rintro rfl
        exact h _ (inertFrom?_eq_some_iff.2 (.inr (.inl ⟨hc, ⟨t, rfl⟩, rfl, rfl⟩)))
      · rintro rfl
        exact h _ (inertFrom?_eq_some_iff.2 (.inr (.inr (.inl ⟨hc, ⟨t, rfl, rfl⟩, rfl⟩))))
    · intro hc hds
      obtain ⟨outer, rfl⟩ := List.head?_eq_some_iff.1 hds
      exact h _ (inertFrom?_eq_some_iff.2 (.inr (.inr (.inr (.inr ⟨hc, outer, rfl, rfl, rfl⟩)))))
  · rintro ⟨hquotes, hslash, hclose⟩ ⟨n, ds'⟩ hsome
    rcases inertFrom?_eq_some_iff.1 hsome with ⟨hc, -⟩ | ⟨hc, ⟨t, rfl⟩, -⟩ | ⟨hc, ⟨t, rfl, -⟩, -⟩ |
      ⟨hc, -⟩ | ⟨hc, outer, rfl, -⟩
    · exact hc.elim hquotes.1 hquotes.2.1
    · exact (hslash hc '/' rfl).1 rfl
    · exact (hslash hc '*' rfl).2 rfl
    · exact hquotes.2.2 hc
    · exact hclose hc rfl

/-- **A stretch of inert text is the same** before a text that is alike to what followed it. -/
theorem inertFrom?_take {ds ds' : Depths} {n : Nat} (h : inertFrom? ds c cs = some (n, ds'))
    (ha : Alike (cs.drop n) rest) : inertFrom? ds c (cs.take n ++ rest) = some (n, ds') := by
  rw [inertFrom?_eq_some_iff] at h ⊢
  rcases h with ⟨hc, rfl, rfl⟩ | ⟨rfl, ⟨t, rfl⟩, rfl, rfl⟩ | ⟨rfl, ⟨t, rfl, rfl⟩, rfl⟩ |
    ⟨rfl, rfl, rfl⟩ | ⟨rfl, outer, rfl, rfl, rfl⟩
  · exact .inl ⟨hc, (stringLength_take ha).symm, rfl⟩
  · exact .inr (.inl ⟨rfl, ⟨_, rfl⟩, (lineLength_take ha).symm, rfl⟩)
  · exact .inr (.inr (.inl ⟨rfl, ⟨_, rfl, congrArg (· + 1) (blockLength_take ha).symm⟩, rfl⟩))
  · rw [templateLength_take ha]
    exact .inr (.inr (.inr (.inl ⟨rfl, rfl, rfl⟩)))
  · rw [templateLength_take ha]
    exact .inr (.inr (.inr (.inr ⟨rfl, outer, rfl, rfl, rfl⟩)))

/-- **A character of code stays one** before a text that is alike to what followed it. -/
theorem inertFrom?_eq_none {ds : Depths} (h : inertFrom? ds c cs = none) (ha : Alike cs rest) :
    inertFrom? ds c rest = none := by
  rw [inertFrom?_eq_none_iff] at h ⊢
  exact ⟨h.1, fun hc => ha.takesSlash (h.2.1 hc), h.2.2⟩

end Stretches

/-! ### Lexemes that are read as they are -/

/-- Whether lexemes are what their own text is read as. -/
def Lexed (ds : Depths) (ls : List Lexeme) : Prop :=
  lexemes ds (render ls) = ls

theorem lexed_lexemes (ds : Depths) (s : List Char) : Lexed ds (lexemes ds s) := by
  rw [Lexed, render_lexemes]

/-- **One lexeme after the other.** What follows a lexeme is read on its own, and may be changed
for anything that is alike. -/
theorem Lexed.cons {ds : Depths} {l : Lexeme} {ls : List Lexeme} (h : Lexed ds (l :: ls)) :
    ∃ ds', Lexed ds' ls ∧
      ∀ ls', Lexed ds' ls' → Alike (render ls) (render ls') → Lexed ds (l :: ls') := by
  rw [Lexed] at h
  cases hs : render (l :: ls) with
  | nil =>
    rw [hs, lexemes] at h
    exact absurd h (by simp)
  | cons c cs =>
    rw [hs, lexemes] at h
    cases hinert : inertFrom? ds c cs with
    | none =>
      rw [hinert] at h
      obtain ⟨rfl, hls⟩ := List.cons.inj h
      obtain rfl : render ls = cs := by rw [← hls, render_lexemes]
      refine ⟨ds.afterCode c, hls, fun ls' hls' halike => ?_⟩
      rw [Lexed, render_cons, Lexeme.text, List.singleton_append, lexemes,
        inertFrom?_eq_none hinert halike]
      exact congrArg _ hls'
    | some stretch =>
      obtain ⟨n, ds'⟩ := stretch
      rw [hinert] at h
      obtain ⟨rfl, hls⟩ := List.cons.inj h
      have hrest : render ls = cs.drop n := by rw [← hls, render_lexemes]
      refine ⟨ds', by rw [Lexed, hrest, hls], fun ls' hls' halike => ?_⟩
      rw [hrest] at halike
      obtain ⟨htake, hdrop⟩ := halike.take_drop
      rw [Lexed, render_cons, Lexeme.text, List.cons_append, lexemes,
        inertFrom?_take hinert halike]
      simp only [htake, hdrop]
      exact congrArg _ hls'

/-! ### Lexemes that are read as they are wherever they stand -/

/-- **Self-contained lexemes** are read as they are in any script, and leave the depths as they
were. -/
def SelfContained (xs : List Lexeme) : Prop :=
  ∀ ds rest, lexemes ds (render xs ++ rest) = xs ++ lexemes ds rest

theorem SelfContained.append {xs ys : List Lexeme} (hx : SelfContained xs)
    (hy : SelfContained ys) : SelfContained (xs ++ ys) := by
  intro ds rest
  rw [render_append, List.append_assoc, hx, hy, List.append_assoc]

/-- A character that is code wherever it stands, and that leaves the depths as they are. -/
def isPlainCode (c : Char) : Bool :=
  !(c = '\x27' || c = '\x22' || c = '/' || c = '\x60' || c = '\x7b' || c = '\x7d')

/-- Plain code is read character by character. -/
theorem selfContained_codes {text : List Char} (h : text.all isPlainCode = true) :
    SelfContained (codes text) := by
  intro ds rest
  rw [render_codes]
  induction text with
  | nil => rfl
  | cons c text ih =>
    obtain ⟨hc, htext⟩ := Bool.and_eq_true_iff.1 h
    simp only [isPlainCode, Bool.not_eq_true', Bool.or_eq_false_iff, decide_eq_false_iff_not] at hc
    have hnone : inertFrom? ds c (text ++ rest) = none := by
      rw [Option.eq_none_iff_forall_ne_some]
      rintro ⟨n, ds'⟩ hsome
      simp [inertFrom?_eq_some_iff, hc] at hsome
    have hdepth : ds.afterCode c = ds := by
      cases ds with
      | nil => rfl
      | cons d ds => rw [Depths.afterCode, if_neg (by simp [hc]), if_neg (by simp [hc])]
    rw [List.cons_append, lexemes, hnone]
    simp only [hdepth, ih htext, codes_cons, List.cons_append]

/-- A pair of braces is counted up and down again. -/
theorem SelfContained.braces {xs : List Lexeme} (h : SelfContained xs) :
    SelfContained (.code '\x7b' :: (xs ++ [.code '\x7d'])) := by
  intro ds rest
  have hopen : inertFrom? ds '\x7b' (render xs ++ '\x7d' :: rest) = none := by
    rw [Option.eq_none_iff_forall_ne_some]
    rintro ⟨n, ds'⟩ hsome
    simp [inertFrom?_eq_some_iff] at hsome
  have hclose : lexemes (ds.afterCode '\x7b') ('\x7d' :: rest) =
      .code '\x7d' :: lexemes ds rest := by
    cases ds with
    | nil => rw [lexemes]; rfl
    | cons d ds => rw [lexemes]; rfl
  simp only [render_cons, render_append, Lexeme.text, render_nil, List.append_nil,
    List.append_assoc, List.nil_append, List.cons_append]
  rw [lexemes, hopen]
  simp only [h (ds.afterCode '\x7b'), hclose]

/-- **Steady code** is self-contained. It is not empty, and starts with a neutral character. -/
structure Steady (ls : List Lexeme) : Prop where
  starts : ∃ c, (render ls).head? = some c ∧ Neutral c
  selfContained : SelfContained ls

/-- Two steady stretches are alike, whatever follows them. -/
theorem Steady.alike {xs ys : List Lexeme} (hx : Steady xs) (hy : Steady ys)
    (rest rest' : List Char) : Alike (render xs ++ rest) (render ys ++ rest') := by
  obtain ⟨c, hc, hn⟩ := hx.starts
  obtain ⟨c', hc', hn'⟩ := hy.starts
  refine .inr ⟨c, c', ?_, ?_, hn, hn'⟩
  · rw [List.head?_append, hc, Option.some_or]
  · rw [List.head?_append, hc', Option.some_or]

end DenoPackager.Source

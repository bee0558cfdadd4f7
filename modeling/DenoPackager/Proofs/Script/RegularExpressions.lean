import DenoPackager.Proofs.Basics.Braces
import DenoPackager.Proofs.Script.Automaton
import DenoPackager.Proofs.Script.Grammar
import DenoPackager.Source.ImportMeta

/-!
# Regular expressions in a script

A regular expression literal is meant to be code, as if a name stood in its place. A script is read
without knowing where one starts, though: its characters are read as code, one by one. So it is read
as meant only if none of them means something else in code. A quote or a backtick starts a literal,
two slashes or a slash and a star start a comment, even in a class or where the first slash is
covered, and a brace may close the substitution that the regular expression stands in. And what
follows is read as meant only if the braces are as many in number on both sides, or none is counted.

This is an exact condition, on the text of the regular expression and on the depths in front of it:
reading goes on character by character as long as it holds of what is left, and stops at the first
character that breaks it.

## Main definitions

* `RegularExpression`: a literal, piece by piece.
* `codeFlags`: whether each character of a script is code.
* `ReadAsName`: what it is for a literal to be read as if a name stood in its place.
* `EndsInCode`, `MayFollow`: what may stand in front of a literal, and behind it.
* `Harmless`: the condition on its text.

## Main results

* `EndsInCode.codeFlags_append`: what is read behind it.
* `allCode_iff`: when all characters of a text are code.
* `RegularExpression.readAsName_of_plain`: a regular expression that is read as meant everywhere.
* `readAsName_regularExpression`: when a regular expression is read as meant.
* `not_readAsName_quote`: one that is not.
-/

namespace DenoPackager.Source

/-! ### Literals -/

/-- **A piece of a regular expression**: a character by itself, one that a backslash covers, or a
class of characters between brackets. -/
inductive RegularPiece where
  | plain (c : Char)
  | covered (c : Char)
  | class (body : List Glyph)
  deriving Repr, DecidableEq

/-- The characters of a piece. -/
def RegularPiece.text : RegularPiece → List Char
  | .plain c => [c]
  | .covered c => ['\\', c]
  | .class body => '[' :: (spell body ++ [']'])

/-- What a piece may hold. A slash stands by itself in a class only. -/
def RegularPiece.Proper : RegularPiece → Prop
  | .plain c => c ≠ '\n' ∧ c ≠ '/' ∧ c ≠ '\\' ∧ c ≠ '['
  | .covered _ => True
  | .class body => ∀ c, .plain c ∈ body → c ≠ ']' ∧ c ≠ '\\' ∧ c ≠ '\n'

/-- **A regular expression literal.** Its first slash does not start a comment, so it is not
empty. -/
structure RegularExpression where
  pieces : List RegularPiece
  proper : ∀ p ∈ pieces, p.Proper
  opens : TakesSlash (pieces.flatMap RegularPiece.text ++ ['/'])

/-- What stands between the slashes. -/
def RegularExpression.body (r : RegularExpression) : List Char :=
  r.pieces.flatMap RegularPiece.text

/-- How a regular expression is written. -/
def RegularExpression.text (r : RegularExpression) : List Char :=
  '/' :: (r.body ++ ['/'])

/-! ### Characters that are code -/

/-- Whether each character of a segment is code. -/
def Segment.flags (g : Segment) : List Bool :=
  List.replicate g.text.length g.isCode

/-- **Whether each character of a script is code.** -/
def codeFlags (s : List Char) : List Bool :=
  (segments s).flatMap Segment.flags

/-- Whether all characters of the text behind `a` are code. -/
def AllCode (a text b : List Char) : Prop :=
  ((codeFlags (a ++ (text ++ b))).drop a.length).take text.length =
    List.replicate text.length true

/-- **A text is read as if a name `x` stood in its place**: it is code, and what is in front of it
and behind it is read as it is around the name. -/
structure ReadAsName (a text b : List Char) (x : Char) : Prop where
  before : (codeFlags (a ++ (text ++ b))).take a.length = (codeFlags (a ++ x :: b)).take a.length
  code : AllCode a text b
  after : (codeFlags (a ++ (text ++ b))).drop (a.length + text.length) =
    (codeFlags (a ++ x :: b)).drop (a.length + 1)

/-- **A text behind which there is code**, with the depths there. No slash of code is directly in
front: it would be a comment that starts there, and no regular expression. -/
structure EndsInCode (a : List Char) (ds : Depths) : Prop where
  context : (a.foldl Reader.step .start).context = .code
  pending : (a.foldl Reader.step .start).pending = .nothing
  depths : (a.foldl Reader.step .start).depths = ds

/-- **A text that may stand behind a literal**: with the literal in front of it, it neither makes a
comment nor goes on with a name. -/
structure MayFollow (b : List Char) : Prop where
  slash : TakesSlash b
  name : ∀ c ∈ b.head?, isIdentifierChar c = false

/-- **A text whose characters all are code**, behind the depths `ds`: it has no quotes, no two
characters that start a comment, and no brace that closes a substitution. -/
structure Harmless (ds : Depths) (text : List Char) : Prop where
  quotes : ∀ c ∈ text, c ≠ '\x27' ∧ c ≠ '\x22' ∧ c ≠ '\x60'
  comments : ¬['/', '/'] <:+: text ∧ ¬['/', '*'] <:+: text
  braces : ∀ d ∈ ds.head?, ∀ p, p <+: text → p.count '\x7d' ≤ d + p.count '\x7b'

/-! ### Flags from lexemes -/

/-- Whether each character of a lexeme is code. -/
def Lexeme.flags : Lexeme → List Bool
  | .code _ => [true]
  | .inert text => List.replicate text.length false

/-- Whether each character of a text is code, for the depths at its start. -/
def flagsFrom (ds : Depths) (s : List Char) : List Bool :=
  (lexemes ds s).flatMap Lexeme.flags

theorem flatMap_flags_consCode (c : Char) (gs : List Segment) :
    (consCode c gs).flatMap Segment.flags = true :: gs.flatMap Segment.flags := by
  match gs with
  | [] => rfl
  | ⟨true, text⟩ :: gs => rfl
  | ⟨false, text⟩ :: gs => rfl

theorem flatMap_flags_ofLexemes (ls : List Lexeme) :
    (ofLexemes ls).flatMap Segment.flags = ls.flatMap Lexeme.flags := by
  induction ls with
  | nil => rfl
  | cons l ls ih =>
    cases l with
    | code c => rw [ofLexemes, flatMap_flags_consCode, ih]; rfl
    | inert text => rw [ofLexemes, List.flatMap_cons, List.flatMap_cons, ih]; rfl

/-- There is one flag for each character. -/
theorem length_codeFlags (s : List Char) : (codeFlags s).length = s.length := by
  have hsegment : ∀ g : Segment, g.flags.length = g.text.length := fun g => List.length_replicate
  have htext := congrArg List.length (flatten_segments s)
  rw [List.length_flatMap] at htext
  rw [codeFlags, List.length_flatMap, ← htext]
  simp only [hsegment]

section Steps

variable {ds : Depths} {c : Char} {s : List Char}

theorem flagsFrom_code (h : inertFrom? ds c s = none) :
    flagsFrom ds (c :: s) = true :: flagsFrom (ds.afterCode c) s := by
  rw [flagsFrom, lexemes, h]
  rfl

theorem flagsFrom_inert (h : inertFrom? ds c s ≠ none) :
    ∃ fs, flagsFrom ds (c :: s) = false :: fs := by
  obtain ⟨⟨n, ds'⟩, hsome⟩ := Option.ne_none_iff_exists'.1 h
  rw [flagsFrom, lexemes, hsome]
  exact ⟨_, rfl⟩

/-- A name is code, and is not counted. -/
theorem flagsFrom_name (hc : isIdentifierChar c = true) :
    flagsFrom ds (c :: s) = true :: flagsFrom ds s := by
  have hne : ∀ d, isIdentifierChar d = false → c ≠ d := by
    rintro d hd rfl
    exact absurd hc (by rw [hd]; decide)
  have hplain : IsPlain c :=
    ⟨hne _ (by decide +kernel), hne _ (by decide +kernel), hne _ (by decide +kernel),
      hne _ (by decide +kernel), hne _ (by decide +kernel)⟩
  have hslash : c ≠ '/' := hne _ (by decide +kernel)
  rw [flagsFrom_code (inertFrom?_plain ds hplain fun h => absurd h hslash),
    afterCode_plain ds hplain]

end Steps

/-! ### What may stand in front -/

/-- **What follows is read on its own**, with the depths that are reached. -/
theorem EndsInCode.codeFlags_append {a : List Char} {ds : Depths} (h : EndsInCode a ds)
    (s : List Char) : codeFlags (a ++ s) = codeFlags a ++ flagsFrom ds s := by
  obtain ⟨hcontext, hpending, hdepths⟩ := h
  have hread : ∀ s, segments (a ++ s) =
      (a.foldl Reader.step .start).complete ++
        ofLexemes (codes (a.foldl Reader.step .start).text ++ lexemes ds s) := by
    intro s
    rw [← readSegments_eq, readSegments, Reader.finish, List.foldl_append, ← Reader.finish,
      ← Reader.finish_code, ← hcontext, ← hpending, ← hdepths]
  have hflags : ∀ s, codeFlags (a ++ s) =
      ((a.foldl Reader.step .start).complete.flatMap Segment.flags ++
        (codes (a.foldl Reader.step .start).text).flatMap Lexeme.flags) ++ flagsFrom ds s := by
    intro s
    rw [codeFlags, hread, List.flatMap_append, flatMap_flags_ofLexemes, List.flatMap_append,
      List.append_assoc, flagsFrom]
  have hnil := hflags []
  rw [List.append_nil, flagsFrom, lexemes, List.flatMap_nil, List.append_nil] at hnil
  rw [hflags, hnil]

/-! ### When all characters are code -/

/-- The depths after characters of code. -/
def Depths.afterCodes (ds : Depths) (text : List Char) : Depths :=
  text.foldl (fun ds c => ds.afterCode c) ds

/-- Two characters side by side, the first of them a slash. -/
theorem slash_infix_cons_iff {c d : Char} {text : List Char} :
    ['/', d] <:+: c :: text ↔ c = '/' ∧ text.head? = some d ∨ ['/', d] <:+: text := by
  rw [List.infix_cons_iff, List.cons_prefix_cons, eq_comm]
  refine or_congr_left (and_congr_right fun _ => ?_)
  cases text with
  | nil => simp
  | cons e text => simp [List.cons_prefix_cons, eq_comm]

/-- One character of a text that closes no brace but its own: only the innermost substitution is
counted. -/
theorem depths_cons_iff {ds : Depths} {c : Char} {text : List Char} :
    (∀ d ∈ ds.head?, ∀ p, p <+: c :: text → p.count '\x7d' ≤ d + p.count '\x7b') ↔
      (c = '\x7d' → ds.head? ≠ some 0) ∧
        ∀ d ∈ (ds.afterCode c).head?, ∀ p, p <+: text →
          p.count '\x7d' ≤ d + p.count '\x7b' := by
  cases ds with
  | nil => simp [Depths.afterCode]
  | cons d outer =>
    have hnext : (Depths.afterCode c (d :: outer)).head? =
        some (if c = '\x7b' then d + 1 else if c = '\x7d' then d - 1 else d) := by
      rw [Depths.afterCode]
      split
      · rfl
      · split <;> rfl
    rw [hnext]
    simp only [List.head?_cons, Option.mem_some_iff, forall_eq', Text.closes_cons_iff, ne_eq,
      Option.some.injEq]

theorem harmless_nil (ds : Depths) : Harmless ds [] := by
  refine ⟨by simp, by simp, fun d _ p hp => ?_⟩
  rw [List.prefix_nil.1 hp]
  exact Nat.zero_le _

/-- **One character of a harmless text.** -/
theorem harmless_cons_iff {ds : Depths} {c : Char} {text : List Char} :
    Harmless ds (c :: text) ↔ ((c ≠ '\x27' ∧ c ≠ '\x22' ∧ c ≠ '\x60') ∧
      (c = '/' → TakesSlash text) ∧ (c = '\x7d' → ds.head? ≠ some 0)) ∧
        Harmless (ds.afterCode c) text := by
  have hslash : (c = '/' → TakesSlash text) ↔
      ¬(c = '/' ∧ text.head? = some '/') ∧ ¬(c = '/' ∧ text.head? = some '*') := by
    cases text with
    | nil => simp [TakesSlash]
    | cons d text =>
      rw [takesSlash_cons_iff, List.head?_cons, Option.some.injEq, Option.some.injEq, imp_and,
        not_and, not_and]
  constructor
  · rintro ⟨hquotes, hcomments, hbraces⟩
    rw [slash_infix_cons_iff, slash_infix_cons_iff, not_or, not_or] at hcomments
    obtain ⟨hc, htext⟩ := List.forall_mem_cons.1 hquotes
    obtain ⟨hclose, hrest⟩ := depths_cons_iff.1 hbraces
    exact ⟨⟨hc, hslash.2 ⟨hcomments.1.1, hcomments.2.1⟩, hclose⟩, htext,
      ⟨hcomments.1.2, hcomments.2.2⟩, hrest⟩
  · rintro ⟨⟨hc, hcomment, hclose⟩, hquotes, hcomments, hbraces⟩
    obtain ⟨hline, hblock⟩ := hslash.1 hcomment
    refine ⟨List.forall_mem_cons.2 ⟨hc, hquotes⟩, ?_, depths_cons_iff.2 ⟨hclose, hbraces⟩⟩
    rw [slash_infix_cons_iff, slash_infix_cons_iff, not_or, not_or]
    exact ⟨⟨hline, hcomments.1⟩, hblock, hcomments.2⟩

section Text

variable {ds : Depths} {text b : List Char}

/-- What a slash may stand in front of does not depend on what is behind that. -/
theorem takesSlash_append_iff (hb : TakesSlash b) : TakesSlash (text ++ b) ↔ TakesSlash text := by
  cases text with
  | nil => exact iff_of_true hb fun c hc => absurd hc (by simp)
  | cons c text => exact Iff.rfl

/-- **A harmless text is code**, and what follows is read with the braces in it counted. -/
theorem Harmless.flagsFrom_append (h : Harmless ds text) (hb : TakesSlash b) :
    flagsFrom ds (text ++ b) =
      List.replicate text.length true ++ flagsFrom (ds.afterCodes text) b := by
  induction text generalizing ds with
  | nil => rfl
  | cons c text ih =>
    obtain ⟨hc, htext⟩ := harmless_cons_iff.1 h
    rw [← takesSlash_append_iff hb, ← inertFrom?_eq_none_iff] at hc
    rw [List.cons_append, flagsFrom_code hc, ih htext]
    rfl

/-- **A text that is code is harmless.** -/
theorem harmless_of_flagsFrom (hb : TakesSlash b)
    (h : (flagsFrom ds (text ++ b)).take text.length = List.replicate text.length true) :
    Harmless ds text := by
  induction text generalizing ds with
  | nil => exact harmless_nil ds
  | cons c text ih =>
    rw [List.cons_append, List.length_cons, List.replicate_succ] at h
    have hc : inertFrom? ds c (text ++ b) = none := by
      by_contra hinert
      obtain ⟨fs, hfs⟩ := flagsFrom_inert hinert
      rw [hfs, List.take_succ_cons] at h
      exact absurd (List.cons.inj h).1 (by decide)
    rw [flagsFrom_code hc, List.take_succ_cons] at h
    rw [inertFrom?_eq_none_iff, takesSlash_append_iff hb] at hc
    exact harmless_cons_iff.2 ⟨hc, ih (List.cons.inj h).2⟩

/-- Outside all substitutions nothing is counted. -/
theorem afterCodes_nil (text : List Char) : Depths.afterCodes [] text = [] := by
  induction text with
  | nil => rfl
  | cons c text ih => exact ih

/-- **The depth behind a harmless text**: the braces in it are counted in the innermost
substitution. -/
theorem Harmless.afterCodes_cons {d : Nat} {outer : Depths} (h : Harmless (d :: outer) text) :
    Depths.afterCodes (d :: outer) text =
      (d + text.count '\x7b' - text.count '\x7d') :: outer := by
  induction text generalizing d with
  | nil => rfl
  | cons c text ih =>
    obtain ⟨⟨-, -, hclose⟩, htext⟩ := harmless_cons_iff.1 h
    by_cases hopen : c = '\x7b'
    · subst hopen
      rw [Depths.afterCode, if_pos rfl] at htext
      have hrest := ih htext
      rw [List.count_cons_self, List.count_cons_of_ne (by decide), ← Nat.add_assoc,
        Nat.add_right_comm]
      exact hrest
    by_cases hc : c = '\x7d'
    · subst hc
      have hd : d ≠ 0 := fun hd => hclose rfl (by rw [hd]; rfl)
      rw [Depths.afterCode, if_neg hopen, if_pos rfl] at htext
      have hrest := ih htext
      have hcount : d - 1 + text.count '\x7b' - text.count '\x7d' =
          d + text.count '\x7b' - (text.count '\x7d' + 1) := by omega
      rw [List.count_cons_self, List.count_cons_of_ne (by decide), ← hcount]
      exact hrest
    · rw [Depths.afterCode, if_neg hopen, if_neg hc] at htext
      have hrest := ih htext
      rw [List.count_cons_of_ne hopen, List.count_cons_of_ne hc, ← hrest, Depths.afterCodes,
        List.foldl_cons, Depths.afterCode, if_neg hopen, if_neg hc]
      rfl

end Text

/-! ### When a text is read as a name would be -/

section Read

variable {a : List Char} {ds : Depths} {text b : List Char} {x : Char}

/-- **When all characters of a text are code.** -/
theorem allCode_iff (ha : EndsInCode a ds) (hb : TakesSlash b) :
    AllCode a text b ↔ Harmless ds text := by
  rw [AllCode, ha.codeFlags_append, List.drop_left' (length_codeFlags a)]
  constructor
  · exact harmless_of_flagsFrom hb
  · intro h
    rw [h.flagsFrom_append hb, List.take_left' List.length_replicate]

/-- **When a text is read as a name would be**: it is harmless, and what follows is read as if its
braces were not there. -/
theorem readAsName_iff (ha : EndsInCode a ds) (hb : TakesSlash b)
    (hx : isIdentifierChar x = true) :
    ReadAsName a text b x ↔
      Harmless ds text ∧ flagsFrom (ds.afterCodes text) b = flagsFrom ds b := by
  have hname : (codeFlags (a ++ x :: b)).drop (a.length + 1) = flagsFrom ds b := by
    rw [ha.codeFlags_append, flagsFrom_name hx, ← length_codeFlags a, ← List.drop_drop,
      List.drop_left]
    rfl
  have hafter : Harmless ds text →
      (codeFlags (a ++ (text ++ b))).drop (a.length + text.length) =
        flagsFrom (ds.afterCodes text) b := by
    intro h
    rw [ha.codeFlags_append, h.flagsFrom_append hb, ← List.drop_drop,
      List.drop_left' (length_codeFlags a), List.drop_left' List.length_replicate]
  constructor
  · rintro ⟨-, hcode, hsame⟩
    have h := (allCode_iff ha hb).1 hcode
    rw [hafter h, hname] at hsame
    exact ⟨h, hsame⟩
  · rintro ⟨h, hsame⟩
    refine ⟨?_, (allCode_iff ha hb).2 h, by rw [hafter h, hname, hsame]⟩
    rw [ha.codeFlags_append, ha.codeFlags_append, List.take_left' (length_codeFlags a),
      List.take_left' (length_codeFlags a)]

end Read

/-! ### Literals that are always read as meant -/

/-- A character that is not counted is harmless unless it starts a comment. -/
theorem Harmless.cons_plain {ds : Depths} {c : Char} {text : List Char} (h : Harmless ds text)
    (hc : IsPlain c) (hslash : c = '/' → TakesSlash text) : Harmless ds (c :: text) := by
  obtain ⟨hapostrophe, hquote, hbacktick, -, hclose⟩ := id hc
  rw [harmless_cons_iff, afterCode_plain ds hc]
  exact ⟨⟨⟨hapostrophe, hquote, hbacktick⟩, hslash, fun h => absurd h hclose⟩, h⟩

/-- Characters that are not counted leave the depths. -/
theorem afterCodes_plain {text : List Char} (ds : Depths) (h : ∀ c ∈ text, IsPlain c) :
    ds.afterCodes text = ds := by
  induction text with
  | nil => rfl
  | cons c text ih =>
    obtain ⟨hc, htext⟩ := List.forall_mem_cons.1 h
    rw [Depths.afterCodes, List.foldl_cons, afterCode_plain ds hc]
    exact ih htext

/-- **A regular expression with no quotes, braces or slashes inside is read as meant**, wherever it
stands and whatever follows. -/
theorem RegularExpression.readAsName_of_plain (r : RegularExpression) {a b : List Char}
    {ds : Depths} {x : Char} (ha : EndsInCode a ds) (hb : TakesSlash b)
    (hx : isIdentifierChar x = true) (hbody : ∀ c ∈ r.body, IsPlain c ∧ c ≠ '/') :
    ReadAsName a r.text b x := by
  have hslash : IsPlain '/' := by unfold IsPlain; decide
  have htext : ∀ c ∈ r.text, IsPlain c := by
    intro c hc
    rw [RegularExpression.text, List.mem_cons, List.mem_append, List.mem_singleton] at hc
    rcases hc with rfl | hc | rfl
    · exact hslash
    · exact (hbody c hc).1
    · exact hslash
  have hclosed : ∀ body : List Char, (∀ c ∈ body, IsPlain c ∧ c ≠ '/') →
      Harmless ds (body ++ ['/']) := by
    intro body hbody
    induction body with
    | nil => exact (harmless_nil ds).cons_plain hslash fun _ c hc => absurd hc (by simp)
    | cons c body ih =>
      obtain ⟨⟨hc, hne⟩, hrest⟩ := List.forall_mem_cons.1 hbody
      exact (ih hrest).cons_plain hc fun h => absurd h hne
  have hharmless : Harmless ds r.text := (hclosed r.body hbody).cons_plain hslash fun _ => r.opens
  exact (readAsName_iff ha hb hx).2 ⟨hharmless, by rw [afterCodes_plain ds htext]⟩

/-! ### Texts that tell depths apart -/

/-- Closing braces are code as long as some are open. -/
theorem flagsFrom_closing (n d : Nat) (outer : Depths) (s : List Char) :
    flagsFrom ((n + d) :: outer) (List.replicate n '\x7d' ++ s) =
      List.replicate n true ++ flagsFrom (d :: outer) s := by
  induction n with
  | zero => rw [Nat.zero_add]; rfl
  | succ n ih =>
    have hcode : inertFrom? ((n + 1 + d) :: outer) '\x7d' (List.replicate n '\x7d' ++ s) = none := by
      rw [Nat.add_right_comm]
      rfl
    have hnext : Depths.afterCode '\x7d' ((n + 1 + d) :: outer) = (n + d) :: outer := by
      rw [Nat.add_right_comm]
      rfl
    rw [List.replicate_succ, List.cons_append, flagsFrom_code hcode, hnext, ih]
    rfl

/-- **Two depths are told apart** by enough closing braces. -/
theorem flagsFrom_ne {d d' : Nat} (h : d < d') (outer : Depths) :
    flagsFrom (d :: outer) (List.replicate d '\x7d' ++ ['\x7d']) ≠
      flagsFrom (d' :: outer) (List.replicate d '\x7d' ++ ['\x7d']) := by
  obtain ⟨k, rfl⟩ := Nat.exists_eq_add_of_lt h
  have hlow := flagsFrom_closing d 0 outer ['\x7d']
  have hhigh := flagsFrom_closing d (k + 1) outer ['\x7d']
  rw [Nat.add_zero] at hlow
  rw [← Nat.add_assoc] at hhigh
  obtain ⟨fs, hfs⟩ := @flagsFrom_inert (0 :: outer) '\x7d' [] (by simp [inertFrom?])
  rw [hlow, hhigh, hfs, flagsFrom_code rfl]
  intro heq
  exact absurd (List.cons.inj (List.append_cancel_left heq)).1 (by decide)

theorem mayFollow_closing (d : Nat) : MayFollow (List.replicate d '\x7d' ++ ['\x7d']) := by
  rw [← List.replicate_succ', List.replicate_succ]
  refine ⟨takesSlash_cons_iff.2 (by decide), fun c hc => ?_⟩
  rw [List.head?_cons, Option.mem_some_iff] at hc
  subst hc
  decide +kernel

/-! ### When a literal is read as meant -/

/-- **When a regular expression is read as meant.** All its characters are code exactly if it is
harmless. It is read as if a name stood in its place, whatever follows, exactly if moreover it
stands in no substitution, or has as many opening braces as closing ones. -/
theorem readAsName_regularExpression {a : List Char} {ds : Depths} (ha : EndsInCode a ds)
    (r : RegularExpression) {x : Char} (hx : isIdentifierChar x = true) :
    (∀ b, MayFollow b → (AllCode a r.text b ↔ Harmless ds r.text)) ∧
      ((∀ b, MayFollow b → ReadAsName a r.text b x) ↔
        Harmless ds r.text ∧ (ds = [] ∨ r.text.count '\x7b' = r.text.count '\x7d')) := by
  refine ⟨fun b hb => allCode_iff ha hb.slash, ?_⟩
  constructor
  · intro h
    have hread : ∀ b, MayFollow b →
        Harmless ds r.text ∧ flagsFrom (ds.afterCodes r.text) b = flagsFrom ds b :=
      fun b hb => (readAsName_iff ha hb.slash hx).1 (h b hb)
    have hharmless := (hread _ (mayFollow_closing 0)).1
    refine ⟨hharmless, ?_⟩
    cases ds with
    | nil => exact .inl rfl
    | cons d outer =>
      right
      -- The depth behind the literal is the one in front of it, since closing braces tell them apart.
      have hsame : ∀ n, flagsFrom ((d + r.text.count '\x7b' - r.text.count '\x7d') :: outer)
          (List.replicate n '\x7d' ++ ['\x7d']) =
            flagsFrom (d :: outer) (List.replicate n '\x7d' ++ ['\x7d']) := by
        intro n
        rw [← hharmless.afterCodes_cons]
        exact (hread _ (mayFollow_closing n)).2
      have hbound := hharmless.braces d rfl r.text List.prefix_rfl
      by_contra hcount
      rcases Nat.lt_or_gt_of_ne hcount with hlt | hgt
      · exact flagsFrom_ne (by omega) outer (hsame _)
      · exact flagsFrom_ne (by omega) outer (hsame _).symm
  · rintro ⟨hharmless, hcount⟩ b hb
    refine (readAsName_iff ha hb.slash hx).2 ⟨hharmless, ?_⟩
    cases ds with
    | nil => rw [afterCodes_nil]
    | cons d outer =>
      rw [hharmless.afterCodes_cons, hcount.resolve_left (by simp), Nat.add_sub_cancel]

/-- Braces that backslashes cover, around a class with a slash in it. -/
def slashesInBraces : RegularExpression where
  pieces := [.covered '\x7b', .class [.plain '/'], .plain '+', .covered '\x7d']
  proper := by simp [RegularPiece.Proper]
  opens := takesSlash_cons_iff.2 (by decide)

/-- It is read as meant in a substitution. -/
theorem readAsName_slashesInBraces :
    EndsInCode "f(\x60$\x7bs.match(".toList [0] ∧ isIdentifierChar 'x' = true ∧
      slashesInBraces.text = "/\\\x7b[/]+\\\x7d/".toList ∧
      ∀ b, MayFollow b →
        ReadAsName "f(\x60$\x7bs.match(".toList slashesInBraces.text b 'x' := by
  have ha : EndsInCode "f(\x60$\x7bs.match(".toList [0] := by
    constructor <;> decide +kernel
  have hx : isIdentifierChar 'x' = true := by decide +kernel
  have htext : slashesInBraces.text = "/\\\x7b[/]+\\\x7d/".toList := by decide +kernel
  have hquotes : ∀ c ∈ slashesInBraces.text, c ≠ '\x27' ∧ c ≠ '\x22' ∧ c ≠ '\x60' := by
    rw [htext]
    simp
  have hbraces : ∀ d ∈ ([0] : Depths).head?, ∀ p, p <+: slashesInBraces.text →
      p.count '\x7d' ≤ d + p.count '\x7b' := by
    rintro d ⟨⟩ p hp
    rw [← List.mem_inits] at hp
    revert p
    decide +kernel
  have hcount : slashesInBraces.text.count '\x7b' = slashesInBraces.text.count '\x7d' := by
    decide +kernel
  exact ⟨ha, hx, htext, (readAsName_regularExpression ha slashesInBraces hx).2.2
    ⟨⟨hquotes, by decide +kernel, hbraces⟩, .inr hcount⟩⟩

/-- A quote. -/
def quoteExpression : RegularExpression where
  pieces := [.plain '\x22']
  proper := by simp [RegularPiece.Proper]
  opens := takesSlash_cons_iff.2 (by decide)

/-- **A regular expression that is misread**: the quote in it starts a string. -/
theorem not_readAsName_quote :
    EndsInCode "const quote = ".toList [] ∧ isIdentifierChar 'x' = true ∧
      MayFollow "; f();\n".toList ∧ quoteExpression.text = "/\x22/".toList ∧
      ¬ReadAsName "const quote = ".toList quoteExpression.text "; f();\n".toList 'x' := by
  have ha : EndsInCode "const quote = ".toList [] := by
    constructor <;> decide +kernel
  have hb : MayFollow "; f();\n".toList := by
    refine ⟨takesSlash_cons_iff.2 (by decide), ?_⟩
    rintro c ⟨⟩
    decide +kernel
  refine ⟨ha, by decide +kernel, hb, by decide +kernel, ?_⟩
  intro h
  have hcode := h.code
  revert hcode
  unfold AllCode
  decide +kernel

end DenoPackager.Source

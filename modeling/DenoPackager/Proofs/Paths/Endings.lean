import DenoPackager.Proofs.Paths.Stem

/-!
# Endings

The two endings that decide about a file are given by patterns: `.ts` or `.tsx`, which is replaced
by `.js`, and `.d.ts`, which tells a declaration file. A pattern is spelt without regard to case,
and has to stand at the end of the name or in front of a line feed that ends it. Here is what this
means, and that the two functions on names do it.

A name has one such ending at most, so it makes no difference which one is replaced.

## Main definitions

* `SameLetter`, `Spells`: what a pattern is spelt like.
* `HasEnding`, `EndingReplaced`: names with an ending, and what becomes of them.

## Main results

* `hasEnding_declarationEnding_iff`: which names are those of declaration files.
* `endingReplaced_typeScriptEnding_iff`: what the name of a script is.
-/

namespace DenoPackager.Text

/-! ### Patterns -/

/-- **The same letter**, up to case: a lower-case letter, its capital, and the long s for an `s`. A
character that has no case is the same as itself only. -/
def SameLetter (letter c : Char) : Prop :=
  c = letter ∨ c = letter.toUpper ∨ letter = 's' ∧ c = 'ſ'

/-- **A sign of a pattern**: a letter that has to be there, or one that may be missing. -/
inductive Sign where
  | needed (letter : Char)
  | optional (letter : Char)

/-- **What a pattern is spelt like.** -/
inductive Spells : List Sign → List Char → Prop where
  | nil : Spells [] []
  | needed {letter c : Char} {signs : List Sign} {cs : List Char} :
      SameLetter letter c → Spells signs cs → Spells (.needed letter :: signs) (c :: cs)
  | optional {letter c : Char} {signs : List Sign} {cs : List Char} :
      SameLetter letter c → Spells signs cs → Spells (.optional letter :: signs) (c :: cs)
  | missing {letter : Char} {signs : List Sign} {cs : List Char} :
      Spells signs cs → Spells (.optional letter :: signs) cs

/-- **The end of a name**: nothing, or a line feed. -/
def IsLineEnd (s : List Char) : Prop :=
  s = [] ∨ s = ['\n']

/-- The text is an ending that a pattern describes, with the end of a name behind it. -/
def IsEnding (signs : List Sign) (s tail : List Char) : Prop :=
  ∃ spelt, s = spelt ++ tail ∧ Spells signs spelt ∧ IsLineEnd tail

/-- **A name with an ending** that a pattern describes. -/
def HasEnding (signs : List Sign) (s : List Char) : Prop :=
  ∃ before ending tail, s = before ++ ending ∧ IsEnding signs ending tail

/-- **A name whose ending is replaced**; without such an ending it is kept. -/
inductive EndingReplaced (signs : List Sign) (new : List Char) : List Char → List Char → Prop where
  | replaced (before ending tail : List Char) (h : IsEnding signs ending tail) :
      EndingReplaced signs new (before ++ ending) (before ++ (new ++ tail))
  | kept (s : List Char) (h : ¬ HasEnding signs s) : EndingReplaced signs new s s

/-- The ending `.ts` or `.tsx`. -/
def typeScriptEnding : List Sign :=
  [.needed '.', .needed 't', .needed 's', .optional 'x']

/-- The ending `.d.ts`. -/
def declarationEnding : List Sign :=
  [.needed '.', .needed 'd', .needed '.', .needed 't', .needed 's']

variable {signs : List Sign} {s t tail cs : List Char} {letter c : Char}

/-- An ending stands here or further on. -/
theorem hasEnding_cons_iff :
    HasEnding signs (c :: cs) ↔ (∃ tail, IsEnding signs (c :: cs) tail) ∨ HasEnding signs cs := by
  constructor
  · rintro ⟨before, ending, tail, hs, h⟩
    cases before with
    | nil =>
      obtain rfl : c :: cs = ending := hs
      exact .inl ⟨tail, h⟩
    | cons d before =>
      rw [List.cons_append, List.cons.injEq] at hs
      exact .inr ⟨before, ending, tail, hs.2, h⟩
  · rintro (⟨tail, h⟩ | ⟨before, ending, tail, rfl, h⟩)
    · exact ⟨[], c :: cs, tail, rfl, h⟩
    · exact ⟨c :: before, ending, tail, rfl, h⟩

/-! ### What is spelt -/

theorem sameLetter_dot_iff : SameLetter '.' c ↔ c = '.' := by
  have hupper : '.'.toUpper = '.' := by decide
  simp [SameLetter, hupper]

/-- The lower case of a character is one of the letters of the endings. -/
theorem toLower_eq_iff (hletter : letter ∈ ['d', 't', 's', 'x']) :
    c.toLower = letter ↔ c = letter ∨ c = letter.toUpper := by
  simp only [List.mem_cons, List.not_mem_nil, or_false] at hletter
  delta Char.toLower
  simp only [← Char.val_inj, ← UInt32.toNat_inj, ge_iff_le, UInt32.le_iff_toNat_le]
  rcases hletter with rfl | rfl | rfl | rfl <;> split <;> rename_i hcapital <;>
    simp at hcapital ⊢ <;> omega

/-- **Letters up to case** are recognised as such. -/
theorem isLetter_iff (hletter : letter ∈ ['d', 't', 's', 'x']) :
    isLetter letter c = true ↔ SameLetter letter c := by
  rw [isLetter, Bool.or_eq_true, Bool.and_eq_true, decide_eq_true_eq, decide_eq_true_eq,
    decide_eq_true_eq, toLower_eq_iff hletter, SameLetter, or_assoc]

theorem spells_typeScriptEnding_iff {spelt : List Char} : Spells typeScriptEnding spelt ↔
    ∃ t s more, spelt = '.' :: t :: s :: more ∧ SameLetter 't' t ∧ SameLetter 's' s ∧
      (more = [] ∨ ∃ x, more = [x] ∧ SameLetter 'x' x) := by
  constructor
  · intro h
    cases h with
    | needed hdot h =>
      obtain rfl := sameLetter_dot_iff.1 hdot
      cases h with
      | @needed _ t _ _ ht h =>
        cases h with
        | @needed _ s _ more hs h =>
          refine ⟨t, s, more, rfl, ht, hs, ?_⟩
          cases h with
          | @optional _ x _ _ hx h =>
            cases h
            exact .inr ⟨x, rfl, hx⟩
          | missing h =>
            cases h
            exact .inl rfl
  · rintro ⟨t, s, more, rfl, ht, hs, hmore⟩
    refine .needed (sameLetter_dot_iff.2 rfl) (.needed ht (.needed hs ?_))
    rcases hmore with rfl | ⟨x, rfl, hx⟩
    · exact .missing .nil
    · exact .optional hx .nil

theorem spells_declarationEnding_iff {spelt : List Char} : Spells declarationEnding spelt ↔
    ∃ d t s, spelt = ['.', d, '.', t, s] ∧ SameLetter 'd' d ∧ SameLetter 't' t ∧
      SameLetter 's' s := by
  constructor
  · intro h
    cases h with
    | needed hdot h =>
      obtain rfl := sameLetter_dot_iff.1 hdot
      cases h with
      | @needed _ d _ _ hd h =>
        cases h with
        | needed hdot h =>
          obtain rfl := sameLetter_dot_iff.1 hdot
          cases h with
          | @needed _ t _ _ ht h =>
            cases h with
            | @needed _ s _ _ hs h =>
              cases h
              exact ⟨d, t, s, rfl, hd, ht, hs⟩
  · rintro ⟨d, t, s, rfl, hd, ht, hs⟩
    exact .needed (sameLetter_dot_iff.2 rfl) (.needed hd (.needed (sameLetter_dot_iff.2 rfl)
      (.needed ht (.needed hs .nil))))

/-! ### The functions on names -/

theorem lineEnd?_eq_some_iff : lineEnd? s = some tail ↔ s = tail ∧ IsLineEnd tail := by
  constructor
  · exact lineEnd?_eq_some
  · rintro ⟨rfl, rfl | rfl⟩ <;> rfl

/-- Two letters that are recognised at once. -/
theorem isLetter_and_iff {letter' c' : Char} (hletter : letter ∈ ['d', 't', 's', 'x'])
    (hletter' : letter' ∈ ['d', 't', 's', 'x']) :
    (isLetter letter c && isLetter letter' c') = true ↔
      SameLetter letter c ∧ SameLetter letter' c' := by
  rw [Bool.and_eq_true, isLetter_iff hletter, isLetter_iff hletter']

/-- What stands after the letters `ts`: perhaps an `x`, and the end of the name. -/
theorem isEnding_typeScriptEnding_iff {rest : List Char} {t s : Char} :
    IsEnding typeScriptEnding ('.' :: t :: s :: rest) tail ↔
      (SameLetter 't' t ∧ SameLetter 's' s) ∧ IsLineEnd tail ∧
        (rest = tail ∨ ∃ x, SameLetter 'x' x ∧ rest = x :: tail) := by
  constructor
  · rintro ⟨spelt, hs, hspells, htail⟩
    obtain ⟨t', s', more, rfl, ht, hs', hmore⟩ := spells_typeScriptEnding_iff.1 hspells
    simp only [List.cons_append, List.cons.injEq, true_and] at hs
    obtain ⟨rfl, rfl, rfl⟩ := hs
    refine ⟨⟨ht, hs'⟩, htail, ?_⟩
    rcases hmore with rfl | ⟨x, rfl, hx⟩
    · exact .inl rfl
    · exact .inr ⟨x, hx, rfl⟩
  · rintro ⟨⟨ht, hs⟩, htail, rfl | ⟨x, hx, rfl⟩⟩
    · exact ⟨['.', t, s], rfl, spells_typeScriptEnding_iff.2 ⟨t, s, [], rfl, ht, hs, .inl rfl⟩,
        htail⟩
    · exact ⟨['.', t, s, x], rfl, spells_typeScriptEnding_iff.2
        ⟨t, s, [x], rfl, ht, hs, .inr ⟨x, rfl, hx⟩⟩, htail⟩

/-- **A final `.ts` or `.tsx` is recognised.** -/
theorem typeScriptTail?_eq_some_iff :
    typeScriptTail? s = some tail ↔ IsEnding typeScriptEnding s tail := by
  constructor
  · intro h
    rw [typeScriptTail?.eq_def] at h
    split at h
    · rename_i t s rest
      rw [isEnding_typeScriptEnding_iff]
      split at h
      · rename_i hts
        refine ⟨(isLetter_and_iff (by decide) (by decide)).1 hts, ?_⟩
        split at h
        · obtain rfl : [] = tail := Option.some.inj h
          exact ⟨.inl rfl, .inl rfl⟩
        · rename_i x more
          split at h
          · rename_i hx
            obtain ⟨rfl, htail⟩ := lineEnd?_eq_some_iff.1 h
            exact ⟨htail, .inr ⟨x, (isLetter_iff (by decide)).1 hx, rfl⟩⟩
          · obtain ⟨rfl, htail⟩ := lineEnd?_eq_some_iff.1 h
            exact ⟨htail, .inl rfl⟩
      · exact nomatch h
    · exact nomatch h
  · intro h
    obtain ⟨spelt, rfl, hspells, htail⟩ := h
    obtain ⟨t, s, more, rfl, ht, hs, hmore⟩ := spells_typeScriptEnding_iff.1 hspells
    have hts := (isLetter_and_iff (by decide) (by decide)).2 ⟨ht, hs⟩
    simp only [List.cons_append, typeScriptTail?, hts, if_true]
    rcases hmore with rfl | ⟨x, rfl, hx⟩
    · rcases htail with rfl | rfl
      · rfl
      · have hx : isLetter 'x' '\n' = false := by decide
        simp [hx, lineEnd?]
    · simp only [List.cons_append, List.nil_append, (isLetter_iff (by decide)).2 hx, if_true]
      exact lineEnd?_eq_some_iff.2 ⟨rfl, htail⟩

/-- **A final `.d.ts` is recognised.** -/
theorem isDeclarationEnding_iff :
    isDeclarationEnding s = true ↔ ∃ tail, IsEnding declarationEnding s tail := by
  have hletters {d t s : Char} : (isLetter 'd' d && isLetter 't' t && isLetter 's' s) = true ↔
      Spells declarationEnding ['.', d, '.', t, s] := by
    rw [Bool.and_eq_true, isLetter_and_iff (by decide) (by decide), isLetter_iff (by decide),
      spells_declarationEnding_iff]
    constructor
    · rintro ⟨⟨hd, ht⟩, hs⟩
      exact ⟨d, t, s, rfl, hd, ht, hs⟩
    · rintro ⟨d', t', s', hdts, hd, ht, hs⟩
      simp only [List.cons.injEq, true_and, and_true] at hdts
      obtain ⟨rfl, rfl, rfl⟩ := hdts
      exact ⟨⟨hd, ht⟩, hs⟩
  constructor
  · intro h
    rw [isDeclarationEnding.eq_def] at h
    split at h
    · exact ⟨[], _, rfl, hletters.1 h, .inl rfl⟩
    · exact ⟨['\n'], _, rfl, hletters.1 h, .inr rfl⟩
    · exact nomatch h
  · rintro ⟨tail, spelt, rfl, hspells, htail⟩
    obtain ⟨d, t, s, rfl, -⟩ := spells_declarationEnding_iff.1 hspells
    rcases htail with rfl | rfl <;> exact hletters.2 hspells

/-- **Which names are those of declaration files.** -/
theorem hasEnding_declarationEnding_iff :
    HasEnding declarationEnding s ↔ isDeclarationName s = true := by
  induction s with
  | nil =>
    rw [isDeclarationName]
    refine iff_of_false ?_ (by decide)
    rintro ⟨before, ending, tail, hs, spelt, rfl, hspells, -⟩
    obtain ⟨d, t, s, rfl, -⟩ := spells_declarationEnding_iff.1 hspells
    simp at hs
  | cons c cs ih =>
    rw [hasEnding_cons_iff, ← isDeclarationEnding_iff, ih, isDeclarationName, Bool.or_eq_true]

instance : DecidablePred (HasEnding declarationEnding) := fun _ =>
  decidable_of_iff _ hasEnding_declarationEnding_iff.symm

/-- The name of a script has another ending. -/
theorem toScriptName_of_isEnding {before ending : List Char}
    (h : IsEnding typeScriptEnding ending tail) :
    toScriptName (before ++ ending) = before ++ (".js".toList ++ tail) := by
  have htail := typeScriptTail?_eq_some_iff.2 h
  obtain ⟨e, rfl, -⟩ := typeScriptTail?_eq_some htail
  rw [toScriptName_append (.inl rfl), toScriptName, htail]

/-- **What the name of a script is**: that of the file with its ending replaced. -/
theorem endingReplaced_typeScriptEnding_iff :
    EndingReplaced typeScriptEnding ".js".toList s t ↔ toScriptName s = t := by
  have hkept (h : ¬ HasEnding typeScriptEnding s) : toScriptName s = s := by
    rcases toScriptName_cases s with hsame | ⟨before, ending, tail, rfl, htail, -⟩
    · exact hsame
    · exact absurd ⟨before, ending, tail, rfl, typeScriptTail?_eq_some_iff.1 htail⟩ h
  constructor
  · intro h
    cases h with
    | replaced before ending tail h => exact toScriptName_of_isEnding h
    | kept _ h => exact hkept h
  · rintro rfl
    by_cases h : HasEnding typeScriptEnding s
    · obtain ⟨before, ending, tail, rfl, h⟩ := h
      rw [toScriptName_of_isEnding h]
      exact .replaced before ending tail h
    · rw [hkept h]
      exact .kept s h

end DenoPackager.Text

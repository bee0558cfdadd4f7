import DenoPackager.Proofs.Script.Ending
import DenoPackager.Proofs.Script.Literals
import Mathlib.Data.List.TakeWhile

/-!
# Accesses to the module's own properties

An access is the word `import`, a dot and the word `meta`, with white space and comments between
them or nothing. The occurrences that are replaced in a script are those with nothing but blanks
between their tokens, and with no word or dot directly in front.

The object that is put in their place is read as the same lexemes wherever it stands: its braces
are balanced, and its string literal is closed.

## Main definitions

* `MetaAccess`: an access in a list of lexemes.
* `accessText`: the text of an access with blanks only.
* `metaObject`: the lexemes of the object.

## Main results

* `importMeta_eq_some_iff`: which occurrences are replaced.
* `steady_metaObject`: how the object is read.
-/

namespace DenoPackager.Source

open Text (Matcher isBlank dropBlanks afterStart? afterStart?_eq_some_iff)

/-- The word in front of the dot. -/
def importWord : List Char :=
  ['i', 'm', 'p', 'o', 'r', 't']

/-- The word behind the dot. -/
def metaWord : List Char :=
  ['m', 'e', 't', 'a']

/-- The tokens of an access with gaps between them. -/
def accessTokens (g₁ g₂ : List Lexeme) : List Lexeme :=
  codes importWord ++ (g₁ ++ (.code '.' :: (g₂ ++ codes metaWord)))

/-- **An access in lexemes**: what is before it, the two gaps in it, and what is after it. The
word `meta` ends with it. -/
structure MetaAccess (ls before g₁ g₂ after : List Lexeme) : Prop where
  lexemes_eq : ls = before ++ (accessTokens g₁ g₂ ++ after)
  gap₁ : g₁.all Lexeme.isGap = true
  gap₂ : g₂.all Lexeme.isGap = true
  ends : endsIdentifier (leadingCode after) = true

/-- Whether lexemes have an access whose word `import` is no property. -/
def HasFreeAccess (ls : List Lexeme) : Prop :=
  ∃ before g₁ g₂ after, MetaAccess ls before g₁ g₂ after ∧ (ending before).isFree = true

/-- The text of an access with blanks between its tokens. -/
def accessText (b₁ b₂ : List Char) : List Char :=
  importWord ++ (b₁ ++ '.' :: (b₂ ++ metaWord))

/-- Whether a gap is made of blanks only. -/
def IsBlankGap (g : List Lexeme) : Prop :=
  ∃ b : List Char, g = codes b ∧ ∀ c ∈ b, isBlank c = true

theorem codes_accessText (b₁ b₂ : List Char) :
    codes (accessText b₁ b₂) = accessTokens (codes b₁) (codes b₂) := by
  simp only [accessText, accessTokens, codes_append, codes_cons]

theorem isWhite_of_isBlank {c : Char} (h : isBlank c = true) : isWhite c = true := by
  rw [isWhite, h, Bool.true_or]

/-- Blanks are a gap. -/
theorem all_isGap_codes {b : List Char} (h : ∀ c ∈ b, isBlank c = true) :
    (codes b).all Lexeme.isGap = true := by
  refine List.all_eq_true.2 fun l hl => ?_
  obtain ⟨c, hc, rfl⟩ := List.mem_map.1 hl
  exact isWhite_of_isBlank (h c hc)

/-! ### Which occurrences are replaced -/

theorem dropBlanks_eq_cons_iff {s t : List Char} {c : Char} (hc : isBlank c = false) :
    dropBlanks s = c :: t ↔ ∃ b : List Char, (∀ d ∈ b, isBlank d = true) ∧ s = b ++ c :: t := by
  rw [dropBlanks]
  constructor
  · intro h
    refine ⟨s.takeWhile isBlank, fun d hd => List.mem_takeWhile_imp hd, ?_⟩
    rw [← h, List.takeWhile_append_dropWhile]
  · rintro ⟨b, hb, rfl⟩
    rw [List.dropWhile_append_of_pos hb, List.dropWhile_cons_of_neg (by simp [hc])]

/-- The text of an access, word by word. -/
theorem accessText_append (b₁ b₂ rest : List Char) : accessText b₁ b₂ ++ rest =
    importWord ++ (b₁ ++ '.' :: (b₂ ++ (metaWord ++ rest))) := by
  simp only [accessText, List.append_assoc, List.cons_append]

/-- How many characters of an access there are behind its first one. -/
theorem length_accessText_append (b₁ b₂ rest : List Char) :
    (accessText b₁ b₂ ++ rest).length - rest.length - 1 + 1 = (accessText b₁ b₂).length := by
  have hpos : 1 ≤ (accessText b₁ b₂).length := by
    rw [accessText, List.length_append]
    exact Nat.le_add_right_of_le (by decide)
  rw [List.length_append]
  omega

/-- **The search for an access**, token by token. -/
theorem importMeta_eq_bind {prev : Option Char} (hprev : mayPrecede prev = true) (s : List Char) :
    importMeta prev s = (afterStart? importWord s).bind fun s₁ =>
      (afterStart? ['.'] (dropBlanks s₁)).bind fun s₂ =>
        (afterStart? metaWord (dropBlanks s₂)).bind fun rest =>
          if endsIdentifier rest then some ((), s.length - rest.length - 1) else none := by
  rw [importMeta, if_pos hprev]
  rfl

/-- **What is replaced**: an access with nothing but blanks between its tokens, behind neither a
word nor a dot. -/
theorem importMeta_eq_some_iff {prev : Option Char} {s : List Char} {extra : Nat} :
    importMeta prev s = some ((), extra) ↔
      mayPrecede prev = true ∧ ∃ b₁ b₂ rest : List Char, s = accessText b₁ b₂ ++ rest ∧
        (∀ c ∈ b₁, isBlank c = true) ∧ (∀ c ∈ b₂, isBlank c = true) ∧
        endsIdentifier rest = true ∧ extra + 1 = (accessText b₁ b₂).length := by
  have hdot : isBlank '.' = false := by decide
  have hm : isBlank 'm' = false := by decide
  by_cases hprev : mayPrecede prev = true
  · rw [importMeta_eq_bind hprev]
    simp only [hprev, true_and, Option.bind_eq_some_iff]
    constructor
    · rintro ⟨s₁, h₁, s₂, h₂, rest, h₃, h₄⟩
      have hs : s = importWord ++ s₁ := afterStart?_eq_some_iff.1 h₁
      obtain ⟨b₁, hb₁, rfl⟩ := (dropBlanks_eq_cons_iff hdot).1 (afterStart?_eq_some_iff.1 h₂)
      obtain ⟨b₂, hb₂, rfl⟩ := (dropBlanks_eq_cons_iff hm).1 (afterStart?_eq_some_iff.1 h₃)
      have hends : endsIdentifier rest = true := by
        by_contra hends
        rw [if_neg hends] at h₄
        exact absurd h₄ (by simp)
      rw [if_pos hends, Option.some.injEq, Prod.mk.injEq] at h₄
      have hall : s = accessText b₁ b₂ ++ rest := by rw [hs, accessText_append]; rfl
      refine ⟨b₁, b₂, rest, hall, hb₁, hb₂, hends, ?_⟩
      rw [← h₄.2, hall]
      exact length_accessText_append b₁ b₂ rest
    · rintro ⟨b₁, b₂, rest, rfl, hb₁, hb₂, hends, hextra⟩
      refine ⟨b₁ ++ '.' :: (b₂ ++ (metaWord ++ rest)), ?_, b₂ ++ (metaWord ++ rest), ?_, rest,
        ?_, ?_⟩
      · rw [accessText_append]
        exact afterStart?_eq_some_iff.2 rfl
      · exact afterStart?_eq_some_iff.2 ((dropBlanks_eq_cons_iff hdot).2 ⟨b₁, hb₁, rfl⟩)
      · exact afterStart?_eq_some_iff.2 ((dropBlanks_eq_cons_iff hm).2 ⟨b₂, hb₂, rfl⟩)
      · rw [if_pos hends, Option.some.injEq, Prod.mk.injEq]
        have hextra' := length_accessText_append b₁ b₂ rest
        exact ⟨rfl, by omega⟩
  · simp [importMeta, hprev]

/-- No character of an access but the first is the letter it begins with. -/
theorem not_mem_accessText {b₁ b₂ : List Char} (hb₁ : ∀ c ∈ b₁, isBlank c = true)
    (hb₂ : ∀ c ∈ b₂, isBlank c = true) :
    ∃ w, accessText b₁ b₂ = 'i' :: w ∧ 'i' ∉ w := by
  refine ⟨['m', 'p', 'o', 'r', 't'] ++ (b₁ ++ '.' :: (b₂ ++ metaWord)), rfl, ?_⟩
  have hi : isBlank 'i' = false := by decide
  have hnot : ∀ b : List Char, (∀ c ∈ b, isBlank c = true) → 'i' ∉ b :=
    fun b hb hmem => absurd (hb 'i' hmem) (by rw [hi]; decide)
  simp only [List.mem_append, List.mem_cons, not_or]
  exact ⟨by decide, hnot b₁ hb₁, by decide, hnot b₂ hb₂, by decide⟩

/-- The occurrences do not overlap. -/
theorem importMeta_apart : importMeta.Apart := by
  refine .of_first 'i' fun prev s extra h => ?_
  obtain ⟨-, b₁, b₂, rest, rfl, hb₁, hb₂, -, hextra⟩ := importMeta_eq_some_iff.1 h
  obtain ⟨w, hw, hi⟩ := not_mem_accessText hb₁ hb₂
  rw [hw] at hextra ⊢
  exact ⟨w, rest, rfl, (Nat.add_right_cancel hextra).symm, hi⟩

/-- A gap up to a character that is no white space: if the code is blank as far as that
character, so is the gap. -/
theorem eq_codes_of_leadingCode {g ls : List Lexeme} {stop : Char} {b rest : List Char}
    (hg : g.all Lexeme.isGap = true) (hstop : isWhite stop = false)
    (hb : ∀ c ∈ b, isBlank c = true)
    (h : leadingCode (g ++ .code stop :: ls) = b ++ stop :: rest) :
    g = codes b ∧ leadingCode ls = rest := by
  induction g generalizing b with
  | nil =>
    cases b with
    | nil => exact ⟨rfl, (List.cons.inj h).2⟩
    | cons c b =>
      obtain ⟨rfl, -⟩ := List.cons.inj h
      have hwhite := isWhite_of_isBlank (hb stop List.mem_cons_self)
      exact absurd hwhite (by rw [hstop]; decide)
  | cons l g ih =>
    rw [List.all_cons, Bool.and_eq_true] at hg
    cases l with
    | inert text => exact absurd h (by simp [leadingCode])
    | code c =>
      cases b with
      | nil =>
        obtain ⟨rfl, -⟩ := List.cons.inj h
        exact absurd hg.1 (by rw [Lexeme.isGap, hstop]; decide)
      | cons d b =>
        obtain ⟨rfl, hrest⟩ := List.cons.inj h
        obtain ⟨rfl, hls⟩ := ih hg.2 (List.forall_mem_cons.1 hb).2 hrest
        exact ⟨rfl, hls⟩

/-- **Which accesses are replaced.** -/
theorem MetaAccess.matches_iff {ls before g₁ g₂ after : List Lexeme}
    (h : MetaAccess ls before g₁ g₂ after) (prev : Option Char) :
    (∃ extra, importMeta prev (leadingCode (accessTokens g₁ g₂ ++ after)) = some ((), extra)) ↔
      mayPrecede prev = true ∧ IsBlankGap g₁ ∧ IsBlankGap g₂ := by
  have htokens : leadingCode (accessTokens g₁ g₂ ++ after) =
      importWord ++ leadingCode (g₁ ++ .code '.' :: (g₂ ++ .code 'm' ::
        (codes ['e', 't', 'a'] ++ after))) := by
    rw [accessTokens, List.append_assoc, leadingCode_codes_append, List.append_assoc,
      List.cons_append, List.append_assoc]
    rfl
  simp only [htokens, importMeta_eq_some_iff]
  constructor
  · rintro ⟨extra, hprev, b₁, b₂, rest, hs, hb₁, hb₂, -, -⟩
    rw [accessText, List.append_assoc, List.append_assoc, List.cons_append,
      List.append_assoc] at hs
    obtain ⟨rfl, hs₂⟩ := eq_codes_of_leadingCode h.gap₁ (by decide) hb₁
      (List.append_cancel_left hs)
    obtain ⟨rfl, -⟩ := eq_codes_of_leadingCode h.gap₂ (by decide) hb₂ hs₂
    exact ⟨hprev, ⟨b₁, rfl, hb₁⟩, b₂, rfl, hb₂⟩
  · rintro ⟨hprev, ⟨b₁, rfl, hb₁⟩, b₂, rfl, hb₂⟩
    refine ⟨(accessText b₁ b₂).length - 1, hprev, b₁, b₂, leadingCode after, ?_, hb₁, hb₂,
      h.ends, ?_⟩
    · simp only [leadingCode_codes_append, leadingCode, accessText, metaWord, List.append_assoc,
        List.cons_append, List.nil_append]
    · obtain ⟨w, hw, -⟩ := not_mem_accessText hb₁ hb₂
      rw [hw]
      rfl

/-- An access with blanks only is plain code. -/
theorem steady_accessText {b₁ b₂ : List Char} (hb₁ : ∀ c ∈ b₁, isBlank c = true)
    (hb₂ : ∀ c ∈ b₂, isBlank c = true) : Steady (codes (accessText b₁ b₂)) where
  starts := ⟨'i', by rw [render_codes]; rfl, by decide⟩
  selfContained := by
    have hblank : ∀ c, isBlank c = true → isPlainCode c = true := by
      intro c hc
      by_contra hplain
      rw [isPlainCode, Bool.not_eq_true, Bool.not_eq_false'] at hplain
      simp only [Bool.or_eq_true, decide_eq_true_eq] at hplain
      rcases hplain with ((((rfl | rfl) | rfl) | rfl) | rfl) | rfl <;>
        exact absurd hc (by decide)
    have hwords := List.all_eq_true.1
      (show (importWord ++ '.' :: metaWord).all isPlainCode = true by decide)
    refine selfContained_codes (List.all_eq_true.2 fun c hc => ?_)
    simp only [accessText, List.mem_append, List.mem_cons] at hc
    simp only [List.mem_append, List.mem_cons] at hwords
    rcases hc with hc | hc | hc | hc | hc
    · exact hwords c (.inl hc)
    · exact hblank c (hb₁ c hc)
    · exact hwords c (.inr (.inl hc))
    · exact hblank c (hb₂ c hc)
    · exact hwords c (.inr (.inr hc))

/-! ### How the object is read -/

/-- The lexemes of the object. -/
def metaObject : List Lexeme :=
  .code '(' :: .code '\x7b' ::
    (codes " url: require(".toList ++ ([.inert "\"url\"".toList] ++
      codes ").pathToFileURL(__filename).href, main: require.main === module ".toList) ++
        [.code '\x7d']) ++ [.code ')']

theorem render_metaObject : render metaObject = importMetaObject := by
  decide +kernel

/-- **The object is read as it is wherever it stands.** -/
theorem steady_metaObject : Steady metaObject where
  starts := ⟨'(', rfl, by decide⟩
  selfContained := by
    have hletters : ∀ c, .plain c ∈ [Glyph.plain 'u', .plain 'r', .plain 'l'] →
        c ≠ '\x22' ∧ c ≠ '\\' ∧ c ≠ '\n' := by
      intro c hc
      simp only [List.mem_cons, Glyph.plain.injEq, List.not_mem_nil, or_false] at hc
      obtain rfl | rfl | rfl := hc <;> decide
    have hstring : SelfContained [.inert "\"url\"".toList] :=
      StringLiteral.selfContained ⟨'\x22', _, .inr rfl, hletters⟩
    have hparens : ∀ c, isPlainCode c = true → SelfContained [.code c] :=
      fun c hc => @selfContained_codes [c] (by rw [List.all_cons, hc]; rfl)
    have hurl := @selfContained_codes " url: require(".toList (by decide)
    have hmain := @selfContained_codes
      ").pathToFileURL(__filename).href, main: require.main === module ".toList (by decide)
    exact ((hparens '(' (by decide)).append (hurl.append (hstring.append hmain)).braces).append
      (hparens ')' (by decide))

/-! ### What follows an access -/

/-- Behind an access there is a word, whatever was in front of it. -/
theorem ending_accessText (e : Ending) (b₁ b₂ : List Char) :
    (codes (accessText b₁ b₂)).foldl Ending.next e = .word := by
  have hmeta : ∀ e : Ending, (codes metaWord).foldl Ending.next e = .word := by
    intro e
    cases e <;> decide +kernel
  have hsplit : accessText b₁ b₂ = (importWord ++ (b₁ ++ '.' :: b₂)) ++ metaWord := by
    simp only [accessText, List.append_assoc, List.cons_append]
  rw [hsplit, codes_append, List.foldl_append, hmeta]

/-- Behind the object there is a token that is complete. -/
theorem ending_metaObject (e : Ending) : metaObject.foldl Ending.next e = .other := by
  have hopen : e.next (.code '(') = .other := by cases e <;> decide +kernel
  have hrest : metaObject.tail.foldl Ending.next .other = .other := by decide +kernel
  have hsplit : metaObject = [.code '('] ++ metaObject.tail := rfl
  calc metaObject.foldl Ending.next e
      = List.foldl Ending.next e ([.code '('] ++ metaObject.tail) := by rw [← hsplit]
    _ = metaObject.tail.foldl Ending.next (e.next (.code '(')) := by
      rw [List.foldl_append, List.foldl_cons, List.foldl_nil]
    _ = .other := by rw [hopen, hrest]

/-- What is not part of a name has the same effect behind a word as behind a complete token. -/
theorem next_word_eq {l : Lexeme} (h : ¬∃ c, l = .code c ∧ isIdentifierChar c = true) :
    Ending.next .word l = Ending.next .other l := by
  cases l with
  | code c =>
    have hname : ¬isIdentifierChar c = true := fun hname => h ⟨c, rfl, hname⟩
    rw [Ending.next, Ending.next, if_neg hname, if_neg hname]
    rfl
  | inert text => rfl

end DenoPackager.Source

import DenoPackager.Proofs.Script.MetaAccess
import Mathlib.Data.List.Chain
import Mathlib.Data.List.Induction

/-!
# A script without `import.meta`

For UMD output the accesses to the module's own properties are replaced by an object. The new
script is read as the old one with the object's lexemes in place of the accesses that were found.
Since no access can begin inside the object or reach into it, and what a later name stands behind
does not change, an access of the new script is one of the old script that was not found.

An access is left although its word `import` is no property if the code in front of it ends in
the dots that spread a value or in the point of a number, or if there is a comment, or a byte
order mark, between its tokens. A property is replaced if its member access has a gap behind it,
and so is a private name.

## Main results

* `lexemes_replaceImportMeta`: what the new script is read as.
* `replaceImportMeta_accesses`: what is replaced, and what is left.
* `replaceImportMeta_misled`: a script of each kind.
-/

namespace DenoPackager.Source

open Text (isBlank)

/-! ### What the new script is read as -/

/-- The parts that the accesses of a script are found in. -/
def metaParts (s : List Char) : List Part :=
  cut importMeta none (lexemes [] s)

theorem flatMap_original_metaParts (s : List Char) :
    (metaParts s).flatMap Part.original = lexemes [] s :=
  flatMap_original_cut importMeta_apart none _

/-- What is found is an access with blanks only, and no name goes on behind it. -/
theorem found_of_metaParts {s : List Char} {qs rs : List Part} {text : List Char}
    (h : metaParts s = qs ++ .found text :: rs) :
    mayPrecede (lastCode none (qs.flatMap Part.original)) = true ∧
      ∃ b₁ b₂, text = accessText b₁ b₂ ∧ (∀ c ∈ b₁, isBlank c = true) ∧
        (∀ c ∈ b₂, isBlank c = true) ∧
        endsIdentifier (leadingCode (rs.flatMap Part.original)) = true := by
  obtain ⟨c, w, rfl, hmatch⟩ := fits_of_cut importMeta_apart h
  obtain ⟨hprev, b₁, b₂, rest, hs, hb₁, hb₂, hends, hextra⟩ := importMeta_eq_some_iff.1 hmatch
  rw [← List.cons_append] at hs
  obtain ⟨htext, rfl⟩ := List.append_inj hs hextra
  exact ⟨hprev, b₁, b₂, htext, hb₁, hb₂, hends⟩

theorem steady_of_metaParts {s text : List Char} (h : .found text ∈ metaParts s) :
    Steady (codes text) := by
  obtain ⟨qs, rs, hcut⟩ := List.append_of_mem h
  obtain ⟨-, b₁, b₂, rfl, hb₁, hb₂, -⟩ := found_of_metaParts hcut
  exact steady_accessText hb₁ hb₂

theorem mentions_append (word before after : List Char) :
    mentions word (before ++ (word ++ after)) = true := by
  have hstart : Text.startsWith word (word ++ after) = true := by
    rw [Text.startsWith, Text.afterStart?_eq_some_iff.2 rfl]
    rfl
  induction before with
  | nil =>
    rw [List.nil_append]
    cases hs : word ++ after with
    | nil =>
      obtain ⟨rfl, -⟩ := List.append_eq_nil_iff.1 hs
      rfl
    | cons c cs => rw [mentions, ← hs, hstart, Bool.true_or]
  | cons c before ih => rw [List.cons_append, mentions, ih, Bool.or_true]

/-- The text of the new script, part by part. A script that is left alone because it does not
mention `meta` has no access. -/
theorem replaceImportMeta_eq (s : List Char) :
    replaceImportMeta s = (metaParts s).flatMap (Part.rendered importMetaObject) := by
  rw [replaceImportMeta]
  split
  · exact mapCode_replaceAll importMeta_apart _ s
  · rename_i hmentions
    have hkept : ∀ text, .found text ∉ metaParts s := by
      intro text htext
      obtain ⟨qs, rs, hcut⟩ := List.append_of_mem htext
      obtain ⟨-, b₁, b₂, rfl, -⟩ := found_of_metaParts hcut
      refine absurd ?_ hmentions
      have hs : s = render (lexemes [] s) := (render_lexemes [] s).symm
      rw [hs, ← flatMap_original_metaParts, hcut, List.flatMap_append, List.flatMap_cons,
        Part.original, render_append, render_append, render_codes, accessText]
      have hsplit : ∀ x y : List Char, x ++ (importWord ++ (b₁ ++ '.' :: (b₂ ++ metaWord)) ++ y) =
          (x ++ (importWord ++ (b₁ ++ '.' :: b₂))) ++ ("meta".toList ++ y) := by
        intro x y
        simp only [List.append_assoc, List.cons_append]
        rfl
      rw [hsplit]
      exact mentions_append _ _ _
    rw [flatMap_rendered_of_kept hkept, flatMap_original_metaParts, render_lexemes]

/-- **What the new script is read as**: the lexemes of the object are in place of what was
found. -/
theorem lexemes_replaceImportMeta (s : List Char) :
    lexemes [] (replaceImportMeta s) = (metaParts s).flatMap (Part.replaced metaObject) := by
  have h : Lexed [] ((metaParts s).flatMap Part.original) := by
    rw [flatMap_original_metaParts]
    exact lexed_lexemes [] s
  have hnew := (lexed_replaced steady_metaObject (fun _ => steady_of_metaParts) h).1
  rw [Lexed, render_flatMap_replaced, render_metaObject, ← replaceImportMeta_eq] at hnew
  exact hnew

/-! ### What a name stands behind in the new script -/

/-- **The ending does not change**, but directly behind what was found. -/
theorem ending_replaced {s : List Char} {qs rs : List Part} (h : metaParts s = qs ++ rs) :
    ending (qs.flatMap (Part.replaced metaObject)) = ending (qs.flatMap Part.original) ∨
      ending (qs.flatMap (Part.replaced metaObject)) = .other ∧
        ending (qs.flatMap Part.original) = .word ∧
        endsIdentifier (leadingCode (rs.flatMap Part.original)) = true := by
  induction qs using List.reverseRecOn generalizing rs with
  | nil => exact .inl rfl
  | append_singleton qs p ih =>
    rw [List.append_assoc, List.singleton_append] at h
    simp only [List.flatMap_append, List.flatMap_singleton, ending_append]
    cases p with
    | kept l =>
      refine .inl ?_
      rcases ih h with hsame | ⟨hnew, hold, hends⟩
      · rw [hsame]; rfl
      · have hname : ¬∃ c, l = .code c ∧ isIdentifierChar c = true := by
          rintro ⟨c, rfl, hname⟩
          rw [List.flatMap_cons, Part.original, List.singleton_append, leadingCode,
            endsIdentifier, hname] at hends
          exact absurd hends (by decide)
        rw [hnew, hold]
        exact (next_word_eq hname).symm
    | found text =>
      obtain ⟨-, b₁, b₂, rfl, -, -, hends⟩ := found_of_metaParts h
      exact .inr ⟨ending_metaObject _, ending_accessText _ b₁ b₂, hends⟩

/-! ### What is left -/

/-- The lexemes of an access: the letter it begins with, and others among which are neither that
letter nor the parenthesis that the object begins with. -/
theorem accessTokens_eq {g₁ g₂ : List Lexeme} (hg₁ : g₁.all Lexeme.isGap = true)
    (hg₂ : g₂.all Lexeme.isGap = true) :
    ∃ rest, accessTokens g₁ g₂ = .code 'i' :: rest ∧ .code 'i' ∉ rest ∧ .code '(' ∉ rest := by
  have hgap : ∀ c, isWhite c = false → ∀ g : List Lexeme, g.all Lexeme.isGap = true →
      .code c ∉ g := by
    intro c hc g hg hmem
    have hwhite := List.all_eq_true.1 hg _ hmem
    rw [Lexeme.isGap, hc] at hwhite
    exact absurd hwhite (by decide)
  refine ⟨codes ['m', 'p', 'o', 'r', 't'] ++ (g₁ ++ (.code '.' :: (g₂ ++ codes metaWord))), rfl,
    ?_, ?_⟩ <;>
  · simp only [List.mem_append, List.mem_cons, not_or]
    exact ⟨by decide, hgap _ (by decide) g₁ hg₁, by decide, hgap _ (by decide) g₂ hg₂, by decide⟩

/-- What begins with a character does not begin inside code that has it only at the start. -/
theorem cons_ne_of_codes_eq {c : Char} {w : List Char} (hw : c ∉ w) {x y ls rest : List Lexeme}
    (h : codes (c :: w) = x ++ y) (hx : x ≠ []) (hy : y ≠ []) : .code c :: ls ≠ y ++ rest := by
  intro heq
  cases x with
  | nil => exact hx rfl
  | cons l x =>
    cases y with
    | nil => exact hy rfl
    | cons l' y =>
      obtain ⟨rfl, -⟩ := List.cons.inj heq
      obtain ⟨-, hcodes⟩ := List.cons.inj h
      have hmem : Lexeme.code c ∈ codes w := by
        rw [codes, hcodes]
        simp
      obtain ⟨d, hd, hcode⟩ := List.mem_map.1 hmem
      exact hw (Lexeme.code.inj hcode ▸ hd)

/-- No access begins inside the object. -/
theorem metaObject_ne_accessTokens {x y g₁ g₂ after rest : List Lexeme}
    (h : metaObject = x ++ y) (hy : y ≠ []) :
    accessTokens g₁ g₂ ++ after ≠ y ++ rest := by
  -- An access begins with two letters that never stand side by side in the object.
  have hpairs : metaObject.IsChain fun l l' => ¬(l = .code 'i' ∧ l' = .code 'm') := by
    decide +kernel
  intro heq
  cases y with
  | nil => exact hy rfl
  | cons l y =>
    obtain ⟨rfl, hrest⟩ := List.cons.inj heq
    cases y with
    | nil =>
      have hlast := congrArg List.getLast? h
      rw [List.getLast?_append, List.getLast?_singleton, Option.some_or] at hlast
      exact absurd hlast (by decide +kernel)
    | cons l' y =>
      obtain ⟨rfl, -⟩ := List.cons.inj hrest
      rw [h, List.isChain_append_cons_cons] at hpairs
      exact hpairs.2.1 ⟨rfl, rfl⟩

/-- A name ends before a script exactly if it ends before the new script. -/
theorem endsIdentifier_replaced {s : List Char} {qs rs : List Part} (h : metaParts s = qs ++ rs)
    (hprev : mayPrecede (lastCode none (qs.flatMap Part.original)) = false) :
    endsIdentifier (leadingCode (rs.flatMap (Part.replaced metaObject))) =
      endsIdentifier (leadingCode (rs.flatMap Part.original)) := by
  cases rs with
  | nil => rfl
  | cons p rs =>
    cases p with
    | kept l => cases l <;> rfl
    | found text =>
      have hfound := (found_of_metaParts h).1
      rw [hprev] at hfound
      exact absurd hfound (by decide)

section Accesses

variable {s : List Char} {before g₁ g₂ after : List Lexeme}

/-- **Which accesses are found.** -/
theorem MetaAccess.foundAt_iff (h : MetaAccess (lexemes [] s) before g₁ g₂ after) :
    FoundAt (metaParts s) before ↔
      mayPrecede (lastCode none before) = true ∧ IsBlankGap g₁ ∧ IsBlankGap g₂ := by
  rw [metaParts, h.lexemes_eq, foundAt_cut_iff importMeta_apart, h.matches_iff]

/-- An access that is not found is kept. -/
theorem MetaAccess.exists_kept (h : MetaAccess (lexemes [] s) before g₁ g₂ after)
    (hfound : ¬FoundAt (metaParts s) before) :
    ∃ qs rs, metaParts s = qs ++ ((accessTokens g₁ g₂).map .kept ++ rs) ∧
      qs.flatMap Part.original = before ∧ rs.flatMap Part.original = after := by
  obtain ⟨rest, htokens, hi, -⟩ := accessTokens_eq h.gap₁ h.gap₂
  have hls := h.lexemes_eq
  rw [← flatMap_original_metaParts, htokens] at hls
  have hfoundText : ∀ text, .found text ∈ metaParts s → ∃ w, text = 'i' :: w ∧ 'i' ∉ w := by
    intro text htext
    obtain ⟨qs, rs, hcut⟩ := List.append_of_mem htext
    obtain ⟨-, b₁, b₂, rfl, hb₁, hb₂, -⟩ := found_of_metaParts hcut
    exact not_mem_accessText hb₁ hb₂
  have hinside : ∀ text, .found text ∈ metaParts s → ∀ x y zs : List Lexeme,
      codes text = x ++ y → x ≠ [] → y ≠ [] → .code 'i' :: (rest ++ after) ≠ y ++ zs := by
    intro text htext x y zs hxy hx hy
    obtain ⟨w, rfl, hw⟩ := hfoundText text htext
    exact cons_ne_of_codes_eq hw hxy hx hy
  obtain ⟨qs, ps, hparts, hbefore, hps⟩ := exists_parts_of_flatMap (fun l => rfl) hinside hls
  cases ps with
  | nil => exact absurd hps (by simp)
  | cons p ps =>
    cases p with
    | found text => exact absurd ⟨qs, text, ps, hparts, hbefore⟩ hfound
    | kept l =>
      obtain ⟨rfl, hrest⟩ := List.cons.inj hps
      have hfirst : ∀ text, .found text ∈ ps →
          ∃ ls, Part.original (.found text) = .code 'i' :: ls := by
        intro text htext
        obtain ⟨w, rfl, -⟩ := hfoundText text (by simp [hparts, htext])
        exact ⟨codes w, rfl⟩
      obtain ⟨rs, rfl, hafter⟩ := exists_kept_of_flatMap (fun l => rfl) hfirst hi hrest
      exact ⟨qs, rs, by rw [hparts, htokens]; rfl, hbefore, hafter⟩

/-- An access of the new script is one of the old script, and was kept. -/
theorem MetaAccess.exists_kept_of_replaced
    (h : MetaAccess (lexemes [] (replaceImportMeta s)) before g₁ g₂ after) :
    ∃ qs rs, metaParts s = qs ++ ((accessTokens g₁ g₂).map .kept ++ rs) ∧
      qs.flatMap (Part.replaced metaObject) = before ∧
        rs.flatMap (Part.replaced metaObject) = after := by
  obtain ⟨rest, htokens, -, hparen⟩ := accessTokens_eq h.gap₁ h.gap₂
  have hls := h.lexemes_eq
  rw [lexemes_replaceImportMeta] at hls
  obtain ⟨qs, ps, hparts, hbefore, hps⟩ := exists_parts_of_flatMap (fun l => rfl)
    (fun _ _ _ _ _ hobject _ hy => metaObject_ne_accessTokens hobject hy) hls
  have hparen' : .code '(' ∉ accessTokens g₁ g₂ := by
    rw [htokens, List.mem_cons, not_or]
    exact ⟨by decide, hparen⟩
  obtain ⟨rs, rfl, hafter⟩ := exists_kept_of_flatMap (fun l => rfl)
    (fun _ _ => ⟨metaObject.tail, rfl⟩) hparen' hps
  exact ⟨qs, rs, hparts, hbefore, hafter⟩

/-- **A kept access is one of both scripts**, behind the same ending. -/
theorem metaAccess_iff_of_kept {qs rs : List Part} (hg₁ : g₁.all Lexeme.isGap = true)
    (hg₂ : g₂.all Lexeme.isGap = true)
    (h : metaParts s = qs ++ ((accessTokens g₁ g₂).map .kept ++ rs)) :
    (MetaAccess (lexemes [] (replaceImportMeta s)) (qs.flatMap (Part.replaced metaObject)) g₁ g₂
        (rs.flatMap (Part.replaced metaObject)) ↔
      MetaAccess (lexemes [] s) (qs.flatMap Part.original) g₁ g₂
        (rs.flatMap Part.original)) ∧
      ending (qs.flatMap (Part.replaced metaObject)) = ending (qs.flatMap Part.original) := by
  have hold : ((accessTokens g₁ g₂).map Part.kept).flatMap Part.original = accessTokens g₁ g₂ :=
    flatMap_map_kept (fun _ => rfl) _
  have hnew : ((accessTokens g₁ g₂).map Part.kept).flatMap (Part.replaced metaObject) =
      accessTokens g₁ g₂ := flatMap_map_kept (fun _ => rfl) _
  have hends : endsIdentifier (leadingCode (rs.flatMap (Part.replaced metaObject))) =
      endsIdentifier (leadingCode (rs.flatMap Part.original)) := by
    refine endsIdentifier_replaced ((List.append_assoc qs _ rs).trans h.symm).symm ?_
    rw [List.flatMap_append, hold, accessTokens]
    simp only [lastCode_append, lastCode]
    exact (by decide +kernel : mayPrecede (some 'a') = false)
  refine ⟨⟨fun haccess => ⟨?_, hg₁, hg₂, hends ▸ haccess.ends⟩,
    fun haccess => ⟨?_, hg₁, hg₂, hends.symm ▸ haccess.ends⟩⟩, ?_⟩
  · rw [← flatMap_original_metaParts, h, List.flatMap_append, List.flatMap_append, hold]
  · rw [lexemes_replaceImportMeta, h, List.flatMap_append, List.flatMap_append, hnew]
  · rcases ending_replaced h with hsame | ⟨-, -, hword⟩
    · exact hsame
    · -- The access begins with a letter, so it does not stand directly behind what was found.
      rw [List.flatMap_append, hold] at hword
      have hi : isIdentifierChar 'i' = true := by decide +kernel
      rw [accessTokens, importWord, codes_cons, List.cons_append, List.cons_append, leadingCode,
        endsIdentifier, hi] at hword
      exact absurd hword (by decide)

/-- The accesses of the new script are those of the old one that were not found. -/
theorem hasFreeAccess_replaceImportMeta_iff (s : List Char) :
    HasFreeAccess (lexemes [] (replaceImportMeta s)) ↔
      ∃ before g₁ g₂ after, MetaAccess (lexemes [] s) before g₁ g₂ after ∧
        (ending before).isFree = true ∧ ¬FoundAt (metaParts s) before := by
  constructor
  · rintro ⟨before, g₁, g₂, after, h, hfree⟩
    obtain ⟨qs, rs, hparts, rfl, rfl⟩ := h.exists_kept_of_replaced
    obtain ⟨haccess, hending⟩ := metaAccess_iff_of_kept h.gap₁ h.gap₂ hparts
    have hold := haccess.1 h
    refine ⟨_, g₁, g₂, _, hold, hending ▸ hfree, ?_⟩
    obtain ⟨rest, htokens, -⟩ := accessTokens_eq h.gap₁ h.gap₂
    rw [htokens] at hparts
    exact not_foundAt_of_cut importMeta_apart hparts
  · rintro ⟨before, g₁, g₂, after, h, hfree, hfound⟩
    obtain ⟨qs, rs, hparts, rfl, rfl⟩ := h.exists_kept hfound
    obtain ⟨haccess, hending⟩ := metaAccess_iff_of_kept h.gap₁ h.gap₂ hparts
    exact ⟨_, g₁, g₂, _, haccess.2 h, hending.symm ▸ hfree⟩

end Accesses

/-- **What is replaced, and what is left.** A script is cut into the accesses that were found and
what is kept; the object is put in place of each one found, and the new script is read as just
that. An access is found exactly if there are only blanks between its tokens and the word
`import` is free, but for the four endings that mislead, behind which it is found exactly if the
word is not free. So a free access is left exactly if there was one behind an ending that
misleads, or with something else than blanks between its tokens. -/
theorem replaceImportMeta_accesses (s : List Char) :
    ∃ ps : List Part, ps.flatMap Part.original = lexemes [] s ∧
      replaceImportMeta s = ps.flatMap (Part.rendered importMetaObject) ∧
      lexemes [] (replaceImportMeta s) = ps.flatMap (Part.replaced metaObject) ∧
      (∀ qs text rs, ps = qs ++ .found text :: rs → ∃ b₁ b₂, text = accessText b₁ b₂ ∧
        MetaAccess (lexemes [] s) (qs.flatMap Part.original) (codes b₁) (codes b₂)
          (rs.flatMap Part.original)) ∧
      (∀ before g₁ g₂ after, MetaAccess (lexemes [] s) before g₁ g₂ after →
        (FoundAt ps before ↔ IsBlankGap g₁ ∧ IsBlankGap g₂ ∧
          ((ending before).isFree = true ↔ (ending before).misleads = false))) ∧
      (HasFreeAccess (lexemes [] (replaceImportMeta s)) ↔
        ∃ before g₁ g₂ after, MetaAccess (lexemes [] s) before g₁ g₂ after ∧
          (ending before).isFree = true ∧
            ((ending before).misleads = true ∨ ¬(IsBlankGap g₁ ∧ IsBlankGap g₂))) := by
  have hfound : ∀ before g₁ g₂ after, MetaAccess (lexemes [] s) before g₁ g₂ after →
      (FoundAt (metaParts s) before ↔ IsBlankGap g₁ ∧ IsBlankGap g₂ ∧
        ((ending before).isFree = true ↔ (ending before).misleads = false)) := by
    intro before g₁ g₂ after h
    rw [h.foundAt_iff, mayPrecede_lastCode, and_rotate]
    refine and_congr_right fun _ => and_congr_right fun _ => ?_
    cases ending before <;> decide
  refine ⟨metaParts s, flatMap_original_metaParts s, replaceImportMeta_eq s,
    lexemes_replaceImportMeta s, ?_, hfound, ?_⟩
  · intro qs text rs hcut
    obtain ⟨-, b₁, b₂, rfl, hb₁, hb₂, hends⟩ := found_of_metaParts hcut
    refine ⟨b₁, b₂, rfl, ?_, all_isGap_codes hb₁, all_isGap_codes hb₂, hends⟩
    rw [← flatMap_original_metaParts, hcut, List.flatMap_append, List.flatMap_cons, Part.original,
      codes_accessText]
  · rw [hasFreeAccess_replaceImportMeta_iff]
    refine exists_congr fun before => exists_congr fun g₁ => exists_congr fun g₂ =>
      exists_congr fun after => and_congr_right fun h => and_congr_right fun hfree => ?_
    rw [hfound before g₁ g₂ after h, hfree]
    cases (ending before).misleads with
    | true => exact iff_of_true (fun h => absurd (h.2.2.1 rfl) (by decide)) (.inl rfl)
    | false => simp

/-- **Accesses that are left**, behind the dots that spread a value and with a comment in it,
**and a property that is replaced**, with its member access on the line before. -/
theorem replaceImportMeta_misled :
    (replaceImportMeta "f(...import.meta.urls);\n".toList = "f(...import.meta.urls);\n".toList ∧
      HasFreeAccess (lexemes [] (replaceImportMeta "f(...import.meta.urls);\n".toList))) ∧
    (replaceImportMeta "import/* */.meta;\n".toList = "import/* */.meta;\n".toList ∧
      HasFreeAccess (lexemes [] (replaceImportMeta "import/* */.meta;\n".toList))) ∧
    ∃ before after : List Lexeme,
      MetaAccess (lexemes [] "host.\n  import.meta;\n".toList) before [] [] after ∧
        (ending before).isFree = false ∧
        replaceImportMeta "host.\n  import.meta;\n".toList ≠
          "host.\n  import.meta;\n".toList := by
  refine ⟨⟨by decide +kernel, codes "f(...".toList, [], [], codes ".urls);\n".toList,
      ⟨?_, ?_, ?_, ?_⟩, ?_⟩, ⟨by decide +kernel, [], [.inert "/* */".toList], [],
      codes ";\n".toList, ⟨?_, ?_, ?_, ?_⟩, ?_⟩, codes "host.\n  ".toList, codes ";\n".toList,
      ⟨?_, ?_, ?_, ?_⟩, ?_⟩ <;>
    decide +kernel

end DenoPackager.Source

import DenoPackager.Proofs.Script.Contents
import DenoPackager.Proofs.Script.MetaReplaced

/-!
# A script that is replaced twice

Replacing `import.meta` is stable. The object that is put in place of an access holds braces and a
string literal of its own, and still every other stretch of inert text is the one it was, in the
same order: the braces are balanced, so the depths behind the object are those in front of it. And
no access is made by the replacement, neither in the object nor where it meets what it stands
between, so replacing the accesses of the new script changes nothing.

An access of the new script that could be found was kept. So it is one of the old script behind the
same ending, and could have been found there.

## Main definitions

* `metaObjectCode`: the object without its string literal.

## Main results

* `not_found_of_replaceImportMeta`: nothing is found in the new script.
* `replaceImportMeta_stable`: what replacing does to the segments of a script, and that it is done
  once.
-/

namespace DenoPackager.Source

open Text (Piece findAll replaceAll)

/-- The string literal of the object. -/
def metaObjectLiteral : List Char :=
  "\"url\"".toList

/-- **The code of the object**, without the string literal in it. -/
def metaObjectCode : List Char :=
  "(\x7b url: require(".toList ++
    ").pathToFileURL(__filename).href, main: require.main === module \x7d)".toList

/-! ### Nothing is left to be found -/

/-- What is found is an access of the script, behind a character that it may be found behind. -/
theorem metaAccess_of_metaParts {s : List Char} {qs rs : List Part} {text : List Char}
    (h : metaParts s = qs ++ .found text :: rs) :
    ∃ g₁ g₂, MetaAccess (lexemes [] s) (qs.flatMap Part.original) g₁ g₂
        (rs.flatMap Part.original) ∧
      mayPrecede (lastCode none (qs.flatMap Part.original)) = true ∧ IsBlankGap g₁ ∧
        IsBlankGap g₂ := by
  obtain ⟨hprev, b₁, b₂, rfl, hb₁, hb₂, hends⟩ := found_of_metaParts h
  refine ⟨codes b₁, codes b₂, ⟨?_, all_isGap_codes hb₁, all_isGap_codes hb₂, hends⟩, hprev,
    ⟨b₁, rfl, hb₁⟩, b₂, rfl, hb₂⟩
  rw [← flatMap_original_metaParts, h, List.flatMap_append, List.flatMap_cons, Part.original,
    codes_accessText]

/-- **Nothing is found in the new script.** -/
theorem not_found_of_replaceImportMeta (s text : List Char) :
    .found text ∉ metaParts (replaceImportMeta s) := by
  intro htext
  obtain ⟨qs, rs, hcut⟩ := List.append_of_mem htext
  obtain ⟨g₁, g₂, haccess, hprev, hg₁, hg₂⟩ := metaAccess_of_metaParts hcut
  -- The access was kept, so it is one of the old script, behind the same ending.
  obtain ⟨qs', rs', hparts, hbefore, hafter⟩ := haccess.exists_kept_of_replaced
  obtain ⟨hkept, hending⟩ := metaAccess_iff_of_kept haccess.gap₁ haccess.gap₂ hparts
  rw [hbefore] at hending hkept
  rw [hafter] at hkept
  have hold := hkept.1 haccess
  have hfound : FoundAt (metaParts s) (qs'.flatMap Part.original) := by
    rw [mayPrecede_lastCode, hending, ← mayPrecede_lastCode] at hprev
    exact hold.foundAt_iff.2 ⟨hprev, hg₁, hg₂⟩
  obtain ⟨rest, htokens, -⟩ := accessTokens_eq haccess.gap₁ haccess.gap₂
  rw [htokens] at hparts
  exact not_foundAt_of_cut importMeta_apart hparts hfound

/-- Replacing again changes nothing. -/
theorem replaceImportMeta_idempotent (s : List Char) :
    replaceImportMeta (replaceImportMeta s) = replaceImportMeta s := by
  rw [replaceImportMeta_eq (replaceImportMeta s),
    flatMap_rendered_of_kept (not_found_of_replaceImportMeta s), flatMap_original_metaParts,
    render_lexemes]

/-! ### What the new script holds -/

theorem filterMap_inert?_metaObject :
    metaObject.filterMap Lexeme.inert? = [metaObjectLiteral] := by
  decide +kernel

theorem filterMap_code?_metaObject : metaObject.filterMap Lexeme.code? = metaObjectCode := by
  decide +kernel

/-- The inert texts of the new script: the object's literal for each access in a segment of code,
and every segment of inert text. -/
theorem inertTexts_replaceImportMeta (s : List Char) :
    inertTexts (segments (replaceImportMeta s)) = (segments s).flatMap fun g =>
      if g.isCode then (findAll importMeta g.text).map fun _ => metaObjectLiteral
      else [g.text] := by
  have hsegment : ∀ g : Segment,
      (if g.isCode then (findAll importMeta g.text).map fun _ => metaObjectLiteral
        else [g.text]) =
      onSegment (fun p => p.found?.toList.map fun _ => metaObjectLiteral) (fun u => [u])
        importMeta g := by
    intro g
    rw [onSegment, findAll, List.filterMap_eq_flatMap_toList, List.map_flatMap]
  have hpart : ∀ p : Part, (p.replaced metaObject).filterMap Lexeme.inert? =
      onPart (fun p => p.found?.toList.map fun _ => metaObjectLiteral) (fun u => [u]) p := by
    intro p
    cases p with
    | kept l => cases l <;> rfl
    | found text => exact filterMap_inert?_metaObject
  rw [inertTexts_segments, lexemes_replaceImportMeta, List.filterMap_flatMap]
  simp only [hsegment, hpart]
  exact (flatMap_onSegment _ _ importMeta_apart s).symm

/-- The code of the new script: that of the old one with the object's code for each access. -/
theorem codeText_replaceImportMeta (s : List Char) :
    codeText (segments (replaceImportMeta s)) = (segments s).flatMap fun g =>
      if g.isCode then replaceAll importMeta (fun _ => metaObjectCode) g.text else [] := by
  have hpart : ∀ p : Part, (p.replaced metaObject).filterMap Lexeme.code? =
      onPart (Piece.render fun _ => metaObjectCode) (fun _ => []) p := by
    intro p
    cases p with
    | kept l => cases l <;> rfl
    | found text => exact filterMap_code?_metaObject
  rw [codeText_segments, lexemes_replaceImportMeta, List.filterMap_flatMap]
  simp only [hpart]
  exact (flatMap_onSegment _ _ importMeta_apart s).symm

/-- A script that is left alone because it does not mention `meta` would not have changed. -/
theorem replaceImportMeta_eq_mapCode (s : List Char) :
    replaceImportMeta s = mapCode (replaceAll importMeta fun _ => importMetaObject) s := by
  rw [replaceImportMeta_eq, mapCode_replaceAll importMeta_apart]
  rfl

/-- **Replacing `import.meta` is stable.** Doing it again changes nothing. The inert texts of the
new script are those of the old one, in order, with the literal of the object for each access that
was replaced; its code is that of the old one with the code of the object for each of them. And a
script that does not mention `meta` need not be looked at more closely. -/
theorem replaceImportMeta_stable (s : List Char) :
    replaceImportMeta (replaceImportMeta s) = replaceImportMeta s ∧
      inertTexts (segments (replaceImportMeta s)) = ((segments s).flatMap fun g =>
        if g.isCode then (findAll importMeta g.text).map fun _ => metaObjectLiteral
        else [g.text]) ∧
      codeText (segments (replaceImportMeta s)) = ((segments s).flatMap fun g =>
        if g.isCode then replaceAll importMeta (fun _ => metaObjectCode) g.text else []) ∧
      replaceImportMeta s = mapCode (replaceAll importMeta fun _ => importMetaObject) s :=
  ⟨replaceImportMeta_idempotent s, inertTexts_replaceImportMeta s, codeText_replaceImportMeta s,
    replaceImportMeta_eq_mapCode s⟩

end DenoPackager.Source

import DenoPackager.Proofs.Script.Contents
import DenoPackager.Proofs.Script.Literals
import DenoPackager.Proofs.Script.References

/-!
# A script that is routed twice

Leading the namespace through a package is conservative: it puts a line in front of the script and
the name of the import in front of references, and every stretch of inert text stays what it is. It
is also done once. The name in front of a reference ends in a dot, so the reference is a property
then, and what was no reference does not become one: only the character in front of it counts, and
that is the same as before, or is at the start of a line now and was at the start of the script.

## Main results

* `lexemes_routeReferences`, `lexemes_shimImport`: what the new script is read as.
* `not_found_of_replaced`: nothing is found in the new script.
* `routeNamespace_stable`: what routing does to a script, and that it is done once.
-/

namespace DenoPackager.Source

open Text (Matcher)

/-- The parts that the references of a script are found in. -/
def referenceParts (s : List Char) : List Part :=
  cut namespaceReference none (lexemes [] s)

/-- The name of the import with the dot behind it. -/
def importDot : List Char :=
  ['d', 'e', 'n', 'o', 'S', 'h', 'i', 'm', '.']

/-- What a reference becomes. -/
def routedReference : List Char :=
  importDot ++ namespaceDot

theorem flatMap_original_referenceParts (s : List Char) :
    (referenceParts s).flatMap Part.original = lexemes [] s :=
  flatMap_original_cut namespaceReference_apart none _

/-- What is found is the name and the dot. -/
theorem eq_of_mem_referenceParts {s text : List Char} (h : .found text ∈ referenceParts s) :
    text = namespaceDot := by
  obtain ⟨qs, rs, hcut⟩ := List.append_of_mem h
  obtain ⟨c, w, rfl, hmatch⟩ := fits_of_cut namespaceReference_apart hcut
  obtain ⟨-, ⟨rest, hrest⟩, hw⟩ := namespaceReference_eq_some_iff.1 hmatch
  rw [← List.cons_append] at hrest
  exact (List.append_inj hrest (congrArg (· + 1) hw)).1

/-! ### What the new script is read as -/

theorem steady_namespaceDot : Steady (codes namespaceDot) where
  starts := ⟨'D', rfl, by decide⟩
  selfContained := selfContained_codes (by decide)

theorem steady_routedReference : Steady (codes routedReference) where
  starts := ⟨'d', rfl, by decide⟩
  selfContained := selfContained_codes (by decide)

/-- The routed script, part by part. -/
theorem routeReferences_eq_parts (s : List Char) :
    routeReferences s = (referenceParts s).flatMap (Part.rendered routedReference) :=
  mapCode_replaceAll namespaceReference_apart routedReference s

/-- **What the routed script is read as**: the name of the import is in front of what was found. -/
theorem lexemes_routeReferences (s : List Char) :
    lexemes [] (routeReferences s) =
      (referenceParts s).flatMap (Part.replaced (codes routedReference)) := by
  have hfound : ∀ text, .found text ∈ referenceParts s → Steady (codes text) := fun text htext =>
    eq_of_mem_referenceParts htext ▸ steady_namespaceDot
  have h : Lexed [] ((referenceParts s).flatMap Part.original) := by
    rw [flatMap_original_referenceParts]
    exact lexed_lexemes [] s
  have hnew := (lexed_replaced steady_routedReference hfound h).1
  rw [Lexed, render_flatMap_replaced, render_codes, ← routeReferences_eq_parts] at hnew
  exact hnew

/-- A name that can be written between quotes as it is. -/
def Quotable (name : String) : Prop :=
  ∀ c ∈ name.toList, c ≠ '\x22' ∧ c ≠ '\\' ∧ c ≠ '\n'

/-- The lexemes of the line that imports a package. -/
def importLine (package : String) : List Lexeme :=
  codes "import * as denoShim from ".toList ++
    (.inert ('\x22' :: (package.toList ++ ['\x22'])) :: codes [';', '\n'])

/-- The line as it is written. -/
theorem shimImport_eq (package : String) :
    shimImport package =
      "import * as denoShim from \"".toList ++ package.toList ++ "\";\n".toList := by
  have hfront : "import * as ".toList ++ shimName ++ " from \"".toList =
      "import * as denoShim from \"".toList := by decide +kernel
  unfold shimImport
  rw [hfront]

theorem render_importLine (package : String) : render (importLine package) = shimImport package := by
  have hfront : "import * as denoShim from \"".toList =
      "import * as denoShim from ".toList ++ ['\x22'] := by decide +kernel
  have hback : "\";\n".toList = ['\x22', ';', '\n'] := by decide +kernel
  rw [shimImport_eq, importLine, hfront, hback, render_append, render_cons, render_codes,
    render_codes, Lexeme.text]
  simp only [List.append_assoc, List.cons_append, List.nil_append]

/-- **The line is read as it is** wherever it stands. -/
theorem selfContained_importLine {package : String} (h : Quotable package) :
    SelfContained (importLine package) := by
  have hglyphs : spell (package.toList.map Glyph.plain) = package.toList := by
    rw [spell, List.flatMap_map]
    exact List.flatMap_singleton' _
  have hproper : ∀ c, .plain c ∈ package.toList.map Glyph.plain →
      c ≠ '\x22' ∧ c ≠ '\\' ∧ c ≠ '\n' := by
    intro c hc
    obtain ⟨d, hd, hcd⟩ := List.mem_map.1 hc
    exact Glyph.plain.inj hcd ▸ h d hd
  have hliteral := StringLiteral.selfContained ⟨'\x22', _, .inr rfl, hproper⟩
  rw [StringLiteral.text, hglyphs] at hliteral
  have hfront := @selfContained_codes "import * as denoShim from ".toList (by decide)
  have hback := @selfContained_codes [';', '\n'] (by decide)
  exact hfront.append (hliteral.append hback)

/-- What the script with the line in front of it is read as. -/
theorem lexemes_shimImport {package : String} (h : Quotable package) (s : List Char) :
    lexemes [] (shimImport package ++ s) = importLine package ++ lexemes [] s := by
  rw [← render_importLine, selfContained_importLine h]

/-! ### Nothing is left to be found -/

theorem namespaceReference_of_ne {prev : Option Char} {c : Char} {s : List Char} (hc : c ≠ 'D') :
    namespaceReference prev (c :: s) = none := by
  rw [Option.eq_none_iff_forall_ne_some]
  rintro ⟨⟨⟩, extra⟩ h
  obtain ⟨-, ⟨rest, hrest⟩, -⟩ := namespaceReference_eq_some_iff.1 h
  exact hc (List.cons.inj hrest).1

/-- Code without the letter that references begin with is kept. -/
theorem cut_codes_of_not_mem {w : List Char} (hw : 'D' ∉ w) (prev : Option Char)
    (ls : List Lexeme) :
    cut namespaceReference prev (codes w ++ ls) =
      (codes w).map .kept ++ cut namespaceReference (w.getLast?.or prev) ls := by
  induction w generalizing prev with
  | nil => rfl
  | cons c w ih =>
    rw [List.mem_cons, not_or] at hw
    have hlast : (c :: w).getLast?.or prev = w.getLast?.or (some c) := by
      rw [List.getLast?_cons]
      cases w.getLast? <;> rfl
    rw [codes_cons, List.cons_append, cut_kept (namespaceReference_of_ne (Ne.symm hw.1)),
      ih hw.2, hlast]
    rfl

/-- Nothing is found in the line. -/
theorem cut_importLine (package : String) (prev : Option Char) (ls : List Lexeme) :
    cut namespaceReference prev (importLine package ++ ls) =
      (importLine package).map .kept ++ cut namespaceReference (some '\n') ls := by
  rw [importLine, List.append_assoc, List.cons_append, cut_codes_of_not_mem (by decide),
    cut_inert, cut_codes_of_not_mem (by decide), List.map_append, List.map_cons,
    List.append_assoc, List.cons_append]
  rfl

/-- Nothing is found in what a reference becomes: it stands behind a dot. -/
theorem cut_routedReference (prev : Option Char) (ls : List Lexeme) :
    cut namespaceReference prev (codes routedReference ++ ls) =
      (codes routedReference).map .kept ++ cut namespaceReference (some '.') ls := by
  have hbehind : ∀ rest, namespaceReference (some '.') ('D' :: rest) = none := by
    intro rest
    rw [Option.eq_none_iff_forall_ne_some]
    rintro ⟨⟨⟩, extra⟩ h
    obtain ⟨hprev, -, -⟩ := namespaceReference_eq_some_iff.1 h
    exact absurd hprev (by decide)
  have hsplit : ∀ ls, codes routedReference ++ ls =
      codes importDot ++ (.code 'D' :: (codes ['e', 'n', 'o', '.'] ++ ls)) := fun _ => rfl
  have hdot : importDot.getLast?.or prev = some '.' := rfl
  rw [hsplit, cut_codes_of_not_mem (by decide), hdot, cut_kept (hbehind _),
    cut_codes_of_not_mem (by decide)]
  rfl

/-- What follows a kept letter in the new script followed it in the old one, as far as a reference
goes. -/
theorem exists_eq_codes_of_replaced {prev : Option Char} {ls : List Lexeme} {w rest : List Char}
    (hw : .code 'd' ∉ codes w)
    (h : leadingCode ((cut namespaceReference prev ls).flatMap
      (Part.replaced (codes routedReference))) = w ++ rest) :
    ∃ after, ls = codes w ++ after := by
  have hcodes := codes_leadingCode ((cut namespaceReference prev ls).flatMap
    (Part.replaced (codes routedReference)))
  rw [h, codes_append, List.append_assoc] at hcodes
  obtain ⟨rs, hcut, -⟩ := exists_kept_of_flatMap (fun l => rfl) (fun _ _ => ⟨_, rfl⟩) hw hcodes.symm
  refine ⟨rs.flatMap Part.original, ?_⟩
  rw [← flatMap_original_cut namespaceReference_apart prev ls, hcut, List.flatMap_append,
    flatMap_map_kept fun l => rfl]

/-- **Nothing is found in the new script**, as long as a name may start in front of it exactly if it
could in front of the old one. -/
theorem not_found_of_replaced {prev prev' : Option Char}
    (hprev : mayPrecede prev' = mayPrecede prev) (ls : List Lexeme) (text : List Char) :
    .found text ∉ cut namespaceReference prev' ((cut namespaceReference prev ls).flatMap
      (Part.replaced (codes routedReference))) := by
  induction prev, ls using cut_induction namespaceReference_apart generalizing prev' with
  | nil prev => simp [cut]
  | inert prev u ls ih =>
    rw [cut_inert, List.flatMap_cons, Part.replaced, List.singleton_append, cut_inert]
    simpa using ih rfl
  | found prev c w ls hmatch ih =>
    have hlast : (c :: w).getLast? = some '.' := by
      obtain ⟨-, ⟨rest, hrest⟩, hw⟩ := namespaceReference_eq_some_iff.1 hmatch
      rw [← List.cons_append] at hrest
      rw [(List.append_inj hrest (congrArg (· + 1) hw)).1]
      rfl
    rw [cut_found hmatch, List.flatMap_cons, Part.replaced, cut_routedReference]
    rw [hlast] at ih ⊢
    simpa using ih rfl
  | kept prev c ls hmatch ih =>
    have hnone : namespaceReference prev' (c :: leadingCode
        ((cut namespaceReference (some c) ls).flatMap
          (Part.replaced (codes routedReference)))) = none := by
      rw [Option.eq_none_iff_forall_ne_some]
      rintro ⟨⟨⟩, extra⟩ h
      obtain ⟨hmay, ⟨rest, hrest⟩, -⟩ := namespaceReference_eq_some_iff.1 h
      obtain ⟨rfl, hletters⟩ := List.cons.inj hrest
      obtain ⟨after, rfl⟩ := exists_eq_codes_of_replaced (by decide) hletters
      rw [leadingCode_codes_append] at hmatch
      have hfound := namespaceReference_eq_some_iff.2 ⟨hprev ▸ hmay, ⟨leadingCode after, rfl⟩, rfl⟩
      exact absurd (hmatch.symm.trans hfound) (by simp)
    rw [cut_kept hmatch, List.flatMap_cons, Part.replaced, List.singleton_append, cut_kept hnone]
    simpa using ih rfl

/-- The new script does not use the namespace. -/
theorem usesNamespace_routed {package : String} (h : Quotable package) (s : List Char) :
    usesNamespace (shimImport package ++ routeReferences s) = false := by
  rw [usesNamespace, any_findAll namespaceReference_apart, lexemes_shimImport h,
    lexemes_routeReferences, cut_importLine, List.any_append, Bool.or_eq_false_iff,
    List.any_eq_false, List.any_eq_false]
  constructor
  · intro p hp
    obtain ⟨l, -, rfl⟩ := List.mem_map.1 hp
    exact Bool.false_ne_true
  · intro p hp
    cases p with
    | kept l => exact Bool.false_ne_true
    | found text =>
      exact absurd hp (@not_found_of_replaced none (some '\n') rfl (lexemes [] s) text)

/-! ### Routing twice -/

/-- The inert texts are kept. -/
theorem inertTexts_routeReferences (s : List Char) :
    inertTexts (segments (routeReferences s)) = inertTexts (segments s) := by
  rw [inertTexts_segments, inertTexts_segments, lexemes_routeReferences,
    ← flatMap_original_referenceParts, List.filterMap_flatMap, List.filterMap_flatMap]
  refine List.flatMap_congr fun p hp => ?_
  cases p with
  | kept l => rfl
  | found text =>
    rw [eq_of_mem_referenceParts hp]
    rfl

/-- The old script, part by part. -/
theorem flatMap_rendered_referenceParts (s : List Char) :
    (referenceParts s).flatMap (Part.rendered namespaceDot) = s := by
  have hpart : ∀ p ∈ referenceParts s, p.rendered namespaceDot = render p.original := by
    intro p hp
    cases p with
    | kept l => exact (List.append_nil _).symm
    | found text =>
      rw [Part.original, render_codes, eq_of_mem_referenceParts hp]
      rfl
  rw [List.flatMap_congr hpart]
  have hall : render ((referenceParts s).flatMap Part.original) =
      (referenceParts s).flatMap fun p => render p.original := List.flatMap_assoc
  rw [← hall, flatMap_original_referenceParts, render_lexemes]

/-- **Leading the namespace through a package is conservative, and is done once.** A script that
does not need the package is kept. Otherwise the line that imports the package comes first, and then
a body with the inert texts of the script, from which the script is recovered by deleting the name
of the import in front of what was found. Either way, doing it again changes nothing, and the
package is not needed any more. -/
theorem routeNamespace_stable {package : String} (h : Quotable package) (s : List Char) :
    ((routeNamespace package s).2 = false → (routeNamespace package s).1 = s) ∧
      ((routeNamespace package s).2 = true → ∃ (ps : List Part) (body : List Char),
        (routeNamespace package s).1 = "import * as denoShim from \"".toList ++
          package.toList ++ "\";\n".toList ++ body ∧
        inertTexts (segments body) = inertTexts (segments s) ∧
        ps.flatMap Part.original = lexemes [] s ∧
        body = ps.flatMap (Part.rendered (importDot ++ namespaceDot)) ∧
        s = ps.flatMap (Part.rendered namespaceDot)) ∧
      routeNamespace package (routeNamespace package s).1 =
        ((routeNamespace package s).1, false) := by
  have hagain : ∀ u, usesNamespace u = false → routeNamespace package u = (u, false) := by
    intro u hu
    rw [routeNamespace, if_neg (by rw [hu]; decide)]
  cases huses : usesNamespace s with
  | false =>
    rw [hagain s huses]
    exact ⟨fun _ => rfl, fun hused => absurd hused Bool.false_ne_true, hagain s huses⟩
  | true =>
    have hroute : routeNamespace package s = (shimImport package ++ routeReferences s, true) := by
      rw [routeNamespace, if_pos huses]
    rw [hroute]
    refine ⟨fun hused => absurd hused.symm Bool.false_ne_true, fun _ => ?_,
      hagain _ (usesNamespace_routed h s)⟩
    refine ⟨referenceParts s, routeReferences s, ?_, inertTexts_routeReferences s,
      flatMap_original_referenceParts s, routeReferences_eq_parts s,
      (flatMap_rendered_referenceParts s).symm⟩
    rw [shimImport_eq]

/-- A script with a reference in its code, one in a string and one in a nested template. -/
theorem routeNamespace_stable_nested :
    Quotable "deno.ns" ∧ ∃ s : List Char,
      s = "f(Deno.args, \"Deno.\", \x60Deno.$\x7bDeno.cwd()\x7d\x60);\n".toList ∧
      (routeNamespace "deno.ns" s).2 = true ∧
      routeNamespace "deno.ns" (routeNamespace "deno.ns" s).1 =
        ((routeNamespace "deno.ns" s).1, false) :=
  have h : Quotable "deno.ns" := by simp [Quotable]
  ⟨h, _, rfl, by decide +kernel, (routeNamespace_stable h _).2.2⟩

end DenoPackager.Source

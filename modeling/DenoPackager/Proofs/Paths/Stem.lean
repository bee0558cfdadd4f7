import DenoPackager.EntryPoint
import DenoPackager.Proofs.Links.Way
import DenoPackager.TestLauncher
import DenoPackager.Tools
import Mathlib.Data.List.TakeWhile

/-!
# Stems

A name is a stem and an extension. The compiler keeps the stem and puts an extension of its own
after it, so files that lie in one directory under names with one stem are compiled to the same
file. A specifier keeps the stem as well, if the extension is that of a script.

The names of scripts in the manifest and in the launcher are made in another way: only a final
`.ts` or `.tsx` is replaced. The two ways agree on these and on `.js`.

## Main definitions

* `stemName`, `extensionName`: the two parts of a name.
* `Path.SameStem`: two paths in one directory with one stem.
* `Path.IsScript`: paths with the extension of a script.
* `Path.IsPlain`: paths whose script is named in both ways alike.
* `IsBelow`: texts that name something below a directory.

## Main results

* `compiledName?_text`: what a file is compiled to.
* `IsBelow.parts_compiledName?`: where it is compiled to.
* `scriptPath_text`: the name of a script in the manifest.
* `scriptName_eq_iff`: which names become one in specifiers.
* `toScriptName_eq_iff`: where the two ways to name a script agree.
-/

namespace DenoPackager

namespace Text

variable {name stem e : List Char}

/-! ### Where a name is cut -/

/-- A name with something other than dots before its last dot is cut there. -/
theorem splitNameExtension_of_stem (hstem : ∃ c ∈ stem, c ≠ '.') (he : '.' ∉ e) :
    splitNameExtension (stem ++ '.' :: e) = (stem, '.' :: e) := by
  have hdrop : (stem ++ '.' :: e).dropWhile (· = '.') = stem.dropWhile (· = '.') ++ '.' :: e := by
    rw [List.dropWhile_append, if_neg]
    rw [List.isEmpty_iff, List.dropWhile_eq_nil_iff]
    intro hall
    obtain ⟨c, hc, hne⟩ := hstem
    exact hne (by simpa using hall c hc)
  have htake : (stem ++ '.' :: e).takeWhile (· = '.') = stem.takeWhile (· = '.') := by
    have happend := List.takeWhile_append_dropWhile (p := (· = '.')) (l := stem ++ '.' :: e)
    rw [hdrop] at happend
    refine List.append_cancel_right (happend.trans ?_)
    rw [← List.append_assoc, List.takeWhile_append_dropWhile]
  simp only [splitNameExtension, htake, hdrop, splitLast?_append he,
    List.takeWhile_append_dropWhile]

/-- **A name is cut** at its last dot, if something other than dots stands before it, and nowhere
else. -/
theorem splitNameExtension_cases (name : List Char) :
    splitNameExtension name = (name, []) ∨
      ∃ stem e, name = stem ++ '.' :: e ∧ '.' ∉ e ∧ (∃ c ∈ stem, c ≠ '.') ∧
        splitNameExtension name = (stem, '.' :: e) := by
  cases hlast : splitLast? '.' (name.dropWhile (· = '.')) with
  | none =>
    left
    simp only [splitNameExtension, hlast]
  | some cut =>
    right
    obtain ⟨inner, e⟩ := cut
    obtain ⟨hdrop, he⟩ := splitLast?_eq_some hlast
    have hhead := List.head?_dropWhile_not (fun c : Char => decide (c = '.')) name
    rw [hdrop] at hhead
    obtain ⟨c, cs, rfl⟩ : ∃ c cs, inner = c :: cs := by
      refine List.exists_cons_of_ne_nil fun hnil => ?_
      rw [hnil] at hhead
      simp at hhead
    have hc : c ≠ '.' := by simpa using hhead
    refine ⟨name.takeWhile (· = '.') ++ c :: cs, e, ?_, he, ⟨c, by simp, hc⟩, ?_⟩
    · rw [List.append_assoc, ← hdrop, List.takeWhile_append_dropWhile]
    · simp only [splitNameExtension, hlast]

/-- Without a slash, a path is a name. -/
theorem splitExtension_of_name (h : '/' ∉ name) : splitExtension name = splitNameExtension name := by
  rw [splitExtension, splitLast?_of_not_mem h]

/-- Only the last name of a path has an extension. -/
theorem splitExtension_append_name (h : '/' ∉ name) (dir : List Char) :
    splitExtension (dir ++ '/' :: name) =
      (dir ++ '/' :: (splitNameExtension name).1, (splitNameExtension name).2) := by
  rw [splitExtension, splitLast?_append h]

/-! ### The other way to name a script -/

/-- A dot or a slash is no letter. -/
theorem not_mark_of_isLetter {letter c : Char} (hletter : letter ∈ ['t', 's', 'x'])
    (h : isLetter letter c = true) : c ≠ '.' ∧ c ≠ '/' := by
  have hmarks : ∀ l ∈ ['t', 's', 'x'], isLetter l '.' = false ∧ isLetter l '/' = false := by
    rw [List.forall_mem_cons, List.forall_mem_cons, List.forall_mem_singleton]
    decide
  obtain ⟨hdot, hslash⟩ := hmarks letter hletter
  refine ⟨?_, ?_⟩
  · rintro rfl
    rw [hdot] at h
    exact absurd h (by decide)
  · rintro rfl
    rw [hslash] at h
    exact absurd h (by decide)

/-- **What may stand after an ending** is nothing, or a line feed. -/
theorem lineEnd?_eq_some {s tail : List Char} (h : lineEnd? s = some tail) :
    s = tail ∧ (tail = [] ∨ tail = ['\n']) := by
  rw [lineEnd?.eq_def] at h
  split at h
  · obtain rfl := Option.some.inj h
    exact ⟨rfl, .inl rfl⟩
  · obtain rfl := Option.some.inj h
    exact ⟨rfl, .inr rfl⟩
  · simp at h

/-- **What a final `.ts` or `.tsx` consists of**: one dot, letters, and perhaps a line feed. -/
theorem typeScriptTail?_eq_some {s tail : List Char} (h : typeScriptTail? s = some tail) :
    ∃ e, s = '.' :: (e ++ tail) ∧ (∀ c ∈ e ++ tail, c ≠ '.' ∧ c ≠ '/') ∧
      (tail = [] ∨ tail = ['\n']) := by
  have hts : ∀ {t s : Char}, (isLetter 't' t && isLetter 's' s) = true →
      ∀ c ∈ [t, s], c ≠ '.' ∧ c ≠ '/' := by
    intro t s h
    obtain ⟨ht, hs⟩ := Bool.and_eq_true_iff.1 h
    rw [List.forall_mem_cons, List.forall_mem_singleton]
    exact ⟨not_mark_of_isLetter (by decide) ht, not_mark_of_isLetter (by decide) hs⟩
  have hx : ∀ {x : Char}, isLetter 'x' x = true → x ≠ '.' ∧ x ≠ '/' :=
    not_mark_of_isLetter (by decide)
  have hend : ∀ {more : List Char}, lineEnd? more = some tail → ∀ c ∈ tail, c ≠ '.' ∧ c ≠ '/' := by
    intro more hmore
    rcases (lineEnd?_eq_some hmore).2 with rfl | rfl <;> simp
  rw [typeScriptTail?.eq_def] at h
  split at h
  · rename_i t s rest
    split at h
    · rename_i hl
      split at h
      · obtain rfl := Option.some.inj h
        exact ⟨[t, s], rfl, by simpa using hts hl, .inl rfl⟩
      · rename_i x more
        split at h
        · rename_i hxs
          obtain ⟨rfl, htail⟩ := lineEnd?_eq_some h
          refine ⟨[t, s, x], rfl, fun c hc => ?_, htail⟩
          rcases List.mem_append.1 hc with hc | hc
          · have hletters : ∀ c ∈ [t, s, x], c ≠ '.' ∧ c ≠ '/' := by
              simpa [hx hxs] using hts hl
            exact hletters c hc
          · exact hend h c hc
        · obtain ⟨rfl, htail⟩ := lineEnd?_eq_some h
          refine ⟨[t, s], rfl, fun c hc => ?_, htail⟩
          rcases List.mem_append.1 hc with hc | hc
          · exact hts hl c hc
          · exact hend h c hc
    · simp at h
  · simp at h

/-- **The other way to name a script** keeps a name, or replaces what it ends in. -/
theorem toScriptName_cases (s : List Char) :
    toScriptName s = s ∨ ∃ stem e tail, s = stem ++ e ∧ typeScriptTail? e = some tail ∧
      toScriptName s = stem ++ (".js".toList ++ tail) := by
  induction s with
  | nil => exact .inl rfl
  | cons c cs ih =>
    rw [toScriptName]
    cases htail : typeScriptTail? (c :: cs) with
    | some tail => exact .inr ⟨[], c :: cs, tail, rfl, htail, rfl⟩
    | none =>
      rcases ih with hkept | ⟨stem, e, tail, hcs, htail, hmade⟩
      · exact .inl (congrArg _ hkept)
      · exact .inr ⟨c :: stem, e, tail, congrArg _ hcs, htail, congrArg _ hmade⟩

/-- What stands before a dot or a slash plays no role. -/
theorem toScriptName_append {mark : Char} (hmark : mark = '.' ∨ mark = '/') (before : List Char)
    (s : List Char) : toScriptName (before ++ mark :: s) = before ++ toScriptName (mark :: s) := by
  induction before with
  | nil => rfl
  | cons c cs ih =>
    have hnone : typeScriptTail? (c :: (cs ++ mark :: s)) = none := by
      refine Option.eq_none_iff_forall_not_mem.2 fun tail htail => ?_
      obtain ⟨e, heq, hplain, -⟩ := typeScriptTail?_eq_some htail
      rw [List.cons.injEq] at heq
      have hmem : mark ∈ e ++ tail := heq.2 ▸ List.mem_append_right cs List.mem_cons_self
      obtain ⟨hdot, hslash⟩ := hplain mark hmem
      exact hmark.elim hdot hslash
    rw [List.cons_append, toScriptName, hnone, ih]
    rfl

/-- Only the last name of a path is made the name of a script. -/
theorem toScriptName_append_name (dir name : List Char) :
    toScriptName (dir ++ '/' :: name) = dir ++ '/' :: toScriptName name := by
  have hnone : typeScriptTail? ('/' :: name) = none := rfl
  rw [toScriptName_append (.inr rfl), toScriptName, hnone]

/-- An extension that names a plain script: `.js`, or `.ts` or `.tsx` in any case. -/
def IsPlainExtension (e : List Char) : Prop :=
  e = ".js".toList ∨ typeScriptTail? e = some []

instance (e : List Char) : Decidable (IsPlainExtension e) :=
  inferInstanceAs (Decidable (_ ∨ _))

/-- **Where the two ways to name a script agree**: at plain scripts. -/
theorem toScriptName_eq_iff (hstem : ∃ c ∈ stem, c ≠ '.') :
    toScriptName name = stem ++ ".js".toList ↔
      (splitNameExtension name).1 = stem ∧ IsPlainExtension (splitNameExtension name).2 := by
  constructor
  · intro heq
    rcases toScriptName_cases name with hkept | ⟨before, e, tail, hname, htail, hmade⟩
    · have hcut : splitNameExtension name = (stem, ".js".toList) := by
        rw [← hkept, heq]
        exact splitNameExtension_of_stem hstem (by decide)
      rw [hcut]
      exact ⟨rfl, .inl rfl⟩
    · obtain ⟨inner, rfl, hplain, hnil | hline⟩ := typeScriptTail?_eq_some htail
      · subst hnil
        rw [hmade, List.append_nil, List.append_cancel_right_eq] at heq
        subst heq
        have hcut := splitNameExtension_of_stem hstem
          (fun hdot => (hplain '.' hdot).1 rfl : '.' ∉ inner ++ [])
        rw [hname, hcut]
        exact ⟨rfl, .inr htail⟩
      · -- a line feed stays, and no script ends in one
        rw [hmade, hline, ← List.append_assoc] at heq
        have hlast := congrArg List.getLast? heq
        simp at hlast
  · rintro ⟨rfl, hplain⟩
    rcases splitNameExtension_cases name with hwhole | ⟨stem, e, hname, he, -, hcut⟩
    · rw [hwhole] at hplain
      rcases hplain with hplain | hplain
      · simp at hplain
      · exact absurd (show typeScriptTail? [] = some [] from hplain) (by decide)
    · rw [hcut] at hplain ⊢
      rw [hname, toScriptName_append (.inl rfl)]
      refine congrArg _ ?_
      rcases hplain with hjs | hts
      · rw [show '.' :: e = ".js".toList from hjs]
        decide
      · rw [toScriptName, show typeScriptTail? ('.' :: e) = some [] from hts]
        exact List.append_nil _

end Text

/-! ### Names -/

open DenoPackager.Path (ProperPart)
open Source (scriptName)

variable {name other : String} {dirs : List String}

/-- **The stem** of a name: what stands before its extension. -/
def stemName (name : String) : String :=
  String.ofList (Text.splitNameExtension name.toList).1

/-- **The extension** of a name. -/
def extensionName (name : String) : List Char :=
  (Text.splitNameExtension name.toList).2

/-- The stem and the extension make up the name. -/
theorem stemName_append (name : String) :
    (stemName name).toList ++ extensionName name = name.toList := by
  rw [stemName, String.toList_ofList, extensionName, Text.splitNameExtension_append]

/-- A name that has an extension has something other than dots before it. -/
theorem exists_of_extensionName_ne (h : extensionName name ≠ []) :
    ∃ c ∈ (stemName name).toList, c ≠ '.' := by
  rw [extensionName] at h
  rw [stemName, String.toList_ofList]
  rcases Text.splitNameExtension_cases name.toList with hwhole | ⟨stem, e, -, -, hstem, hcut⟩
  · rw [hwhole] at h
    exact absurd rfl h
  · rw [hcut]
    exact hstem

/-- The stem of a name that is not made of dots alone is not made of dots alone. -/
theorem exists_mem_stemName (h : ∃ c ∈ name.toList, c ≠ '.') :
    ∃ c ∈ (stemName name).toList, c ≠ '.' := by
  by_cases hnil : extensionName name = []
  · have hwhole := stemName_append name
    rw [hnil, List.append_nil] at hwhole
    rwa [hwhole]
  · exact exists_of_extensionName_ne hnil

/-- A name is told by its stem and what was put after it. -/
theorem stemName_append_inj {e : String} : stemName name ++ e = stemName other ++ e ↔
    stemName name = stemName other := by
  rw [← String.toList_inj, String.toList_append, String.toList_append, List.append_cancel_right_eq,
    String.toList_inj]

/-- A proper name with another extension is a proper name. -/
theorem properPart_stemName_append (h : ProperPart name) {e : String} (he : '/' ∉ e.toList)
    (hlen : 2 < e.length) : ProperPart (stemName name ++ e) := by
  have hlong : 2 < (stemName name ++ e).length := by
    rw [String.length_append]
    omega
  refine ⟨fun heq => ?_, fun heq => ?_, ?_⟩
  · rw [heq] at hlong
    exact absurd hlong (by decide)
  · rw [heq] at hlong
    exact absurd hlong (by decide)
  · rw [String.toList_append, List.mem_append, not_or]
    refine ⟨fun hmem => h.2.2 ?_, he⟩
    rw [← stemName_append]
    exact List.mem_append_left _ hmem

/-! ### What a name becomes in a specifier -/

/-- Whether a name has the extension of a script. -/
def IsScriptName (name : String) : Prop :=
  Text.lowerAscii (extensionName name) ∈ Source.scriptExtensions

instance (name : String) : Decidable (IsScriptName name) :=
  inferInstanceAs (Decidable (_ ∈ _))

/-- The name of a script in a specifier, told by its stem. -/
theorem scriptName_eq_ite (h : ProperPart name) :
    scriptName name = if IsScriptName name then stemName name ++ ".js" else name := by
  rw [← String.toList_inj, scriptName, String.toList_ofList, Source.withScriptExtension,
    Text.splitExtension_of_name h.2.2]
  by_cases hscript : IsScriptName name
  · have hstem : (stemName name).toList = (Text.splitNameExtension name.toList).1 :=
      String.toList_ofList
    rw [if_pos hscript, String.toList_append, hstem]
    exact if_pos hscript
  · rw [if_neg hscript]
    exact if_neg hscript

/-- What is made of the name of a script is the name of a script. -/
theorem isScriptName_stemName_append (h : IsScriptName name) :
    IsScriptName (stemName name ++ ".js") := by
  have hne : extensionName name ≠ [] := by
    intro hnil
    rw [IsScriptName, hnil] at h
    exact absurd h (by decide)
  have hcut : extensionName (stemName name ++ ".js") = ".js".toList := by
    rw [extensionName, String.toList_append,
      show ".js".toList = '.' :: "js".toList from rfl,
      Text.splitNameExtension_of_stem (exists_of_extensionName_ne hne) (by decide)]
  rw [IsScriptName, hcut]
  decide

/-- **Which names become one** in specifiers: those of scripts with one stem. -/
theorem scriptName_eq_iff (hname : ProperPart name) (hother : ProperPart other)
    (hne : name ≠ other) : scriptName name = scriptName other ↔
      stemName name = stemName other ∧ IsScriptName name ∧ IsScriptName other := by
  rw [scriptName_eq_ite hname, scriptName_eq_ite hother]
  by_cases hn : IsScriptName name
  · by_cases ho : IsScriptName other
    · rw [if_pos hn, if_pos ho, stemName_append_inj]
      exact ⟨fun heq => ⟨heq, hn, ho⟩, And.left⟩
    · rw [if_pos hn, if_neg ho]
      refine ⟨fun heq => ?_, fun h => absurd h.2.2 ho⟩
      exact absurd (heq ▸ isScriptName_stemName_append hn) ho
  · by_cases ho : IsScriptName other
    · rw [if_neg hn, if_pos ho]
      refine ⟨fun heq => ?_, fun h => absurd h.2.1 hn⟩
      exact absurd (heq ▸ isScriptName_stemName_append ho) hn
    · rw [if_neg hn, if_neg ho]
      exact ⟨fun heq => absurd heq hne, fun h => absurd h.2.1 hn⟩

/-! ### What a name becomes in the manifest -/

/-- The name of a script in the manifest is the name itself, or a long one. -/
theorem scriptPath_eq_or_long (name : String) :
    EntryPoint.scriptPath name = name ∨ 2 < (EntryPoint.scriptPath name).length := by
  rw [← String.toList_inj, ← String.length_toList, EntryPoint.scriptPath, String.toList_ofList]
  rcases Text.toScriptName_cases name.toList with hkept | ⟨stem, e, tail, -, -, hmade⟩
  · exact .inl hkept
  · right
    rw [hmade, List.length_append, List.length_append]
    exact Nat.lt_add_left _ (Nat.lt_add_right _ (by decide))

/-- No other name becomes a double dot. -/
theorem scriptPath_eq_up (h : EntryPoint.scriptPath name = Path.up) : name = Path.up := by
  rcases scriptPath_eq_or_long name with hkept | hlong
  · exact hkept.symm.trans h
  · rw [h] at hlong
    exact absurd hlong (by decide)

/-- The name of a script in the manifest is a proper name. -/
theorem properPart_scriptPath (h : ProperPart name) : ProperPart (EntryPoint.scriptPath name) := by
  rcases scriptPath_eq_or_long name with hkept | hlong
  · rwa [hkept]
  · refine ⟨fun heq => ?_, fun heq => ?_, ?_⟩
    · rw [heq] at hlong
      exact absurd hlong (by decide)
    · rw [heq] at hlong
      exact absurd hlong (by decide)
    · have hslash := h.2.2
      rw [EntryPoint.scriptPath, String.toList_ofList]
      rcases Text.toScriptName_cases name.toList with hkept | ⟨stem, e, tail, hname, htail, hmade⟩
      · rwa [hkept]
      · obtain ⟨-, -, -, htail⟩ := Text.typeScriptTail?_eq_some htail
        rw [hname, List.mem_append, not_or] at hslash
        rw [hmade, List.mem_append, List.mem_append, not_or, not_or]
        refine ⟨hslash.1, by decide, ?_⟩
        rcases htail with rfl | rfl
        · decide
        · decide

/-- **Which names are named after a compiled one** in the manifest: those of plain scripts with the
same stem. -/
theorem scriptPath_eq_iff (hother : ∃ c ∈ other.toList, c ≠ '.') :
    EntryPoint.scriptPath name = stemName other ++ ".js" ↔
      stemName name = stemName other ∧ Text.IsPlainExtension (extensionName name) := by
  rw [← String.toList_inj, EntryPoint.scriptPath, String.toList_ofList, String.toList_append,
    Text.toScriptName_eq_iff (exists_mem_stemName hother), ← extensionName, ← String.toList_inj]
  simp only [stemName, String.toList_ofList]

/-- A name is named after what it is compiled to itself exactly if it is that of a plain script. -/
theorem scriptPath_eq_stemName_iff :
    EntryPoint.scriptPath name = stemName name ++ ".js" ↔
      Text.IsPlainExtension (extensionName name) := by
  by_cases hnil : extensionName name = []
  · have hwhole := stemName_append name
    rw [hnil, List.append_nil] at hwhole
    rw [hnil, ← String.toList_inj, EntryPoint.scriptPath, String.toList_ofList, String.toList_append,
      hwhole]
    refine iff_of_false (fun heq => ?_) (by decide)
    rcases Text.toScriptName_cases name.toList with hkept | ⟨stem, e, tail, hname, htail, hmade⟩
    · rw [hkept] at heq
      simp at heq
    · obtain ⟨inner, rfl, -, -⟩ := Text.typeScriptTail?_eq_some htail
      rw [hmade, hname] at heq
      have hlength := congrArg List.length heq
      simp only [List.length_append, List.length_cons] at hlength
      omega
  · obtain ⟨c, hc, hne⟩ := exists_of_extensionName_ne hnil
    rw [scriptPath_eq_iff]
    · exact and_iff_right rfl
    · refine ⟨c, ?_, hne⟩
      rw [← stemName_append]
      exact List.mem_append_left _ hc

/-! ### Paths -/

/-- The text of a relative path ends in its last name. -/
theorem toList_text_append (h : dirs ≠ []) (name : String) :
    (Path.text ⟨.none, dirs ++ [name]⟩).toList =
      (String.intercalate "/" dirs).toList ++ '/' :: name.toList := by
  rw [Path.text_relative (by simp), String.intercalate_append_of_ne_nil h (by simp),
    String.intercalate_singleton, String.toList_append, String.toList_append, List.append_assoc]
  rfl

/-- The text of a name is the name. -/
theorem text_name (name : String) : Path.text ⟨.none, [] ++ [name]⟩ = name := by
  rw [Path.text_relative (by simp), List.nil_append, String.intercalate_singleton]

/-- Whether a path ends in something without a slash is up to its last name. -/
theorem isSuffixOf_text {e : List Char} (he : '/' ∉ e) :
    e.isSuffixOf (Path.text ⟨.none, dirs ++ [name]⟩).toList = e.isSuffixOf name.toList := by
  by_cases hdirs : dirs = []
  · rw [hdirs, text_name]
  · rw [toList_text_append hdirs, Bool.eq_iff_iff, List.isSuffixOf_iff_suffix,
      List.isSuffixOf_iff_suffix]
    constructor
    · intro hsuffix
      rcases List.suffix_or_suffix_of_suffix hsuffix (List.suffix_append _ _) with h | h
      · rcases List.suffix_cons_iff.1 h with heq | h
        · exact absurd (heq ▸ List.mem_cons_self) he
        · exact h
      · exact absurd (h.subset List.mem_cons_self) he
    · intro h
      exact (h.trans (List.suffix_cons _ _)).trans (List.suffix_append _ _)

/-- **What a file is compiled to**: a file under the same stem, unless it ends in `.d.ts`. -/
theorem compiledName?_text (h : ProperPart name) (e : String) :
    compiledName? e (Path.text ⟨.none, dirs ++ [name]⟩) =
      if ".d.ts".toList.isSuffixOf name.toList then none
      else some (Path.text ⟨.none, dirs ++ [stemName name ++ e]⟩) := by
  rw [compiledName?, isSuffixOf_text (by decide)]
  refine if_congr Iff.rfl rfl (congrArg some ?_)
  rw [← String.toList_inj, String.toList_append, String.toList_ofList]
  by_cases hdirs : dirs = []
  · rw [hdirs, text_name, text_name, Text.splitExtension_of_name h.2.2, String.toList_append,
      stemName, String.toList_ofList]
  · rw [toList_text_append hdirs, toList_text_append hdirs, Text.splitExtension_append_name h.2.2,
      String.toList_append, stemName, String.toList_ofList, List.append_assoc, List.cons_append]

/-- **The name of a script in the manifest** is that of its last name. -/
theorem scriptPath_text (dirs : List String) (name : String) :
    EntryPoint.scriptPath (Path.text ⟨.none, dirs ++ [name]⟩) =
      Path.text ⟨.none, dirs ++ [EntryPoint.scriptPath name]⟩ := by
  by_cases hdirs : dirs = []
  · rw [hdirs, text_name, text_name]
  · rw [← String.toList_inj, EntryPoint.scriptPath, String.toList_ofList, toList_text_append hdirs,
      toList_text_append hdirs, Text.toScriptName_append_name, EntryPoint.scriptPath,
      String.toList_ofList]

/-! ### Files below a directory -/

/-- **What components were cut to**: some of them, and the beginning of the next one. -/
theorem exists_of_prefix_intercalate {cs : List String} (h : ∀ c ∈ cs, ProperPart c)
    {before : List Char} (hbefore : before <+: (String.intercalate "/" cs).toList) :
    ∃ ds b, ds ⊆ cs ∧ '/' ∉ b ∧
      ∀ e, String.ofList before ++ e = String.intercalate "/" (ds ++ [String.ofList b ++ e]) := by
  induction cs generalizing before with
  | nil =>
    have hnil : before = [] := List.prefix_nil.1 (by simpa using hbefore)
    exact ⟨[], [], List.nil_subset _, List.not_mem_nil, fun e => by simp [hnil]⟩
  | cons c cs ih =>
    have hslash : '/' ∉ c.toList := (h c List.mem_cons_self).2.2
    -- the cut is in the first component
    have hfirst : before <+: c.toList → ∃ ds b, ds ⊆ c :: cs ∧ '/' ∉ b ∧
        ∀ e, String.ofList before ++ e = String.intercalate "/" (ds ++ [String.ofList b ++ e]) :=
      fun hcut => ⟨[], before, List.nil_subset _, fun hmem => hslash (hcut.subset hmem),
        fun e => by simp⟩
    by_cases hcs : cs = []
    · rw [hcs, String.intercalate_singleton] at hbefore
      exact hfirst hbefore
    · rw [← List.singleton_append, String.intercalate_append_of_ne_nil (by simp) hcs,
        String.intercalate_singleton, String.toList_append, String.toList_append,
        List.append_assoc] at hbefore
      rcases List.prefix_or_prefix_of_prefix hbefore (List.prefix_append _ _) with hcut | ⟨t, rfl⟩
      · exact hfirst hcut
      · rw [List.prefix_append_right_inj, show "/".toList = ['/'] from rfl, List.singleton_append,
          List.prefix_cons_iff] at hbefore
        rcases hbefore with rfl | ⟨t, rfl, hrest⟩
        · exact hfirst (by simp)
        · obtain ⟨ds, b, hds, hb, hmade⟩ := ih (fun d hd => h d (List.mem_cons_of_mem c hd)) hrest
          refine ⟨c :: ds, b, List.cons_subset_cons c hds, hb, fun e => ?_⟩
          rw [List.cons_append, ← List.singleton_append (l := ds ++ _),
            String.intercalate_append_of_ne_nil (by simp) (by simp), ← hmade e,
            String.intercalate_singleton, ← String.toList_inj]
          simp

/-- **Texts that name something below a directory**, written as paths are. -/
structure IsBelow (name : String) : Prop where
  root : (Path.ofString name).root = .none
  ne_nil : (Path.ofString name).parts ≠ []
  up_not_mem : Path.up ∉ (Path.ofString name).parts
  text : (Path.ofString name).text = name

/-- Relative paths without a double dot name something below a directory. -/
theorem isBelow_text {parts : List String} (hproper : ∀ c ∈ parts, ProperPart c)
    (hne : parts ≠ []) (hup : Path.up ∉ parts) : IsBelow (Path.text ⟨.none, parts⟩) := by
  have hread : Path.ofString (Path.text ⟨.none, parts⟩) = ⟨.none, parts⟩ :=
    Path.ofString_text hproper
  refine ⟨?_, ?_, ?_, ?_⟩
  · rw [hread]
  · rw [hread]
    exact hne
  · rw [hread]
    exact hup
  · rw [hread]

namespace IsBelow

/-- Such a text is told by its parts. -/
theorem eq_text (h : IsBelow name) : name = Path.text ⟨.none, (Path.ofString name).parts⟩ := by
  rw [← h.root]
  exact h.text.symm

theorem parts_inj (h : IsBelow name) (h' : IsBelow other) :
    (Path.ofString name).parts = (Path.ofString other).parts ↔ name = other := by
  constructor
  · intro hparts
    rw [h.eq_text, hparts, ← h'.eq_text]
  · rintro rfl
    rfl

/-- What such a text adds to a path. -/
theorem joinText (h : IsBelow name) (dir : Path) :
    dir.joinText name = { dir with parts := dir.parts ++ (Path.ofString name).parts } := by
  rw [Path.joinText, Path.join, h.root]

/-- **Such a text consists of** the names of directories and a last name. -/
theorem exists_last (h : IsBelow name) : ∃ dirs last, (Path.ofString name).parts = dirs ++ [last] ∧
    (∀ c ∈ dirs ++ [last], ProperPart c) ∧ Path.up ∉ dirs ++ [last] ∧
      name = Path.text ⟨.none, dirs ++ [last]⟩ := by
  obtain ⟨dirs, last, hparts⟩ : ∃ dirs last, (Path.ofString name).parts = dirs ++ [last] :=
    ⟨_, _, (List.dropLast_concat_getLast h.ne_nil).symm⟩
  exact ⟨dirs, last, hparts, hparts ▸ Path.Proper.ofString name, hparts ▸ h.up_not_mem,
    hparts ▸ h.eq_text⟩

/-- Whether such a text ends in something without a slash is up to its last name. -/
theorem isSuffixOf_name (h : IsBelow name) {e : List Char} (he : '/' ∉ e) :
    e.isSuffixOf (Path.ofString name).name.toList = e.isSuffixOf name.toList := by
  obtain ⟨dirs, last, hparts, -, -, htext⟩ := h.exists_last
  have hname : (Path.ofString name).name = last := by
    rw [Path.name, hparts, List.getLast?_concat]
    rfl
  rw [hname, htext, isSuffixOf_text he]

/-- **Where a file is compiled to**: next to it, under a name with the same stem. -/
theorem parts_compiledName? (h : IsBelow name) {e made : String} (he : '/' ∉ e.toList)
    (hlen : 2 < e.length) (hmade : compiledName? e name = some made) :
    IsBelow made ∧ ∃ dirs last, (Path.ofString name).parts = dirs ++ [last] ∧
      (Path.ofString made).parts = dirs ++ [stemName last ++ e] := by
  obtain ⟨dirs, last, hparts, hproper, hup, htext⟩ := h.exists_last
  have hlast := hproper last (List.mem_append_right _ List.mem_cons_self)
  rw [List.mem_append, not_or] at hup
  rw [htext, compiledName?_text hlast, Option.ite_none_left_eq_some, Option.some.injEq] at hmade
  have hnew : ∀ c ∈ dirs ++ [stemName last ++ e], ProperPart c := by
    intro c hc
    rcases List.mem_append.1 hc with hc | hc
    · exact hproper c (List.mem_append_left _ hc)
    · rw [List.mem_singleton.1 hc]
      exact properPart_stemName_append hlast he hlen
  have hread : Path.ofString made = ⟨.none, dirs ++ [stemName last ++ e]⟩ := by
    rw [← hmade.2]
    exact Path.ofString_text hnew
  refine ⟨?_, dirs, last, hparts, by rw [hread]⟩
  rw [← hmade.2]
  refine isBelow_text hnew (by simp) ?_
  rw [List.mem_append, List.mem_singleton, not_or]
  refine ⟨hup.1, fun heq => ?_⟩
  have hlong := congrArg String.length heq
  rw [String.length_append, show Path.up.length = 2 from rfl] at hlong
  omega

/-- A text that names something below a directory may be cut, if something is put after it. -/
theorem of_prefix (h : IsBelow name) {before : List Char}
    (hbefore : before <+: name.toList) {e : String} (he : '/' ∉ e.toList) (hlen : 2 < e.length) :
    IsBelow (String.ofList before ++ e) := by
  have hproper : ∀ c ∈ (Path.ofString name).parts, ProperPart c := Path.Proper.ofString name
  rw [h.eq_text, Path.text_relative h.ne_nil] at hbefore
  obtain ⟨ds, b, hds, hb, hmade⟩ := exists_of_prefix_intercalate hproper hbefore
  have hlast : 2 < (String.ofList b ++ e).length := by
    rw [String.length_append]
    omega
  rw [hmade e, ← Path.text_relative (by simp)]
  refine isBelow_text ?_ (by simp) ?_
  · intro c hc
    rcases List.mem_append.1 hc with hc | hc
    · exact hproper c (hds hc)
    · rw [List.mem_singleton.1 hc]
      refine ⟨fun heq => ?_, fun heq => ?_, ?_⟩
      · rw [heq] at hlast
        exact absurd hlast (by decide)
      · rw [heq] at hlast
        exact absurd hlast (by decide)
      · rw [String.toList_append, String.toList_ofList, List.mem_append, not_or]
        exact ⟨hb, he⟩
  · rw [List.mem_append, List.mem_singleton, not_or]
    refine ⟨fun hmem => h.up_not_mem (hds hmem), fun heq => ?_⟩
    rw [← heq] at hlast
    exact absurd hlast (by decide)

end IsBelow

namespace Path

/-- **Two paths with one stem**, in one directory. -/
def SameStem (p q : Path) : Prop :=
  p.parent = q.parent ∧ stemName p.name = stemName q.name

instance (p q : Path) : Decidable (p.SameStem q) :=
  inferInstanceAs (Decidable (_ ∧ _))

/-- **A path with the extension of a script.** -/
def IsScript (p : Path) : Prop :=
  IsScriptName p.name

instance (p : Path) : Decidable p.IsScript :=
  inferInstanceAs (Decidable (IsScriptName _))

/-- **A path whose script is named in both ways alike.** -/
def IsPlain (p : Path) : Prop :=
  Text.IsPlainExtension (extensionName p.name)

instance (p : Path) : Decidable p.IsPlain :=
  inferInstanceAs (Decidable (Text.IsPlainExtension _))

end Path

end DenoPackager

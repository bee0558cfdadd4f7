import DenoPackager.Proofs.Paths.Normal
import DenoPackager.Transform.Walk

/-!
# The way from one file to another

The specifier that leads from one file of the output to another does not depend on the directory
that the output stands in: it climbs from the directory of the first file to the deepest one that
holds both, and goes down from there. Followed from the first file it leads to the second one,
with the extension of a script in place of its own.

## Main definitions

* `wayTo`: the specifier that climbs and goes down.
* `scriptName`: a name with the extension of a script.

## Main results

* `relativeSpecifier_eq`: the specifier between two files of the output.
* `ofString_wayTo`: a way is read back.
-/

namespace DenoPackager

namespace Text

variable {sep : Char}

/-- A text without a character has no last occurrence of it. -/
theorem splitLast?_of_not_mem {s : List Char} (h : sep ∉ s) : splitLast? sep s = none := by
  induction s with
  | nil => rfl
  | cons c cs ih =>
    rw [List.mem_cons, not_or] at h
    rw [splitLast?, ih h.2]
    exact if_neg (Ne.symm h.1)

/-- A text that cannot be cut at a character does not hold it. -/
theorem not_mem_of_splitLast?_eq_none {s : List Char} (h : splitLast? sep s = none) : sep ∉ s := by
  induction s with
  | nil => exact List.not_mem_nil
  | cons c cs ih =>
    rw [splitLast?] at h
    cases hcs : splitLast? sep cs with
    | some cut => simp [hcs] at h
    | none =>
      have hc : c ≠ sep := by simpa [hcs] using h
      rw [List.mem_cons, not_or]
      exact ⟨Ne.symm hc, ih hcs⟩

/-- The last occurrence of a character is the one that none follows. -/
theorem splitLast?_append {b : List Char} (h : sep ∉ b) (a : List Char) :
    splitLast? sep (a ++ sep :: b) = some (a, b) := by
  induction a with
  | nil =>
    rw [List.nil_append, splitLast?, splitLast?_of_not_mem h]
    exact if_pos rfl
  | cons c cs ih => rw [List.cons_append, splitLast?, ih]

end Text

namespace Source

open DenoPackager.Path (ProperPart)

variable {common climb dirs down : List String} {name : String}

/-! ### What two lists have in common -/

theorem dropCommon_append (p a b : List String) :
    dropCommon (p ++ a) (p ++ b) = dropCommon a b := by
  induction p with
  | nil => rfl
  | cons c cs ih =>
    rw [List.cons_append, List.cons_append, dropCommon, if_pos rfl, ih]

/-- **What is dropped** from both lists is the same. -/
theorem exists_common (a b : List String) :
    ∃ common, a = common ++ (dropCommon a b).1 ∧ b = common ++ (dropCommon a b).2 := by
  fun_induction dropCommon a b with
  | case1 as b bs ih =>
    obtain ⟨common, ha, hb⟩ := ih
    exact ⟨b :: common, congrArg _ ha, congrArg _ hb⟩
  | case2 a as b bs hne => exact ⟨[], rfl, rfl⟩
  | case3 as bs hnil => exact ⟨[], rfl, rfl⟩

/-- **How a file lies to a directory** that it is not on the way to: what they have in common ends at
a directory. -/
theorem exists_cut {file : List String} (h : ¬ file <+: dirs) : ∃ common climb down name,
    dirs = common ++ climb ∧ file = common ++ (down ++ [name]) ∧
      dropCommon climb (down ++ [name]) = (climb, down ++ [name]) := by
  obtain ⟨common, hclimb, hrest⟩ := exists_common dirs file
  rcases hcut : dropCommon dirs file with ⟨climb, rest⟩
  rw [hcut] at hclimb hrest
  have hne : rest ≠ [] := by
    rintro rfl
    rw [List.append_nil] at hrest
    exact h (hrest ▸ hclimb ▸ List.prefix_append _ _)
  obtain ⟨down, name, rfl⟩ : ∃ down name, rest = down ++ [name] :=
    ⟨_, _, (List.dropLast_concat_getLast hne).symm⟩
  rw [hclimb, hrest, dropCommon_append] at hcut
  exact ⟨common, climb, down, name, hclimb, hrest, hcut⟩

/-! ### Names of scripts -/

/-- **A name with the extension of a script**, if it had one before. -/
def scriptName (name : String) : String :=
  String.ofList (withScriptExtension name.toList)

/-- Only the last name of a path has an extension. -/
theorem withScriptExtension_append {s : List Char} (h : '/' ∉ s) (dir : List Char) :
    withScriptExtension (dir ++ '/' :: s) = dir ++ '/' :: withScriptExtension s := by
  simp only [withScriptExtension, Text.splitExtension, Text.splitLast?_append h,
    Text.splitLast?_of_not_mem h]
  split
  · rw [List.append_assoc, List.cons_append]
  · rfl

/-- **The extension of a path** is that of its last component. -/
theorem withScriptExtension_intercalate (dirs : List String) (h : ProperPart name) :
    withScriptExtension (String.intercalate "/" (dirs ++ [name])).toList =
      (String.intercalate "/" (dirs ++ [scriptName name])).toList := by
  by_cases hdirs : dirs = []
  · rw [hdirs, List.nil_append, List.nil_append, String.intercalate_singleton,
      String.intercalate_singleton, scriptName, String.toList_ofList]
  · have hcons : ∀ n : String, (String.intercalate "/" (dirs ++ [n])).toList =
        (String.intercalate "/" dirs).toList ++ '/' :: n.toList := by
      intro n
      rw [String.intercalate_append_of_ne_nil hdirs (by simp), String.intercalate_singleton,
        String.toList_append, String.toList_append, List.append_assoc]
      rfl
    rw [hcons, hcons, withScriptExtension_append h.2.2, scriptName, String.toList_ofList]

/-- The name of a script ends as the name did, or in the extension of a script. -/
theorem scriptName_eq (name : String) : scriptName name = name ∨
    ∃ stem ext, name.toList = stem ++ ext ∧ (scriptName name).toList = stem ++ ".js".toList := by
  by_cases hext : Text.lowerAscii (Text.splitExtension name.toList).2 ∈ scriptExtensions
  · refine .inr ⟨_, _, (Text.splitExtension_append name.toList).symm, ?_⟩
    rw [scriptName, String.toList_ofList, withScriptExtension]
    exact if_pos hext
  · refine .inl ?_
    have hsame : withScriptExtension name.toList = name.toList := if_neg hext
    rw [scriptName, hsame, String.ofList_toList]

/-- The name of a script is a proper component. -/
theorem properPart_scriptName (h : ProperPart name) : ProperPart (scriptName name) := by
  rcases scriptName_eq name with heq | ⟨stem, ext, hname, hscript⟩
  · rw [heq]
    exact h
  · have hslash : '/' ∉ stem := fun hmem =>
      h.2.2 (hname ▸ List.mem_append_left ext hmem)
    refine ⟨fun heq => ?_, fun heq => ?_, ?_⟩
    · rw [heq] at hscript
      simpa using congrArg List.length hscript
    · rw [heq] at hscript
      simpa using congrArg List.length hscript
    · rw [hscript, List.mem_append, not_or]
      exact ⟨hslash, by decide⟩

/-- The name of a script is no double dot. -/
theorem scriptName_ne_up (h : name ≠ Path.up) : scriptName name ≠ Path.up := by
  rcases scriptName_eq name with heq | ⟨stem, ext, -, hscript⟩
  · rw [heq]
    exact h
  · intro heq
    rw [heq] at hscript
    have hlast := congrArg List.getLast? hscript
    simp [Path.up] at hlast

/-- The components of a script's path are proper, as those of its module's path are. -/
theorem properPart_script (h : ∀ c ∈ dirs ++ [name], ProperPart c) :
    ∀ c ∈ dirs ++ [scriptName name], ProperPart c := by
  intro c hc
  rcases List.mem_append.1 hc with hc | hc
  · exact h c (List.mem_append_left _ hc)
  · rw [List.mem_singleton.1 hc]
    exact properPart_scriptName (h name (List.mem_append_right _ List.mem_cons_self))

/-- There is no double dot in a script's path, if there is none in its module's. -/
theorem up_not_mem_script (h : Path.up ∉ dirs ++ [name]) :
    Path.up ∉ dirs ++ [scriptName name] := by
  rw [List.mem_append, List.mem_singleton, not_or] at h ⊢
  exact ⟨h.1, Ne.symm (scriptName_ne_up (Ne.symm h.2))⟩

/-! ### Ways -/

/-- **A way** that climbs some directories and goes down from there. -/
def wayTo (climbs : Nat) (down : List String) : String :=
  if climbs = 0 then "./" ++ String.intercalate "/" down
  else String.intercalate "/" (List.replicate climbs Path.up ++ down)

/-- The components of a way are proper. -/
theorem properPart_of_mem_way (climbs : Nat) (h : ∀ c ∈ down, ProperPart c) :
    ∀ c ∈ List.replicate climbs Path.up ++ down, ProperPart c := by
  intro c hc
  rcases List.mem_append.1 hc with hc | hc
  · rw [(List.mem_replicate.1 hc).2]
    exact Path.properPart_up
  · exact h c hc

/-- **A way is read back.** -/
theorem ofString_wayTo (climbs : Nat) (h : ∀ c ∈ down, ProperPart c) :
    Path.ofString (wayTo climbs down) = ⟨.none, List.replicate climbs Path.up ++ down⟩ := by
  rw [wayTo]
  split
  · rename_i hzero
    have htext : ("./" ++ String.intercalate "/" down).toList =
        ['.'] ++ '/' :: (String.intercalate "/" down).toList := String.toList_append
    have hdot : Path.components ['.'] = [] := by decide
    have hroot : Path.rootOf (['.'] ++ '/' :: (String.intercalate "/" down).toList) = .none := rfl
    rw [Path.ofString, htext, hroot, Path.components_append, hdot, Path.components_intercalate h,
      hzero]
    rfl
  · exact Path.ofString_intercalate (properPart_of_mem_way climbs h)

/-- A relative specifier starts with a dot or two, and a slash. -/
theorem isRelative_iff {s : String} :
    isRelative s = true ↔ "./".toList <+: s.toList ∨ "../".toList <+: s.toList := by
  have hstart (start : List Char) :
      Text.startsWith start s.toList = true ↔ start <+: s.toList := by
    rw [Text.startsWith, Option.isSome_iff_exists]
    exact exists_congr fun rest => Text.afterStart?_eq_some_iff.trans eq_comm
  rw [isRelative, Bool.or_eq_true, hstart, hstart]

/-- What starts like a relative specifier has a dot or a double dot in front of its first slash. -/
theorem exists_of_isRelative {s : String} (h : isRelative s = true) :
    ∃ first rest, (first = "." ∨ first = Path.up) ∧ s.toList = first.toList ++ '/' :: rest := by
  obtain ⟨rest, hrest⟩ | ⟨rest, hrest⟩ := isRelative_iff.1 h
  · exact ⟨".", rest, .inl rfl, hrest.symm⟩
  · exact ⟨Path.up, rest, .inr rfl, hrest.symm⟩

/-- A way that only goes down has to be told from the name of a package. -/
theorem isRelative_down (h : ∀ c ∈ down, ProperPart c) (hup : Path.up ∉ down) :
    isRelative (String.intercalate "/" down) = false := by
  rw [Bool.eq_false_iff]
  intro hrel
  obtain ⟨first, rest, hfirst, htext⟩ := exists_of_isRelative hrel
  have hslash : '/' ∉ first.toList := by
    rcases hfirst with rfl | rfl
    · decide
    · decide
  cases down with
  | nil =>
    rw [String.intercalate_nil] at htext
    simpa using congrArg List.length htext
  | cons d ds =>
    have hsplit := Path.splitOn_intercalate h (by simp)
    rw [htext, Text.splitOn_append, Text.splitOn_of_not_mem hslash, List.map_cons,
      List.singleton_append, List.cons.injEq] at hsplit
    have hd : first = d := String.toList_inj.1 hsplit.1
    rcases hfirst with rfl | rfl
    · exact (h d List.mem_cons_self).2.1 hd.symm
    · exact hup (hd ▸ List.mem_cons_self)

/-- A way that climbs is told by its first double dot. -/
theorem isRelative_climb (climbs : Nat) (hne : down ≠ []) :
    isRelative (String.intercalate "/" (List.replicate (climbs + 1) Path.up ++ down)) = true := by
  have hrest : List.replicate climbs Path.up ++ down ≠ [] := by simp [hne]
  have htext : (String.intercalate "/" (List.replicate (climbs + 1) Path.up ++ down)).toList =
      "../".toList ++ (String.intercalate "/" (List.replicate climbs Path.up ++ down)).toList := by
    rw [List.replicate_succ, List.cons_append, String.intercalate_cons_of_ne_nil hrest,
      String.toList_append]
    rfl
  exact isRelative_iff.2 (.inr ⟨_, htext.symm⟩)

/-! ### The specifier between two files -/

/-- The directory of a file is read back. -/
theorem ofString_directoryText (h : ∀ c ∈ dirs ++ [name], ProperPart c) :
    Path.ofString (directoryText (Path.text ⟨.none, dirs ++ [name]⟩)) = ⟨.none, dirs⟩ := by
  have hname : ProperPart name := h name (List.mem_append_right dirs List.mem_cons_self)
  have hdirs : ∀ c ∈ dirs, ProperPart c := fun c hc => h c (List.mem_append_left _ hc)
  rw [Path.text_relative (by simp), directoryText]
  by_cases hne : dirs = []
  · rw [hne, List.nil_append, String.intercalate_singleton,
      Text.splitLast?_of_not_mem hname.2.2]
    rfl
  · have htext : (String.intercalate "/" (dirs ++ [name])).toList =
        (String.intercalate "/" dirs).toList ++ '/' :: name.toList := by
      rw [String.intercalate_append_of_ne_nil hne (by simp), String.intercalate_singleton,
        String.toList_append, String.toList_append, List.append_assoc]
      rfl
    have hhead : ((String.intercalate "/" dirs).toList ++ ['/']).head? ≠ some '/' := by
      have hwhole := Path.head?_intercalate h
      rw [htext] at hwhole
      simpa [List.head?_append] using hwhole
    have hroot := Path.rootOf_append .none hhead
    rw [Path.rootText, String.toList_empty, List.nil_append] at hroot
    have hnil : Path.components [] = [] := by decide
    rw [htext, Text.splitLast?_append hname.2.2, Path.ofString, String.toList_ofList, hroot,
      Path.components_append, hnil, List.append_nil, Path.components_intercalate hdirs]

/-- What a relative path without a double dot means, seen from a directory. -/
theorem absolute_relative (cwd : Path) {cs : List String} (h : Path.up ∉ cs) :
    ((⟨.none, cs⟩ : Path).absolute cwd).parts =
      Path.normalParts cwd.isAbsolute cwd.parts ++ cs :=
  Path.normalParts_append h

/-- The way between two places below a directory does not depend on the directory. -/
theorem wayBetween_append (p a b : List String) :
    wayBetween (p ++ a) (p ++ b) = wayBetween a b := by
  rw [wayBetween, wayBetween, dropCommon_append]

/-- **The specifier between two files** of the output, whose directories have nothing in common
but `common`: it does not depend on that, nor on the directory that the output stands in. -/
theorem relativeSpecifier_eq (cwd : Path) {sourceName : String}
    (hsource : Path.Proper ⟨.none, common ++ climb ++ [sourceName]⟩)
    (htarget : Path.Proper ⟨.none, common ++ (dirs ++ [name])⟩)
    (hclimbUp : Path.up ∉ climb) (htargetUp : Path.up ∉ dirs ++ [name])
    (hcut : dropCommon climb (dirs ++ [name]) = (climb, dirs ++ [name])) :
    relativeSpecifier cwd (Path.text ⟨.none, common ++ climb ++ [sourceName]⟩)
      (Path.text ⟨.none, common ++ (dirs ++ [name])⟩) =
        wayTo climb.length (dirs ++ [scriptName name]) := by
  have hname : ProperPart name := htarget name (by simp)
  have hdown : ∀ c ∈ dirs ++ [scriptName name], ProperPart c :=
    properPart_script fun c hc => htarget c (List.mem_append_right _ hc)
  have hdownUp : Path.up ∉ dirs ++ [scriptName name] :=
    up_not_mem_script htargetUp
  have hseen {cs : List String} (hup : Path.up ∉ cs) :
      ((⟨.none, common ++ cs⟩ : Path).absolute cwd).parts =
        ((⟨.none, common⟩ : Path).absolute cwd).parts ++ cs :=
    congrArg Path.parts (Path.absolute_append (p := ⟨.none, common⟩) hup)
  have hway : wayBetween climb (dirs ++ [name]) =
      List.replicate climb.length Path.up ++ dirs ++ [name] := by
    rw [wayBetween, hcut]
    simp only [List.map_const', List.append_assoc]
  have htext : wayText (List.replicate climb.length Path.up ++ dirs ++ [name]) =
      String.intercalate "/" (List.replicate climb.length Path.up ++ dirs ++ [name]) := by
    rw [wayText]
    intro h
    simp at h
  rw [relativeSpecifier, ofString_directoryText hsource, Path.ofString_text htarget,
    hseen hclimbUp, hseen htargetUp, wayBetween_append, hway, htext,
    withScriptExtension_intercalate _ hname, String.ofList_toList, wayTo, List.append_assoc]
  cases climb with
  | nil =>
    rw [List.length_nil, List.replicate_zero, List.nil_append, isRelative_down hdown hdownUp]
    rfl
  | cons c cs =>
    rw [List.length_cons, isRelative_climb cs.length (by simp)]
    rfl

end Source

namespace Transform

/-- **A way leads** from a file to where it climbs and goes down. -/
theorem target_wayTo {common climb down : List String} {name : String}
    (hdown : ∀ c ∈ down, Path.ProperPart c) (hclimbUp : Path.up ∉ common ++ climb)
    (hdownUp : Path.up ∉ down) :
    Module.target ⟨.none, common ++ climb ++ [name]⟩ (Source.wayTo climb.length down) =
      ⟨.none, common ++ down⟩ := by
  have hparent : (⟨.none, common ++ climb ++ [name]⟩ : Path).parent =
      ⟨.none, common ++ climb⟩ := by
    rw [Path.parent, List.dropLast_concat]
  rw [Module.target, hparent, Path.joinText, Source.ofString_wayTo climb.length hdown, Path.join,
    Path.normal, Path.normalParts_climb hclimbUp hdownUp]

end Transform

end DenoPackager

import DenoPackager.Proofs.Links.Way

/-!
# Where a specifier leads

The specifier from one file to another, followed from the directory of the first one, leads to the
second one: to its very path, but for the extension of a script. It says nothing about the directory
that both files stand in, and that may be written in any way.

The one exception is a path that is a directory on the way to the first file: the specifier climbs
to it, and its name and extension are not seen.

## Main results

* `relativeSpecifier_below`: the directory that both files stand in does not count.
* `specifierBetween_leads`: where the specifier between two files leads.
-/

namespace DenoPackager

/-! ### Behind a directory that is written in any way -/

namespace Path

variable {s : String}

/-- What stands behind a slash makes no root, unless it starts with another one. -/
theorem rootOf_append_slash (dir : List Char) {s : List Char} (hs : s.head? ≠ some '/') :
    rootOf (dir ++ '/' :: s) = rootOf (dir ++ ['/']) := by
  have hrest : ('/' :: s).takeWhile (· = '/') = ['/'].takeWhile (· = '/') := by
    cases s with
    | nil => rfl
    | cons c cs =>
      rw [List.takeWhile_cons_of_pos (by decide), List.takeWhile_cons_of_neg (by simpa using hs)]
      rfl
  rw [rootOf, rootOf, List.takeWhile_append, List.takeWhile_append, hrest]

/-- **A relative path behind a directory** that is written in any way adds its components. -/
theorem ofString_below (dir : String) (h : (ofString s).root = .none) :
    ofString (dir ++ "/" ++ s) =
      ⟨(ofString (dir ++ "/")).root, (ofString (dir ++ "/")).parts ++ (ofString s).parts⟩ := by
  have hslash : ("/" : String).toList = ['/'] := rfl
  have hnil : components [] = [] := by decide
  have hhead : s.toList.head? ≠ some '/' := fun hhead => rootOf_ne_none_iff.2 hhead h
  simp only [ofString, String.toList_append, hslash, List.append_assoc, List.singleton_append]
  rw [rootOf_append_slash _ hhead, components_append, components_append, hnil,
    List.append_nil]

end Path

namespace Source

variable {source target s : String} {dirs file down : List String}

/-- The directory of a file behind another directory. -/
theorem directoryText_below (dir s : String) :
    directoryText (dir ++ "/" ++ s) = dir ++ "/" ++ directoryText s := by
  have htext : (dir ++ "/" ++ s).toList = dir.toList ++ '/' :: s.toList := by
    simp [String.toList_append]
  rw [directoryText, directoryText, htext]
  cases hlast : Text.splitLast? '/' s.toList with
  | none =>
    rw [Text.splitLast?_append (Text.not_mem_of_splitLast?_eq_none hlast)]
    exact String.toList_inj.1 (by simp)
  | some cut =>
    obtain ⟨hs, hname⟩ := Text.splitLast?_eq_some hlast
    rw [hs, ← List.cons_append, ← List.append_assoc, Text.splitLast?_append hname]
    exact String.toList_inj.1 (by simp)

/-- **The directory that both files stand in** does not count for the specifier between them,
however it is written. -/
theorem relativeSpecifier_below (cwd cwd' : Path) (dir : String)
    (hsource : Path.ofString (directoryText source) = ⟨.none, dirs⟩)
    (htarget : Path.ofString target = ⟨.none, file⟩) (hdirs : Path.up ∉ dirs)
    (hfile : Path.up ∉ file) :
    relativeSpecifier cwd' (dir ++ "/" ++ source) (dir ++ "/" ++ target) =
      relativeSpecifier cwd source target := by
  rw [relativeSpecifier, relativeSpecifier, directoryText_below,
    Path.ofString_below dir (by rw [hsource]), Path.ofString_below dir (by rw [htarget]), hsource,
    htarget, Path.absolute_append hdirs, Path.absolute_append hfile, absolute_relative cwd hdirs,
    absolute_relative cwd hfile, wayBetween_append, wayBetween_append]

/-! ### The way there -/

/-- A way is a relative specifier. -/
theorem isRelative_wayTo (climbs : Nat) (hne : down ≠ []) :
    isRelative (wayTo climbs down) = true := by
  rw [wayTo]
  split
  · exact isRelative_iff.2 (.inl ⟨_, String.toList_append.symm⟩)
  · rename_i hclimbs
    obtain ⟨n, rfl⟩ := Nat.exists_eq_succ_of_ne_zero hclimbs
    exact isRelative_climb n hne

end Source

namespace Transform

open Source
open DenoPackager.Path (ProperPart)

/-- **A specifier leads** from one file to another: it is told from the name of a package, and
followed from the directory of the first file it leads to the path of the second one, with a last
extension that is one of a script replaced. -/
structure LeadsTo (source target s : String) : Prop where
  relative : "./".toList <+: s.toList ∨ "../".toList <+: s.toList
  destination : (Module.target (.ofString source) s).text.toList =
    if Text.lowerAscii (Text.splitExtension target.toList).2 ∈ scriptExtensions then
      (Text.splitExtension target.toList).1 ++ ".js".toList
    else target.toList

/-- **Where the specifier between two files leads.** There is one for two files below a directory,
of which the second one is no directory on the way to the first one, and it is the same wherever
that directory is and however it is written. -/
theorem specifierBetween_leads (cwd : Path) {source target : List String} (hsource : source ≠ [])
    (htarget : target ≠ []) (hparts : ∀ c ∈ source ++ target, ProperPart c ∧ c ≠ Path.up)
    (hfile : ¬ target <+: source.dropLast) :
    ∃ s, specifierBetween cwd (String.intercalate "/" source) (String.intercalate "/" target) =
        .ok s ∧
      LeadsTo (String.intercalate "/" source) (String.intercalate "/" target) s ∧
      ∀ (cwd' : Path) (dir : String),
        specifierBetween cwd' (dir ++ "/" ++ String.intercalate "/" source)
          (dir ++ "/" ++ String.intercalate "/" target) = .ok s := by
  obtain ⟨dirs, sourceName, rfl⟩ : ∃ dirs name, source = dirs ++ [name] :=
    ⟨_, _, (List.dropLast_concat_getLast hsource).symm⟩
  rw [List.dropLast_concat] at hfile
  obtain ⟨common, climb, down, name, rfl, rfl, hcut⟩ := exists_cut hfile
  have hsourceProper : ∀ c ∈ common ++ climb ++ [sourceName], ProperPart c := fun c hc =>
    (hparts c (List.mem_append_left _ hc)).1
  have htargetProper : ∀ c ∈ common ++ (down ++ [name]), ProperPart c := fun c hc =>
    (hparts c (List.mem_append_right _ hc)).1
  have hdirsUp : Path.up ∉ common ++ climb := fun hmem =>
    (hparts _ (List.mem_append_left _ (List.mem_append_left _ hmem))).2 rfl
  have htargetUp : Path.up ∉ common ++ (down ++ [name]) := fun hmem =>
    (hparts _ (List.mem_append_right _ hmem)).2 rfl
  have hname : ProperPart name := htargetProper name (by simp)
  have hscript : ∀ c ∈ down ++ [scriptName name], ProperPart c :=
    properPart_script fun c hc => htargetProper c (List.mem_append_right _ hc)
  have hscriptUp : Path.up ∉ down ++ [scriptName name] :=
    up_not_mem_script fun hmem => htargetUp (List.mem_append_right _ hmem)
  have hspecifier := relativeSpecifier_eq cwd hsourceProper htargetProper
    (fun hmem => hdirsUp (List.mem_append_right _ hmem))
    (fun hmem => htargetUp (List.mem_append_right _ hmem)) hcut
  rw [Path.text_relative (by simp), Path.text_relative (by simp)] at hspecifier
  have hread := Path.ofString_intercalate htargetProper
  have hdirectory := ofString_directoryText hsourceProper
  rw [Path.text_relative (by simp)] at hdirectory
  refine ⟨wayTo climb.length (down ++ [scriptName name]), ?_, ⟨?_, ?_⟩, fun cwd' dir => ?_⟩
  · have hne : String.intercalate "/" (common ++ (down ++ [name])) ≠ "" := by
      intro hnil
      have hnone : (Path.ofString "").parts = [] := by decide
      rw [← hnil, hread] at hnone
      simp at hnone
    rw [specifierBetween, if_neg hne, hspecifier]
  · exact isRelative_iff.1 (isRelative_wayTo climb.length (by simp))
  · rw [Path.ofString_intercalate hsourceProper, target_wayTo hscript hdirsUp hscriptUp,
      Path.text_relative (by simp), ← List.append_assoc, ← List.append_assoc,
      ← withScriptExtension_intercalate _ hname]
    rfl
  · rw [specifierBetween, if_neg (by simp), relativeSpecifier_below cwd cwd' dir hdirectory hread
      hdirsUp htargetUp, hspecifier]

theorem specifierBetween_leads_dots : ∃ s,
    specifierBetween (.ofString "/p") (String.intercalate "/" ["lib", "inner", "mod.ts"])
      (String.intercalate "/" ["lib", "..a", ".b.test.TSX"]) = .ok s ∧
    LeadsTo (String.intercalate "/" ["lib", "inner", "mod.ts"])
      (String.intercalate "/" ["lib", "..a", ".b.test.TSX"]) s ∧
    ∀ (cwd' : Path) (dir : String),
      specifierBetween cwd' (dir ++ "/" ++ String.intercalate "/" ["lib", "inner", "mod.ts"])
        (dir ++ "/" ++ String.intercalate "/" ["lib", "..a", ".b.test.TSX"]) = .ok s :=
  specifierBetween_leads (.ofString "/p") (by decide) (by decide) (by decide) (by decide)

/-- A component that starts with two dots is no way up. -/
example : relativeSpecifier (.ofString "/p") "lib/inner/mod.ts" "lib/..a/.b.test.TSX" =
    "../..a/.b.test.js" := by
  decide +kernel

end Transform

end DenoPackager

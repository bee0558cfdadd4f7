import Mathlib.Data.List.Forall2
import DenoPackager.Proofs.Links.Launcher
import DenoPackager.Proofs.Paths.Endings
import DenoPackager.Proofs.Printed.Literals

/-!
# What stands in a launcher

The launcher of the tests is a fixed text with two gaps. One of them, which is there only where the
tests are taken from a package, holds the name of a module; the other one holds an array of paths.
Both are filled with literals, so that no name and no path can end the literal it stands in: read as
JSON, the literals are the name of the package with `/test-internals` behind it, and the scripts of
the test files.

## Main definitions

* `TestLauncher.template`: the text with its two gaps.
* `TestLauncher.FirstRequired`: what a text requires first.

## Main results

* `TestLauncher.code_eq_template`: the text of every launcher, and what is read from its literals.
-/

namespace DenoPackager.TestLauncher

open Text (EndingReplaced HasEnding typeScriptEnding declarationEnding)

/-- **The text of a launcher with its two gaps**, for each of the two ways to take the tests. -/
def template (shimUsed : Bool) (testModule paths : String) : String :=
  firstLine ++
    (if shimUsed then "const \x7b testDefinitions \x7d = require(" ++ testModule ++ ");\n"
      else collectorDefinitions) ++
    "\nconst filePaths = " ++ paths ++ ";\n" ++ runnerText

/-- **What a text requires first**: the argument of a call that stands where the name of the
function occurs for the first time. -/
def FirstRequired (s argument : String) : Prop :=
  ∃ before after,
    s.toList = before ++ ("require(".toList ++ (argument.toList ++ (")".toList ++ after))) ∧
    ∀ earlier later, s.toList = earlier ++ ("require".toList ++ later) →
      before.length ≤ earlier.length

/-- A word does not begin in front of its first place, if the text up to there and through the word
shows no other one. -/
theorem length_le_of_word (word after : List Char) {before earlier later : List Char}
    (hfirst : ∀ k < before.length, ((before ++ word).drop k).take word.length ≠ word)
    (h : before ++ (word ++ after) = earlier ++ (word ++ later)) :
    before.length ≤ earlier.length := by
  by_contra hlt
  have hlength : earlier.length + word.length ≤ (before ++ word).length := by
    rw [List.length_append]
    omega
  have hroom : word.length ≤ ((before ++ word).drop earlier.length).length := by
    rw [List.length_drop]
    omega
  refine hfirst earlier.length (Nat.lt_of_not_le hlt) ?_
  calc ((before ++ word).drop earlier.length).take word.length
      = ((before ++ word ++ after).drop earlier.length).take word.length := by
        rw [List.drop_append_of_le_length (Nat.le_of_add_right_le hlength),
          List.take_append_of_le_length hroom]
    _ = word := by rw [List.append_assoc, h, List.drop_left, List.take_left]

/-- The line that takes the tests from a module requires that module first. -/
theorem firstRequired_line (testModule after : String) :
    FirstRequired
      ("const \x7b testDefinitions \x7d = require(" ++ (testModule ++ (");\n" ++ after)))
      testModule := by
  have hcall : "const \x7b testDefinitions \x7d = require(".toList =
      "const \x7b testDefinitions \x7d = ".toList ++ "require(".toList := by decide
  have hend : ");\n".toList = ")".toList ++ ";\n".toList := by decide
  refine ⟨"const \x7b testDefinitions \x7d = ".toList, ";\n".toList ++ after.toList, ?_, ?_⟩
  · simp only [String.toList_append, hcall, hend, List.append_assoc]
  · intro earlier later h
    refine length_le_of_word "require".toList
      ("(".toList ++ (testModule.toList ++ (");\n".toList ++ after.toList))) (by decide)
      (Eq.trans ?_ h)
    have hword : "require(".toList = "require".toList ++ "(".toList := by decide
    simp only [String.toList_append, hcall, hword, List.append_assoc]

/-- Behind its first line, a launcher that takes the tests from a module requires that module. -/
theorem firstRequired_template (testModule paths : String) :
    ∃ rest, template true testModule paths = firstLine ++ rest ∧
      FirstRequired rest testModule := by
  refine ⟨_, ?_, firstRequired_line testModule
    ("\nconst filePaths = " ++ (paths ++ (";\n" ++ runnerText)))⟩
  simp only [template, if_true, String.append_assoc]

/-- The scripts of the test files: declaration files are left out, and the endings of the others are
replaced. -/
theorem forall₂_scripts (testFiles : List String) :
    List.Forall₂ (fun path script =>
        EndingReplaced typeScriptEnding ".js".toList path.toList script.toList)
      (testFiles.filter fun path => ¬HasEnding declarationEnding path.toList)
      (scripts testFiles) := by
  have hfilter : (testFiles.filter fun path => ¬HasEnding declarationEnding path.toList) =
      testFiles.filter (!isDeclaration ·) := by
    refine List.filter_congr fun path _ => ?_
    rw [isDeclaration, Bool.eq_iff_iff, decide_eq_true_eq, Text.hasEnding_declarationEnding_iff,
      Bool.not_eq_true, Bool.not_eq_true']
  rw [hfilter, scripts, List.forall₂_map_right_iff, List.forall₂_same]
  intro path _
  rw [Text.endingReplaced_typeScriptEnding_iff, scriptPath, String.toList_ofList]

/-- The line that takes the tests from a package, with the name of the module as a literal. -/
theorem packageDefinitions_eq (package : String) :
    packageDefinitions package = "const \x7b testDefinitions \x7d = require(" ++
      (Json.str (package ++ "/test-internals")).compactText ++ ");\n" := by
  have hnil : text [] = "" := rfl
  have hend : ");\n" = ");" ++ "\n" := by decide
  rw [packageDefinitions, text_cons, hnil, String.append_empty, hend]
  simp only [String.append_assoc]

/-- **What stands in a launcher**, for all names of packages and all paths: a fixed text, which
depends on the flag only, with two ASCII literals in it. The one behind `const filePaths = ` is read
as the paths of the test files that are not declaration files, in order, with their endings
replaced. The other one, which is the first thing that a launcher requires behind its first line if
the tests are taken from a package, is read as the module of that package which holds the tests. -/
theorem code_eq_template (package : String) (testFiles : List String) (shimUsed : Bool) :
    ∃ testModule paths : String,
      code package testFiles shimUsed = template shimUsed testModule paths ∧
      (∃ rest, template true testModule paths = firstLine ++ rest ∧
        FirstRequired rest testModule) ∧
      Json.read testModule.toList = .ok (.str (package ++ "/test-internals")) ∧
      (∃ scripts : List String,
        Json.read paths.toList = .ok (.arr (scripts.map .str)) ∧
        List.Forall₂ (fun path script =>
            EndingReplaced typeScriptEnding ".js".toList path.toList script.toList)
          (testFiles.filter fun path => ¬HasEnding declarationEnding path.toList) scripts) ∧
      Json.IsAscii testModule.toList ∧ Json.IsAscii paths.toList := by
  refine ⟨(Json.str (package ++ "/test-internals")).compactText,
    (Json.arr ((scripts testFiles).map .str)).indentedText, ?_, firstRequired_template _ _,
    Json.read_compactText_str _,
    ⟨scripts testFiles, Json.read_indentedText_strings _, forall₂_scripts testFiles⟩,
    Json.compactText_str_isAscii _, Json.indentedText_strings_isAscii _⟩
  unfold code template firstLine
  rw [packageDefinitions_eq]

end DenoPackager.TestLauncher

import DenoPackager.Proofs.Files.Exports
import DenoPackager.Proofs.Manifest.Merging
import DenoPackager.Proofs.Paths.Endings
import DenoPackager.Proofs.Paths.Text

/-!
# Exports of bare paths

Entry points may be given as bare paths. The first one is the package itself then, and any other one
is exported under the path as it is written, with its ending replaced. No path is changed beyond
that: one that does not begin with `./`, or goes up with `..`, gives a key that is not a subpath of
the package.

## Main definitions

* `Text.IsSubpath`: texts that name a subpath of a package.
* `Manifest.PointsTo`: the conditions of an export, for the script at an output path.

## Main results

* `Text.isSubpath_iff_of_endingReplaced`: replacing an ending makes no subpath and spoils none.
* `Manifest.exports_of_paths`: the exports of bare paths.
* `Manifest.exports_of_bare_name`: a path whose key is not a subpath.
-/

namespace DenoPackager

/-! ### Subpaths -/

namespace Text

/-- **Subpaths of a package**: they begin with `./` and have no component `..`. -/
def IsSubpath (s : List Char) : Prop :=
  "./".toList <+: s ∧ "..".toList ∉ splitOn '/' s

instance (s : List Char) : Decidable (IsSubpath s) :=
  inferInstanceAs (Decidable (_ ∧ _))

variable {s t before : List Char}

/-- What is added to a text without a separator belongs to its last stretch. -/
theorem exists_splitOn_append (sep : Char) (s : List Char) :
    ∃ pieces last, ∀ e, sep ∉ e → splitOn sep (s ++ e) = pieces ++ [last ++ e] := by
  induction s with
  | nil => exact ⟨[], [], fun e he => splitOn_of_not_mem he⟩
  | cons c cs ih =>
    obtain ⟨pieces, last, h⟩ := ih
    by_cases hc : c = sep
    · refine ⟨[] :: pieces, last, fun e he => ?_⟩
      have hsplit : splitOn sep (sep :: (cs ++ e)) = splitOn sep [] ++ splitOn sep (cs ++ e) :=
        splitOn_append [] (cs ++ e)
      rw [hc, List.cons_append, hsplit, h e he]
      rfl
    · cases pieces with
      | nil =>
        refine ⟨[], c :: last, fun e he => ?_⟩
        rw [List.cons_append, splitOn, h e he]
        exact if_neg hc
      | cons piece pieces =>
        refine ⟨(c :: piece) :: pieces, last, fun e he => ?_⟩
        rw [List.cons_append, splitOn, h e he]
        exact if_neg hc

/-- An extension: a dot and more characters, none of which is a dot or a slash. -/
def IsExtension (e : List Char) : Prop :=
  ∃ c cs, e = '.' :: c :: cs ∧ ∀ d ∈ c :: cs, d ≠ '.' ∧ d ≠ '/'

theorem IsExtension.not_mem {e : List Char} (h : IsExtension e) : '/' ∉ e := by
  obtain ⟨c, cs, rfl, hplain⟩ := h
  rw [List.mem_cons, not_or]
  exact ⟨by decide, fun hmem => (hplain '/' hmem).2 rfl⟩

theorem isPrefix_append_iff {e : List Char} (he : IsExtension e) :
    "./".toList <+: before ++ e ↔ "./".toList <+: before := by
  obtain ⟨c, cs, rfl, hplain⟩ := he
  have hc : '/' ≠ c := (hplain c List.mem_cons_self).2.symm
  match before with
  | [] => simp [hc]
  | [d] => simp
  | d :: d' :: ds => simp

/-- An extension is not the second dot of a component `..`. -/
theorem append_ne_dots {last e : List Char} (he : IsExtension e) : "..".toList ≠ last ++ e := by
  obtain ⟨c, cs, rfl, hplain⟩ := he
  intro h
  have hlength := congrArg List.length h
  simp at hlength
  obtain rfl : last = [] := List.length_eq_zero_iff.1 (by omega)
  obtain rfl : cs = [] := List.length_eq_zero_iff.1 (by omega)
  obtain rfl : '.' = c := by simpa using h
  exact (hplain '.' List.mem_cons_self).1 rfl

/-- **What an extension is plays no role** for whether a path is a subpath. -/
theorem isSubpath_append_iff {e e' : List Char} (he : IsExtension e) (he' : IsExtension e') :
    IsSubpath (before ++ e) ↔ IsSubpath (before ++ e') := by
  obtain ⟨pieces, last, hsplit⟩ := exists_splitOn_append '/' before
  have hup {e : List Char} (he : IsExtension e) :
      "..".toList ∈ splitOn '/' (before ++ e) ↔ "..".toList ∈ pieces := by
    rw [hsplit e he.not_mem, List.mem_append, List.mem_singleton, or_iff_left (append_ne_dots he)]
  rw [IsSubpath, IsSubpath, isPrefix_append_iff he, isPrefix_append_iff he', hup he, hup he']

/-- A final `.ts` or `.tsx` is an extension, and so is what it is replaced by. -/
theorem isExtension_of_isEnding {ending tail : List Char}
    (h : IsEnding typeScriptEnding ending tail) :
    IsExtension ending ∧ IsExtension (".js".toList ++ tail) := by
  have htail := typeScriptTail?_eq_some_iff.2 h
  obtain ⟨e, rfl, hplain, hend⟩ := typeScriptTail?_eq_some htail
  refine ⟨?_, 'j', 's' :: tail, rfl, ?_⟩
  · cases hletters : e ++ tail with
    | nil =>
      rw [hletters] at htail
      exact absurd htail (by rw [show typeScriptTail? ['.'] = none from rfl]; simp)
    | cons c cs => exact ⟨c, cs, rfl, hletters ▸ hplain⟩
  · rcases hend with rfl | rfl <;> simp

/-- **Replacing an ending makes no subpath and spoils none.** -/
theorem isSubpath_iff_of_endingReplaced (h : EndingReplaced typeScriptEnding ".js".toList s t) :
    IsSubpath t ↔ IsSubpath s := by
  cases h with
  | replaced before ending tail h =>
    obtain ⟨hending, hscript⟩ := isExtension_of_isEnding h
    exact isSubpath_append_iff hscript hending
  | kept => exact Iff.rfl

end Text

/-! ### Exports -/

namespace Manifest

open Text (EndingReplaced typeScriptEnding IsSubpath)

variable {shim : Shim} {output : TransformOutput} {first : String} {others : List String}

/-- **What an export points to**, for the module at an output path: the two scripts of the module
and, if there are any, its declarations, for which the extension of the script is replaced. -/
structure PointsTo (declaration : Bool) (outPath : String) (ms : Members) : Prop where
  keys : Table.keys ms = (if declaration then ["types"] else []) ++ ["import", "require"]
  script : ∃ script : String,
    EndingReplaced typeScriptEnding ".js".toList outPath.toList script.toList ∧
    ms.get? "import" = some (.str ("./esm/" ++ script)) ∧
    ms.get? "require" = some (.str ("./umd/" ++ script)) ∧
    ∀ stem, script = stem ++ ".js" →
      ms.get? "types" = if declaration then some (.str ("./types/" ++ stem ++ ".d.ts")) else none

/-- The conditions of an export point to the module at the output path. -/
theorem pointsTo_conditions (declaration : Bool) (outPath : String) :
    PointsTo declaration outPath (conditions declaration outPath) where
  keys := by cases declaration <;> rfl
  script := by
    refine ⟨EntryPoint.scriptPath outPath, ?_, ?_, ?_, fun stem hstem => ?_⟩
    · rw [Text.endingReplaced_typeScriptEnding_iff, EntryPoint.scriptPath, String.toList_ofList]
    · cases declaration <;> exact get?_conditions _ outPath .esm
    · cases declaration <;> exact get?_conditions _ outPath .umd
    · have htypes := get?_conditions declaration outPath .declarations
      have hpath : Pass.declarations.exportPath outPath = "./types/" ++ stem ++ ".d.ts" := by
        rw [Pass.exportPath, Pass.exportName, hstem, stem_append, String.append_assoc]
        rfl
      rw [hpath] at htypes
      cases declaration <;> exact htypes

/-- A bare path gives a text as name. -/
theorem key_ofSpec_bare (isFirst : Bool) (path : String) :
    (EntryPoint.ofSpec isFirst (.bare path)).key =
      .text (if isFirst then EntryPoint.rootName else EntryPoint.scriptPath path) := rfl

/-- The keys of bare paths, in their order. -/
theorem keys_ofSpecs_bare (first : String) (others : List String) :
    (EntryPoint.ofSpecs ((first :: others).map .bare)).map EntryPoint.key =
      (EntryPoint.rootName :: others.map EntryPoint.scriptPath).map .text := by
  simp only [List.map_cons, EntryPoint.ofSpecs, List.map_map, key_ofSpec_bare, if_true,
    List.cons.injEq, true_and]
  rfl

/-- **The exports are a table with the names of the entry points as keys**, in their order. -/
theorem Buildable.keys_exports {entries : List EntryPoint} {test declaration : Bool}
    {derived : Derived} (hbuild : Buildable entries shim output)
    (h : Derived.ofOutput entries shim output test declaration = .ok derived) :
    derived.exports.keys = entries.map EntryPoint.key := by
  obtain ⟨seen, hseen, -⟩ := hbuild.exists_register
  have hexports := (Derived.ofOutput_eq_ok_iff.1 h).1
  rw [exports_eq hseen] at hexports
  have hkeys : Table.keys ((entries.zip output.main.entryPoints).map fun m =>
      (m.1.key, Json.obj (conditions declaration m.2))) = entries.map EntryPoint.key := by
    have hfirst := List.map_fst_zip (Nat.le_of_eq hbuild.paired.symm)
    rw [Table.keys, List.map_map]
    conv_rhs => rw [← hfirst, List.map_map]
    rfl
  have hdistinct : Table.Distinct ((entries.zip output.main.entryPoints).map fun m =>
      (m.1.key, Json.obj (conditions declaration m.2))) := by
    rw [Table.Distinct, hkeys, List.pairwise_map]
    exact (EntryPoint.pairwise_of_register hseen).2
  rw [← Except.ok.inj hexports, Table.ofPairs, Table.keys_overlay hdistinct, hkeys]
  exact List.filter_eq_self.2 fun _ _ => rfl

/-- **Each export is what the output path in its place says**: no other one is written over it. -/
theorem Buildable.forall₂_exports {entries : List EntryPoint} {test declaration : Bool}
    {derived : Derived} (hbuild : Buildable entries shim output)
    (h : Derived.ofOutput entries shim output test declaration = .ok derived) :
    List.Forall₂ (fun key outPath =>
        derived.exports.get? key = some (.obj (conditions declaration outPath)))
      (entries.map EntryPoint.key) output.main.entryPoints := by
  obtain ⟨seen, hseen, -⟩ := hbuild.exists_register
  rw [List.forall₂_map_left_iff, List.forall₂_iff_zip]
  refine ⟨hbuild.paired.symm, fun {entry outPath} hmem => ?_⟩
  obtain ⟨key, hkey, hget⟩ :=
    get?_exports hseen hbuild.paired (Derived.ofOutput_eq_ok_iff.1 h).1 hmem
  have hown := ((EntryPoint.pairwise_of_register hseen).1 entry (List.of_mem_zip hmem).1).1
  obtain rfl : entry.key = key := Except.ok.inj (hown.symm.trans hkey)
  exact hget

/-- **The exports of bare paths**, in a manifest whose user gives none. There is one key for each
path: the first is `.`, and any other is the path with a final `.ts` or `.tsx` replaced, which is a
subpath of the package exactly if the path is one. No two keys are the same, and each leads to what
is emitted for the module at the output path in the same place. -/
theorem exports_of_paths (package : Table Key) (test declaration : Bool)
    (hbuild : Buildable (EntryPoint.ofSpecs ((first :: others).map .bare)) shim output) :
    ∃ derived manifest names,
      Derived.ofOutput (EntryPoint.ofSpecs ((first :: others).map .bare)) shim output test
        declaration = .ok derived ∧
      build (EntryPoint.ofSpecs ((first :: others).map .bare)) shim output package test
        declaration = .ok manifest ∧
      (package.get? (.text "exports") = none →
        manifest.get? (.text "exports") = some (.obj derived.exports.toMembers)) ∧
      List.Forall₂ (fun path name : String =>
        EndingReplaced typeScriptEnding ".js".toList path.toList name.toList ∧
          (IsSubpath name.toList ↔ IsSubpath path.toList)) others names ∧
      ("." :: names).Nodup ∧
      derived.exports.keys = ("." :: names).map .text ∧
      List.Forall₂ (fun name outPath => ∃ ms,
          derived.exports.get? (.text name) = some (.obj ms) ∧ PointsTo declaration outPath ms)
        ("." :: names) output.main.entryPoints := by
  obtain ⟨derived, hderived⟩ := hbuild.exists_ofOutput test declaration
  have hnames := keys_ofSpecs_bare first others
  have hkeys := (hbuild.keys_exports hderived).trans hnames
  have hexports := hbuild.forall₂_exports hderived
  rw [hnames, List.forall₂_map_left_iff] at hexports
  refine ⟨derived, _, others.map EntryPoint.scriptPath, hderived,
    build_eq_assignments hbuild hderived package, fun hnone => ?_, ?_, ?_, hkeys,
    hexports.imp fun _ outPath hget => ⟨_, hget, pointsTo_conditions declaration outPath⟩⟩
  · have hmem : ("exports", derived.exports) ∈ derived.members := List.mem_cons_self
    have hne : derived.exports.isEmpty = false := by
      rw [List.isEmpty_eq_false_iff]
      intro hnil
      rw [hnil] at hkeys
      exact nomatch hkeys
    rw [Table.get?_assignAll_of_mem pairwise_assignments (mem_assignments_of_mem package hmem),
      hnone, mergedValue, written?, hne]
    rfl
  · rw [List.forall₂_map_right_iff, List.forall₂_same]
    intro path _
    have hreplaced : EndingReplaced typeScriptEnding ".js".toList path.toList
        (EntryPoint.scriptPath path).toList := by
      rw [Text.endingReplaced_typeScriptEnding_iff, EntryPoint.scriptPath, String.toList_ofList]
    exact ⟨hreplaced, Text.isSubpath_iff_of_endingReplaced hreplaced⟩
  · obtain ⟨seen, hseen, -⟩ := hbuild.exists_register
    have hdifferent := (EntryPoint.pairwise_of_register hseen).2
    rw [← List.pairwise_map (f := EntryPoint.key) (R := fun a b => (a == b) = false), hnames,
      List.pairwise_map] at hdifferent
    exact hdifferent.imp fun hab => Key.text_beq_text_eq_false.1 hab

/-- A program with three entry points. -/
def threeOutput : TransformOutput :=
  { soleOutput with
    main := { FileGroup.empty with entryPoints := ["mod.ts", "ui/view.TSX", "util.ts"] } }

/-- Three bare paths, the last one without `./`. -/
def threeEntries : List EntryPoint :=
  EntryPoint.ofSpecs (["./mod.ts", "./ui/view.TSX", "util.ts"].map .bare)

theorem buildable_threeOutput : Buildable threeEntries Shim.standard threeOutput where
  accepted := (EntryPoint.check_ok_iff _).2 ⟨by decide, _, rfl, by decide⟩
  paired := rfl
  shim := buildable_soleOutput.shim
  dependencies group hgroup d hd := by
    simp only [threeOutput, soleOutput, FileGroup.empty, List.mem_cons, List.not_mem_nil,
      or_false] at hgroup
    rcases hgroup with rfl | rfl <;> exact absurd hd List.not_mem_nil

/-- The exports of three bare paths. -/
theorem exports_of_paths_three : Buildable threeEntries Shim.standard threeOutput ∧
    ∃ derived manifest view util,
      Derived.ofOutput threeEntries Shim.standard threeOutput false true = .ok derived ∧
      build threeEntries Shim.standard threeOutput [] false true = .ok manifest ∧
      derived.exports.keys = [.text ".", .text "./ui/view.js", .text "util.js"] ∧
      derived.exports.get? (.text "./ui/view.js") = some (.obj view) ∧
      PointsTo true "ui/view.TSX" view ∧
      derived.exports.get? (.text "util.js") = some (.obj util) ∧ PointsTo true "util.ts" util := by
  obtain ⟨derived, manifest, names, hderived, hbuild, -, hnames, -, hkeys, hexports⟩ :=
    exports_of_paths [] false true buildable_threeOutput
  obtain ⟨view, rest, hview, hrest, rfl⟩ := List.forall₂_cons_left_iff.1 hnames
  obtain ⟨util, none, hutil, hnone, rfl⟩ := List.forall₂_cons_left_iff.1 hrest
  obtain rfl := List.forall₂_nil_left_iff.1 hnone
  obtain rfl : "./ui/view.js" = view := by
    rw [← String.toList_inj, ← Text.endingReplaced_typeScriptEnding_iff.1 hview.1]
    decide
  obtain rfl : "util.js" = util := by
    rw [← String.toList_inj, ← Text.endingReplaced_typeScriptEnding_iff.1 hutil.1]
    decide
  simp only [threeOutput, List.forall₂_cons] at hexports
  obtain ⟨-, ⟨view, hview, hviewed⟩, ⟨util, hutil, hutiled⟩, -⟩ := hexports
  exact ⟨buildable_threeOutput, derived, manifest, view, util, hderived, hbuild, hkeys, hview,
    hviewed, hutil, hutiled⟩

/-- **A key that is no subpath**: a path without `./` is accepted and is exported under a key that
does not begin with `./` either. -/
theorem exports_of_bare_name : EntryPoint.check threeEntries = .ok () ∧
    ∃ derived manifest,
      Derived.ofOutput threeEntries Shim.standard threeOutput false true = .ok derived ∧
      build threeEntries Shim.standard threeOutput [] false true = .ok manifest ∧
      Key.text "util.js" ∈ derived.exports.keys ∧
      "util.js" ≠ "." ∧ ¬ IsSubpath "util.js".toList := by
  obtain ⟨derived, hderived⟩ := buildable_threeOutput.exists_ofOutput false true
  refine ⟨buildable_threeOutput.accepted, derived, _, hderived,
    build_eq_assignments buildable_threeOutput hderived [], ?_, by decide, by decide⟩
  rw [buildable_threeOutput.keys_exports hderived]
  exact List.mem_of_getElem? (i := 2) rfl

end Manifest

end DenoPackager

import DenoPackager.Proofs.Manifest.Lookup
import DenoPackager.Proofs.Manifest.Sharing

/-!
# Version ranges and the order of dependencies

Dependencies stand in the order in which the files of a program use them, and a package may be among
them more than once, with different versions or without one. The manifest has one range for each
package: that of the last dependency with its name. So another order of the same dependencies gives
the same ranges as long as it keeps the range of the last one for every package that the user leaves
open. Nothing else makes a difference, and a dependency without a version stands for any version if
it comes last.

## Main definitions

* `Manifest.lastRange?`: the range of the last dependency with a name.
* `Manifest.withDependencies`: a transformed program with other dependencies.

## Main results

* `Manifest.get?_dependencies`, `Manifest.get?_devDependencies`: the ranges that are derived.
* `Manifest.build_reordered`: what another order of dependencies changes.
-/

namespace DenoPackager.Manifest

variable {package : Table Key} {entries : List EntryPoint} {shim : Shim} {output : TransformOutput}
  {group : FileGroup} {test declaration : Bool} {derived : Derived} {ds : List Dependency}
  {name range : String}

/-! ### Derived ranges -/

/-- Whether a value is the name of a package. -/
def isName (name : String) (v : Json) : Bool :=
  v.str? == some name

theorem isName_iff {v : Json} : isName name v = true ↔ v = .str name := by
  rw [isName, beq_iff_eq]
  cases v <;> simp [Json.str?]

/-- Keys of packages are compared by their names. -/
theorem text_beq_text_eq_isName (name s : String) :
    (Key.text name == Key.text s) = isName name (.str s) := by
  rw [Bool.eq_iff_iff, Key.text_beq_text, isName_iff, Json.str.injEq, eq_comm]

/-- **The range of the last dependency** with a name, if there is one. -/
def lastRange? (ds : List Dependency) (name : String) : Option String :=
  (ds.reverse.find? fun d => isName name d.name).map versionRange

/-- A package has a range if a dependency has its name. -/
theorem lastRange?_eq_none_iff : lastRange? ds name = none ↔ ∀ d ∈ ds, d.name ≠ .str name := by
  rw [lastRange?, Option.map_eq_none_iff, List.find?_eq_none]
  simp only [List.mem_reverse, isName_iff, ne_eq]

/-- **The range of a package that a group of files needs**: that of the last dependency, or else
that of the package for the Deno namespace. -/
def neededRange? (shim : Shim) (group : FileGroup) (name : String) : Option String :=
  (lastRange? group.dependencies name).or
    (if group.shimUsed && isName name shim.name then some (compatibleWith shim.version) else none)

/-- An entry is under the name of its package. -/
theorem of_entry_eq_ok {name : Json} {value : Json} {m : Key × Json} {s : String}
    (hs : name = .str s) (h : (do .ok (← name.key, value)) = (.ok m : Except Fault (Key × Json))) :
    m = (.text s, value) := by
  obtain rfl := hs
  exact (Except.ok.inj h).symm

/-- The last one counts of what is imported. -/
theorem get?_reverse_imported {imported : Table Key} (hnames : ∀ d ∈ ds, ∃ s, d.name = .str s)
    (h : ds.mapM dependencyEntry = .ok imported) :
    Table.get? imported.reverse (.text name) = (lastRange? ds name).map .str := by
  have hentries := Except.mapM_eq_ok_iff.1 h
  clear h
  induction hentries with
  | nil => rfl
  | @cons d m ds imported hentry _ ih =>
    rw [List.forall_mem_cons] at hnames
    obtain ⟨s, hs⟩ := hnames.1
    obtain rfl := of_entry_eq_ok hs hentry
    rw [List.reverse_cons, Table.get?_append, ih hnames.2, Table.get?_cons, Table.get?_nil,
      lastRange?, lastRange?, List.reverse_cons, List.find?_append, Option.map_or, Option.map_or,
      List.find?_singleton, hs, text_beq_text_eq_isName]
    congr 1
    cases isName name (.str s) <;> rfl

/-- **What is needed** has its own range: what is imported comes behind the package for the Deno
namespace. -/
theorem get?_ofPairs_needed {needed : Table Key} (hshim : ∃ s, shim.name = .str s)
    (hnames : ∀ d ∈ group.dependencies, ∃ s, d.name = .str s)
    (h : needs shim group = .ok needed) :
    (Table.ofPairs needed).get? (.text name) = (neededRange? shim group name).map .str := by
  rw [Table.get?_ofPairs, neededRange?, Option.map_or]
  obtain ⟨imported, himported, h⟩ := needs_eq_ok_iff.1 h
  cases hused : group.shimUsed
  · rw [hused, if_neg Bool.false_ne_true] at h
    rw [h, get?_reverse_imported hnames himported]
    simp
  · rw [hused, if_pos rfl] at h
    obtain ⟨m, hentry, rfl⟩ := h
    obtain ⟨s, hs⟩ := hshim
    obtain rfl := of_entry_eq_ok hs hentry
    rw [List.reverse_cons, Table.get?_append, get?_reverse_imported hnames himported,
      Table.get?_cons, Table.get?_nil, Bool.true_and, hs, text_beq_text_eq_isName]
    congr 1
    cases isName name (.str s) <;> rfl

/-- **The derived ranges of dependencies** are those of what the program needs. -/
theorem get?_dependencies (htexts : TextNames entries shim output)
    (h : Derived.ofOutput entries shim output test declaration = .ok derived) :
    derived.dependencies.get? (.text name) = (neededRange? shim output.main name).map .str := by
  obtain ⟨-, -, hmain, -⟩ := Derived.ofOutput_eq_ok_iff.1 h
  obtain ⟨needed, hneeded, hmain⟩ := dependencies_eq_ok_iff.1 hmain
  rw [← hmain]
  exact get?_ofPairs_needed htexts.shim (htexts.dependencies output.main (by simp)) hneeded

/-- **The derived ranges of development dependencies** are those of what the tests need and the
program does not. -/
theorem get?_devDependencies (htexts : TextNames entries shim output)
    (h : Derived.ofOutput entries shim output test declaration = .ok derived) :
    derived.devDependencies.get? (.text name) =
      if test && !derived.dependencies.has (.text name) then
        (neededRange? shim output.test name).map .str else none := by
  obtain ⟨-, -, -, hdev⟩ := Derived.ofOutput_eq_ok_iff.1 h
  cases test
  · rw [← Except.ok.inj hdev]
    rfl
  · obtain ⟨needed, hneeded, hdev⟩ := devDependencies_eq_ok_iff.1 hdev
    have hcongr (k : Key) (hk : (Key.text name == k) = true) :
        (!derived.dependencies.has k) = !derived.dependencies.has (.text name) := by
      rw [Table.has, Table.has, Table.get?_congr hk]
    rw [← hdev, Table.get?_ofPairs, ← List.filter_reverse,
      Table.get?_filter (p := fun k => !derived.dependencies.has k) hcongr, ← Table.get?_ofPairs,
      get?_ofPairs_needed htexts.shim (htexts.dependencies output.test (by simp)) hneeded,
      Bool.true_and]

/-! ### Dependencies in another order -/

/-- **The same output with other dependencies.** -/
def withDependencies (output : TransformOutput) (mains tests : List Dependency) :
    TransformOutput :=
  { output with
    main := { output.main with dependencies := mains }
    test := { output.test with dependencies := tests } }

variable {mains tests : List Dependency}

theorem TextNames.reordered (h : TextNames entries shim output)
    (hmains : mains.Perm output.main.dependencies)
    (htests : tests.Perm output.test.dependencies) :
    TextNames entries shim (withDependencies output mains tests) where
  entries := h.entries
  shim := h.shim
  dependencies group hgroup d hd := by
    simp only [withDependencies, List.mem_cons, List.not_mem_nil, or_false] at hgroup
    rcases hgroup with rfl | rfl
    · exact h.dependencies output.main (by simp) d (hmains.mem_iff.1 hd)
    · exact h.dependencies output.test (by simp) d (htests.mem_iff.1 hd)

/-- Another order of the same dependencies changes what is needed only where it changes the range of
the last one. -/
theorem neededRange?_reordered_iff (h : ds.Perm group.dependencies) :
    neededRange? shim { group with dependencies := ds } name = neededRange? shim group name ↔
      lastRange? ds name = lastRange? group.dependencies name := by
  have hnone : lastRange? ds name = none ↔ lastRange? group.dependencies name = none := by
    rw [lastRange?_eq_none_iff, lastRange?_eq_none_iff]
    exact forall_congr' fun d => by rw [h.mem_iff]
  rw [neededRange?, neededRange?]
  cases hds : lastRange? ds name with
  | none =>
    rw [hnone.1 hds]
    exact iff_of_true rfl rfl
  | some range =>
    cases hgroup : lastRange? group.dependencies name with
    | none => exact absurd (hnone.2 hgroup) (by simp [hds])
    | some last => rw [Option.some_or, Option.some_or]

/-- Texts are different from each other. -/
theorem map_str_inj {a b : Option String} : a.map Json.str = b.map Json.str ↔ a = b :=
  (Option.map_injective fun _ _ => Json.str.inj).eq_iff

/-- The same packages are needed in another order. -/
theorem needs_reordered (h : ds.Perm group.dependencies) {name : Json} :
    Needs shim { group with dependencies := ds } name ↔ Needs shim group name := by
  rw [Needs, Needs]
  simp only [h.mem_iff]

/-- A text is a derived dependency if the program needs it. -/
theorem has_dependencies_eq_false_iff
    (h : Derived.ofOutput entries shim output test declaration = .ok derived) :
    derived.dependencies.has (.text name) = false ↔ ¬ Needs shim output.main (.str name) := by
  rw [← has_dependencies h, Bool.not_eq_true]

section

variable {reordered : Derived} (hmains : mains.Perm output.main.dependencies)
  (htests : tests.Perm output.test.dependencies) (htexts : TextNames entries shim output)
  (hderived : Derived.ofOutput entries shim output test declaration = .ok derived)
  (hreordered : Derived.ofOutput entries shim (withDependencies output mains tests) test
    declaration = .ok reordered)

include hmains htests htexts hderived hreordered

/-- The derived range of a dependency is the same in another order that keeps the last range. -/
theorem get?_dependencies_reordered_iff :
    derived.dependencies.get? (.text name) = reordered.dependencies.get? (.text name) ↔
      lastRange? mains name = lastRange? output.main.dependencies name := by
  rw [get?_dependencies htexts hderived,
    get?_dependencies (htexts.reordered hmains htests) hreordered, map_str_inj, eq_comm]
  exact neededRange?_reordered_iff hmains

/-- The derived range of a development dependency is the same in another order that keeps the last
range, and if there is none. -/
theorem get?_devDependencies_reordered_iff :
    derived.devDependencies.get? (.text name) = reordered.devDependencies.get? (.text name) ↔
      (test = true → ¬ Needs shim output.main (.str name) →
        lastRange? tests name = lastRange? output.test.dependencies name) := by
  have hhas : reordered.dependencies.has (.text name) = derived.dependencies.has (.text name) := by
    rw [Bool.eq_iff_iff, has_dependencies hreordered, has_dependencies hderived]
    exact needs_reordered hmains
  rw [get?_devDependencies htexts hderived,
    get?_devDependencies (htexts.reordered hmains htests) hreordered, hhas,
    ← has_dependencies_eq_false_iff hderived]
  cases test
  · simp
  · cases derived.dependencies.has (.text name)
    · rw [Bool.not_false, Bool.true_and, if_pos rfl, if_pos rfl, map_str_inj, eq_comm]
      exact (neededRange?_reordered_iff htests).trans ⟨fun h _ _ => h, fun h => h rfl rfl⟩
    · simp

end

/-- The derived tables are objects: no key occurs twice, and all of them are texts. -/
theorem Derived.object_of_mem (hbuild : Buildable entries shim output)
    (htexts : TextNames entries shim output)
    (h : ofOutput entries shim output test declaration = .ok derived) {m : String × Table Key}
    (hm : m ∈ derived.members) : m.2.Distinct ∧ m.2.Textual :=
  ⟨distinct_of_mem hbuild h hm, textual_of_mem hbuild htexts h hm⟩

theorem Derived.dependencies_mem (d : Derived) :
    ("dependencies", d.dependencies) ∈ d.members := by
  simp [members]

theorem Derived.devDependencies_mem (d : Derived) :
    ("devDependencies", d.devDependencies) ∈ d.members := by
  simp [members]

/-- **Dependencies in another order**: the manifest of the same program, with its dependencies and
those of its tests in another order, has the same ranges up to order if and only if the order keeps,
for every package that the user leaves open, the range of the last dependency with its name. For
development dependencies this counts only if the tests are run, and for packages that the program
does not need. A range that is left open is that of the last dependency. -/
theorem build_reordered (package : Table Key) (test declaration : Bool)
    (haccepted : EntryPoint.check entries = .ok ())
    (hpaired : output.main.entryPoints.length = entries.length)
    (htexts : TextNames entries shim output) (hmains : mains.Perm output.main.dependencies)
    (htests : tests.Perm output.test.dependencies) :
    ∃ manifest reordered,
      build entries shim output package test declaration = .ok manifest ∧
      build entries shim (withDependencies output mains tests) package test declaration =
        .ok reordered ∧
      (∀ name, LeavesOpen (package.get? (.text "dependencies")) name →
        publishedRange? manifest "dependencies" name =
          (neededRange? shim output.main name).map .str) ∧
      (∀ name, LeavesOpen (package.get? (.text "devDependencies")) name → test = true →
        ¬ Needs shim output.main (.str name) →
          publishedRange? manifest "devDependencies" name =
            (neededRange? shim output.test name).map .str) ∧
      (SameUpToOrder (manifest.get? (.text "dependencies"))
          (reordered.get? (.text "dependencies")) ↔
        ∀ name, LeavesOpen (package.get? (.text "dependencies")) name →
          lastRange? mains name = lastRange? output.main.dependencies name) ∧
      (SameUpToOrder (manifest.get? (.text "devDependencies"))
          (reordered.get? (.text "devDependencies")) ↔
        ∀ name, LeavesOpen (package.get? (.text "devDependencies")) name → test = true →
          ¬ Needs shim output.main (.str name) →
            lastRange? tests name = lastRange? output.test.dependencies name) := by
  have hbuild := htexts.buildable haccepted hpaired
  have htexts' := htexts.reordered hmains htests
  have hbuild' : Buildable entries shim (withDependencies output mains tests) :=
    htexts'.buildable haccepted hpaired
  obtain ⟨derived, hderived⟩ := hbuild.exists_ofOutput test declaration
  obtain ⟨derived', hderived'⟩ := hbuild'.exists_ofOutput test declaration
  have hmain := derived.dependencies_mem
  have hdev := derived.devDependencies_mem
  have hobject {m : String × Table Key} (hm : m ∈ derived.members) :=
    Derived.object_of_mem hbuild htexts hderived hm
  have hobject' {m : String × Table Key} (hm : m ∈ derived'.members) :=
    Derived.object_of_mem hbuild' htexts' hderived' hm
  refine ⟨_, _, build_eq_assignments hbuild hderived package,
    build_eq_assignments hbuild' hderived' package, fun name hopen => ?_,
    fun name hopen htest hmissing => ?_, ?_, ?_⟩
  · rw [publishedRange?_assignAll hmain (hobject hmain).2 hopen, get?_dependencies htexts hderived]
  · rw [publishedRange?_assignAll hdev (hobject hdev).2 hopen,
      get?_devDependencies htexts hderived, htest,
      (has_dependencies_eq_false_iff hderived).2 hmissing, if_pos (by decide)]
  · rw [sameUpToOrder_assignAll_iff hmain derived'.dependencies_mem (hobject hmain)
      (hobject' derived'.dependencies_mem)]
    exact forall₂_congr fun name _ =>
      get?_dependencies_reordered_iff hmains htests htexts hderived hderived'
  · rw [sameUpToOrder_assignAll_iff hdev derived'.devDependencies_mem (hobject hdev)
      (hobject' derived'.devDependencies_mem)]
    exact forall₂_congr fun name _ =>
      get?_devDependencies_reordered_iff hmains htests htexts hderived hderived'

/-! ### A version that is lost -/

/-- A package with a version or without one. -/
def packageOf (name : String) (version : Json) : Dependency :=
  { name := .str name, version := version }

/-- A program that needs one package twice, the second time without a version, and whose tests need
another one in two versions. -/
def twiceOutput : TransformOutput :=
  withDependencies soleOutput [packageOf "a" (.str "1.0.0"), packageOf "a" .null]
    [packageOf "b" (.str "1.0.0"), packageOf "c" .null, packageOf "b" (.str "2.0.0")]

/-- The program's dependencies the other way round. -/
def turnedMains : List Dependency := [packageOf "a" .null, packageOf "a" (.str "1.0.0")]

/-- The dependencies of the tests in an order in which the last ones are the same. -/
def turnedTests : List Dependency :=
  [packageOf "c" .null, packageOf "b" (.str "1.0.0"), packageOf "b" (.str "2.0.0")]

theorem turnedMains_perm : turnedMains.Perm twiceOutput.main.dependencies := List.Perm.swap _ _ _

theorem turnedTests_perm : turnedTests.Perm twiceOutput.test.dependencies := List.Perm.swap _ _ _

theorem textNames_twiceOutput : TextNames [soleEntry] Shim.standard twiceOutput where
  entries := textNames_soleOutput.entries
  shim := textNames_soleOutput.shim
  dependencies group hgroup d hd := by
    simp only [twiceOutput, withDependencies, List.mem_cons, List.not_mem_nil, or_false] at hgroup
    rcases hgroup with rfl | rfl
    all_goals
      simp only [List.mem_cons, List.not_mem_nil, or_false] at hd
      rcases hd with rfl | rfl | rfl <;> exact ⟨_, rfl⟩

/-- The program's ranges change, since the version is given last now, and those of the tests do
not. -/
theorem build_reordered_turned :
    TextNames [soleEntry] Shim.standard twiceOutput ∧
    turnedMains.Perm twiceOutput.main.dependencies ∧
    turnedTests.Perm twiceOutput.test.dependencies ∧
    ∃ manifest reordered,
      build [soleEntry] Shim.standard twiceOutput [] true false = .ok manifest ∧
      build [soleEntry] Shim.standard (withDependencies twiceOutput turnedMains turnedTests) [] true
        false = .ok reordered ∧
      publishedRange? manifest "dependencies" "a" = some (.str "*") ∧
      publishedRange? manifest "devDependencies" "b" = some (.str "^2.0.0") ∧
      ¬ SameUpToOrder (manifest.get? (.text "dependencies"))
        (reordered.get? (.text "dependencies")) ∧
      SameUpToOrder (manifest.get? (.text "devDependencies"))
        (reordered.get? (.text "devDependencies")) := by
  obtain ⟨manifest, reordered, hbuild, hbuild', hmain, hdev, hsame, hsameDev⟩ :=
    build_reordered [] true false buildable_soleOutput.accepted rfl
      textNames_twiceOutput turnedMains_perm turnedTests_perm
  have hnot : ¬ Needs Shim.standard twiceOutput.main (.str "b") := by
    simp [Needs, twiceOutput, withDependencies, soleOutput, FileGroup.empty, packageOf]
  have hlast : neededRange? Shim.standard twiceOutput.main "a" = some "*" := by decide
  have hlastDev : neededRange? Shim.standard twiceOutput.test "b" = some "^2.0.0" := by decide
  refine ⟨textNames_twiceOutput, turnedMains_perm, turnedTests_perm, manifest, reordered, hbuild,
    hbuild', ?_, ?_, fun h => ?_, hsameDev.2 fun name _ _ _ => ?_⟩
  · rw [hmain "a" trivial, hlast]
    rfl
  · rw [hdev "b" trivial rfl hnot, hlastDev]
    rfl
  · exact absurd (hsame.1 h "a" trivial) (by decide)
  · by_cases hname : "b" = name
    · subst hname
      decide
    · by_cases hother : "c" = name
      · subst hother
        decide
      · simp [lastRange?, isName, Json.str?, turnedTests, twiceOutput, withDependencies, packageOf,
          hname, hother]

/-- **A version that is lost**: the two manifests have different ranges, and the one in which the
dependency without a version comes last allows any version. -/
theorem lost_version : turnedMains.Perm twiceOutput.main.dependencies ∧
    ∃ manifest reordered,
      build [soleEntry] Shim.standard twiceOutput [] false false = .ok manifest ∧
      build [soleEntry] Shim.standard
        (withDependencies twiceOutput turnedMains twiceOutput.test.dependencies) [] false false =
          .ok reordered ∧
      publishedRange? manifest "dependencies" "a" = some (.str "*") ∧
      publishedRange? reordered "dependencies" "a" = some (.str "^1.0.0") ∧
      ¬ SameUpToOrder (manifest.get? (.text "dependencies"))
        (reordered.get? (.text "dependencies")) := by
  have htexts := textNames_twiceOutput
  have hbuild := htexts.buildable buildable_soleOutput.accepted rfl
  have htexts' := htexts.reordered turnedMains_perm (.refl _)
  have hbuild' := htexts'.buildable buildable_soleOutput.accepted rfl
  obtain ⟨derived, hderived⟩ := hbuild.exists_ofOutput false false
  obtain ⟨derived', hderived'⟩ := hbuild'.exists_ofOutput false false
  have hmain := derived.dependencies_mem
  have hmain' := derived'.dependencies_mem
  have hobject := Derived.object_of_mem hbuild htexts hderived hmain
  have hobject' := Derived.object_of_mem hbuild' htexts' hderived' hmain'
  have hopen (name : String) : LeavesOpen (Table.get? [] (Key.text "dependencies")) name := trivial
  have hlast : neededRange? Shim.standard twiceOutput.main "a" = some "*" := by decide
  have hlast' : neededRange? Shim.standard
      (withDependencies twiceOutput turnedMains twiceOutput.test.dependencies).main "a" =
        some "^1.0.0" := by decide
  refine ⟨turnedMains_perm, _, _, build_eq_assignments hbuild hderived [],
    build_eq_assignments hbuild' hderived' [], ?_, ?_, fun hsame => ?_⟩
  · rw [publishedRange?_assignAll hmain hobject.2 (hopen "a"), get?_dependencies htexts hderived,
      hlast]
    rfl
  · rw [publishedRange?_assignAll hmain' hobject'.2 (hopen "a"),
      get?_dependencies htexts' hderived', hlast']
    rfl
  · rw [sameUpToOrder_assignAll_iff hmain hmain' hobject hobject'] at hsame
    have hkept := (get?_dependencies_reordered_iff turnedMains_perm (.refl _) htexts hderived
      hderived').1 (hsame "a" (hopen "a"))
    exact absurd hkept (by decide)

end DenoPackager.Manifest

import DenoPackager.Proofs.Manifest.Merging

/-!
# Packages that are listed twice

A package may come into `dependencies` because the program needs it or because the user lists it
there, and into `devDependencies` because the tests need it or because the user lists it there. What
the tests need is not derived a second time if the program needs it too; what the user lists is not
looked at. So a package stands in both members if the user lists it in `devDependencies` and it is a
dependency, and also if the user lists it in `dependencies` and only the tests need it.

## Main definitions

* `Manifest.Lists`: the packages that a member of a manifest names.

## Main results

* `Manifest.lists_dependencies`, `Manifest.lists_devDependencies`: where the packages come from.
* `Manifest.build_shared`: the packages that are listed twice.
-/

namespace DenoPackager.Manifest

variable {package manifest derivedTable : Table Key} {entries : List EntryPoint} {shim : Shim}
  {output : TransformOutput} {test declaration : Bool} {derived : Derived} {member name : String}

/-! ### Listed names -/

/-- **A member lists a package** if it is an object with its name. -/
def Lists (manifest : Table Key) (member name : String) : Prop :=
  ∃ ms, manifest.get? (.text member) = some (.obj ms) ∧ name ∈ Table.keys ms

/-- The members that list packages. -/
def listMembers : List String := ["dependencies", "devDependencies"]

/-- **Lists are objects**, or nothing. -/
def ObjectLists (package : Table Key) : Prop :=
  ∀ member ∈ listMembers, ∀ v, package.get? (.text member) = some v → v = .null ∨ ∃ ms, v = .obj ms

/-- The names that are written for a table of texts. -/
theorem mem_keys_toMembers {t : Table Key} (h : t.Textual) :
    name ∈ Table.keys t.toMembers ↔ .text name ∈ t.keys := by
  have hkeys := Table.keys_ofMembers t.toMembers
  rw [Table.ofMembers_toMembers h] at hkeys
  rw [hkeys]
  simp

/-- A table that is written lists its names. -/
theorem written?_lists {t : Table Key} (h : t.Textual) :
    (∃ ms, written? t = some (.obj ms) ∧ name ∈ Table.keys ms) ↔ t.has (.text name) = true := by
  rw [Table.has_text, ← mem_keys_toMembers h, written?]
  split
  · rename_i hnil
    rw [List.isEmpty_iff.1 hnil]
    simp [Table.toMembers]
  · simp

/-- **A merged member lists** what is derived and what the user lists. -/
theorem lists_of_mergedValue (htexts : derivedTable.Textual) (hpackage : ObjectLists package)
    (hmember : member ∈ listMembers)
    (hvalue : manifest.get? (.text member) =
      mergedValue derivedTable (package.get? (.text member))) :
    Lists manifest member name ↔
      Lists package member name ∨ derivedTable.has (.text name) = true := by
  rw [Lists, Lists, hvalue]
  have hnothing {given : Option Json} (hgiven : given = none ∨ given = some .null) :
      ¬ ∃ ms, given = some (.obj ms) ∧ name ∈ Table.keys ms := by
    rcases hgiven with rfl | rfl <;> simp
  cases hgiven : package.get? (.text member) with
  | none =>
    rw [mergedValue, written?_lists htexts, or_iff_right (hnothing (.inl rfl))]
  | some v =>
    rcases hpackage member hmember v hgiven with rfl | ⟨top, rfl⟩
    · rw [mergedValue, written?_lists htexts, or_iff_right (hnothing (.inr rfl))]
    · have htop : Table.has (Table.ofMembers top) (.text name) = true ↔ name ∈ Table.keys top := by
        rw [Table.has_text, Table.keys_ofMembers]
        simp
      rw [mergedValue, written?_lists (Table.textual_overlay htexts (Table.textual_ofMembers top)),
        Table.has_overlay, Bool.or_eq_true, htop, or_comm]
      simp

/-! ### Where packages come from -/

/-- The derived dependencies are what the program needs. -/
theorem has_dependencies
    (h : Derived.ofOutput entries shim output test declaration = .ok derived) :
    derived.dependencies.has (.text name) = true ↔ Needs shim output.main (.str name) := by
  obtain ⟨-, -, hmain, -⟩ := Derived.ofOutput_eq_ok_iff.1 h
  obtain ⟨needed, hneeded, hmain⟩ := dependencies_eq_ok_iff.1 hmain
  rw [← hmain, Table.has_ofPairs, Table.has_text, mem_keys_needs hneeded]
  rfl

/-- **The derived development dependencies** are what the tests need and the program does not. -/
theorem has_devDependencies
    (h : Derived.ofOutput entries shim output test declaration = .ok derived) :
    derived.devDependencies.has (.text name) = true ↔
      test = true ∧ Needs shim output.test (.str name) ∧ ¬ Needs shim output.main (.str name) := by
  obtain ⟨-, -, -, hdev⟩ := Derived.ofOutput_eq_ok_iff.1 h
  rw [← has_dependencies h, Bool.not_eq_true]
  split at hdev
  · rename_i htest
    obtain ⟨needed, hneeded, hdev⟩ := devDependencies_eq_ok_iff.1 hdev
    rw [← hdev, Table.has_ofPairs, Table.has_text, mem_keys_missing, mem_keys_needs hneeded,
      and_iff_right htest]
    rfl
  · rename_i htest
    rw [← Except.ok.inj hdev]
    simp [htest, Table.has]

section

variable (hbuild : Buildable entries shim output) (htexts : TextNames entries shim output)
  (hpackage : ObjectLists package)
  (h : build entries shim output package test declaration = .ok manifest)

include hbuild htexts hpackage h

/-- A list of the manifest is that of the user together with what is derived. -/
theorem lists_build (member : String) (m : Derived → Table Key)
    (hm : ∀ derived : Derived, (member, m derived) ∈ derived.members)
    (hmember : member ∈ listMembers) :
    ∃ derived, Derived.ofOutput entries shim output test declaration = .ok derived ∧
      ∀ name, Lists manifest member name ↔
        Lists package member name ∨ (m derived).has (.text name) = true := by
  obtain ⟨derived, hderived⟩ := hbuild.exists_ofOutput test declaration
  have hvalue : manifest.get? (.text member) =
      mergedValue (m derived) (package.get? (.text member)) := by
    rw [build_eq_assignments hbuild hderived] at h
    rw [← Except.ok.inj h, Table.get?_assignAll_of_mem pairwise_assignments
      (mem_assignments_of_mem package (hm derived))]
  exact ⟨derived, hderived, fun name => lists_of_mergedValue
    (Derived.textual_of_mem hbuild htexts hderived (hm derived)) hpackage hmember hvalue⟩

/-- **Dependencies** are those of the user and what the program needs. -/
theorem lists_dependencies (name : String) : Lists manifest "dependencies" name ↔
    Lists package "dependencies" name ∨ Needs shim output.main (.str name) := by
  obtain ⟨derived, hderived, hlists⟩ := lists_build hbuild htexts hpackage h "dependencies"
    Derived.dependencies (fun _ => by simp [Derived.members]) (by decide)
  rw [hlists, has_dependencies hderived]

/-- **Development dependencies** are those of the user and what only the tests need. -/
theorem lists_devDependencies (name : String) : Lists manifest "devDependencies" name ↔
    Lists package "devDependencies" name ∨ test = true ∧ Needs shim output.test (.str name) ∧
      ¬ Needs shim output.main (.str name) := by
  obtain ⟨derived, hderived, hlists⟩ := lists_build hbuild htexts hpackage h "devDependencies"
    Derived.devDependencies (fun _ => by simp [Derived.members]) (by decide)
  rw [hlists, has_devDependencies hderived]

end

/-- **The packages that are listed twice**: a dependency that the user lists for development, and a
package that the user lists as a dependency and only the tests need. -/
theorem build_shared (test declaration : Bool) (hbuild : Buildable entries shim output)
    (htexts : TextNames entries shim output) (hpackage : ObjectLists package) :
    ∃ manifest, build entries shim output package test declaration = .ok manifest ∧
      ∀ name, Lists manifest "dependencies" name ∧ Lists manifest "devDependencies" name ↔
        Lists package "devDependencies" name ∧
            (Lists package "dependencies" name ∨ Needs shim output.main (.str name)) ∨
          Lists package "dependencies" name ∧ test = true ∧ Needs shim output.test (.str name) ∧
            ¬ Needs shim output.main (.str name) := by
  obtain ⟨derived, hderived⟩ := hbuild.exists_ofOutput test declaration
  have h := build_eq_assignments hbuild hderived package
  refine ⟨_, h, fun name => ?_⟩
  rw [lists_dependencies hbuild htexts hpackage h, lists_devDependencies hbuild htexts hpackage h]
  -- what only the tests need is not what the program needs
  tauto

/-- A user who lists the package that provides the Deno namespace. -/
def ownDependency : Table Key :=
  [(.text "dependencies", .obj [("deno.ns", .str "0.6.4")])]

theorem lists_ownDependency :
    Lists ownDependency member name ↔ member = "dependencies" ∧ name = "deno.ns" := by
  by_cases hmember : member = "dependencies"
  · simp [Lists, ownDependency, Table.get?_cons, hmember]
  · simp [Lists, ownDependency, Table.get?_cons, hmember, Key.text_beq_text]

theorem objectLists_ownDependency : ObjectLists ownDependency := by
  intro member _ v hv
  rw [ownDependency, Table.get?_cons] at hv
  split at hv
  · exact .inr ⟨_, (Option.some.inj hv).symm⟩
  · exact absurd hv (by simp)

/-- The tests need the package that provides the Deno namespace, and the program does not. -/
theorem needs_soleOutput {name : String} :
    ¬ Needs Shim.standard soleOutput.main (.str name) ∧
      (Needs Shim.standard soleOutput.test (.str name) ↔ name = "deno.ns") := by
  simp [Needs, soleOutput, FileGroup.empty, Shim.standard, eq_comm]

/-- The package that the user lists is listed twice. -/
theorem build_shared_own : ∃ manifest,
    build [soleEntry] Shim.standard soleOutput ownDependency true false = .ok manifest ∧
    ∀ name, Lists manifest "dependencies" name ∧ Lists manifest "devDependencies" name ↔
      name = "deno.ns" := by
  obtain ⟨manifest, hbuild, hshared⟩ := build_shared true false buildable_soleOutput
    textNames_soleOutput objectLists_ownDependency
  refine ⟨manifest, hbuild, fun name => ?_⟩
  rw [hshared, lists_ownDependency, lists_ownDependency]
  simp [needs_soleOutput]

/-- **The user's dependency is no development dependency of theirs**, and becomes one. -/
theorem listed_twice : ¬ ∀ manifest,
    build [soleEntry] Shim.standard soleOutput ownDependency true false = .ok manifest →
    ∀ name, Lists manifest "dependencies" name → Lists manifest "devDependencies" name →
      Lists ownDependency "devDependencies" name := by
  intro halone
  obtain ⟨derived, hderived⟩ := buildable_soleOutput.exists_ofOutput true false
  have h := build_eq_assignments buildable_soleOutput hderived ownDependency
  have hmain := (lists_dependencies buildable_soleOutput textNames_soleOutput
    objectLists_ownDependency h "deno.ns").2 (.inl (lists_ownDependency.2 ⟨rfl, rfl⟩))
  have hdev := (lists_devDependencies buildable_soleOutput textNames_soleOutput
    objectLists_ownDependency h "deno.ns").2
      (.inr ⟨rfl, needs_soleOutput.2.2 rfl, needs_soleOutput.1⟩)
  exact absurd (lists_ownDependency.1 (halone _ h "deno.ns" hmain hdev)).1 (by decide)

end DenoPackager.Manifest

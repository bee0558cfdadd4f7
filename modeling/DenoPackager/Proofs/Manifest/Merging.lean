import DenoPackager.Proofs.Manifest.Derived

/-!
# The manifest that the user started

Building a manifest comes down to assignments, one for each of seven members: the three that name
the package's own export have a default, and the four that are derived tables are merged with what
the user gives. The user's members keep their order, and what is new follows in the order of the
assignments.

What the assignments give depends on the user's members in such a way that a manifest that is built
once more, from itself, stays as it is: each assigned value is the one that is assigned again.

## Main definitions

* `Manifest.MergedAs`: what a derived table and a value that the user gives are merged to.
* `Manifest.Combines`: what a manifest is made of.
* `Manifest.assignments`: the assignments that make it.

## Main results

* `Manifest.build_eq_assignments`: building is carrying out the assignments.
* `Manifest.mergedValue_mergedValue`: merging once more changes nothing.
* `Manifest.build_combines`: a manifest combines the user's members and the derived ones, and is
  built from itself again.
-/

namespace DenoPackager.Manifest

variable {package manifest derivedTable exports : Table Key} {derived : Derived}
  {name condition : String} {given : Option Json}

/-! ### What a manifest is made of -/

/-- The members that are merged name by name. -/
def mergedNames : List String := ["exports", "scripts", "dependencies", "devDependencies"]

/-- The members that may be derived, in the order in which they are added. -/
def derivedNames : List String := ["main", "module", "types"] ++ mergedNames

/-- **No name occurs twice** in the objects that the user gives for the merged members. -/
def DistinctMembers (package : Table Key) : Prop :=
  ∀ name ∈ mergedNames, ∀ top, package.get? (.text name) = some (.obj top) → Table.Distinct top

/-- A table as the value of a member; an empty one is left out. -/
def written? (t : Table Key) : Option Json :=
  if t.isEmpty then none else some (.obj t.toMembers)

/-- **Merging a derived table** with the value that the user gives for a member. -/
inductive MergedAs (derivedTable : Table Key) : Option Json → Option Json → Prop where
  /-- A value that is no object and not nothing is kept as it is. -/
  | kept (v : Json) (hnull : v ≠ .null) (hobj : ∀ top, v ≠ .obj top) :
    MergedAs derivedTable (some v) (some v)
  /-- An object comes first under every name. The derived names stand first in order, and then the
  user's others. Nothing counts as an object without members. -/
  | overlaid (given : Option Json) (top : Members) (merged : Table Key)
    (hgiven : given = some (.obj top) ∨ top = [] ∧ (given = none ∨ given = some .null))
    (hget : ∀ key, merged.get? key = ((Table.ofMembers top).get? key).or (derivedTable.get? key))
    (hkeys : merged.keys =
      derivedTable.keys ++ (Table.ofMembers top).keys.filter fun k => !derivedTable.has k) :
    MergedAs derivedTable given (written? merged)

/-- **What a manifest is made of**: the user's members, those that are derived from a program, and
the names of the package's own export at its output path. -/
structure Combines (package : Table Key) (derived : Derived) (rootPath : String)
    (declaration : Bool) (manifest : Table Key) : Prop where
  /-- The user's members win, the merged ones apart. -/
  given : ∀ key v, (∀ name ∈ mergedNames, (key == .text name) = false) →
    package.get? key = some v → manifest.get? key = some v
  /-- The others are merged. -/
  merged : ∀ m ∈ derived.members,
    MergedAs m.2 (package.get? (.text m.1)) (manifest.get? (.text m.1))
  /-- The package's own export is named for every pass of the build, if the user does not do so. -/
  roots : ∀ pass : Pass, package.get? (.text pass.member) = none →
    manifest.get? (.text pass.member) =
      if pass ∈ Pass.all declaration then some (.str (pass.exportPath rootPath)) else none
  /-- The user's members come first, and then the derived ones that the user does not give, each as
  far as it is not left out. -/
  keys : manifest.keys = (package.keys ++
    (derivedNames.map Key.text).filter fun k => !package.has k).filter manifest.has

/-! ### Building by assignments -/

/-- What a member is assigned that is merged with the value that the user gives. -/
def mergedValue (derivedTable : Table Key) (given : Option Json) : Option Json :=
  match given with
  | none | some .null => written? derivedTable
  | some (.obj top) => written? (Table.overlay derivedTable (Table.ofMembers top))
  | some v => some v

/-- The members that name the package's own export: as the user gives them, or else by default. -/
def rootAssignments (package exports : Table Key) : List (Key × Option Json) :=
  [Pass.umd, .esm, .declarations].map fun pass => (.text pass.member,
    (package.get? (.text pass.member)).or (rootCondition? exports pass.condition))

/-- The members that are merged. -/
def mergeAssignments (package : Table Key) (members : List (String × Table Key)) :
    List (Key × Option Json) :=
  members.map fun m => (.text m.1, mergedValue m.2 (package.get? (.text m.1)))

/-- **The assignments** that make a manifest of the user's members. -/
def assignments (package : Table Key) (derived : Derived) : List (Key × Option Json) :=
  rootAssignments package derived.exports ++ mergeAssignments package derived.members

/-- The assigned members, in order. -/
theorem keys_assignments (package : Table Key) (derived : Derived) :
    (assignments package derived).map Prod.fst = derivedNames.map .text :=
  rfl

/-- No member is assigned twice. -/
theorem pairwise_assignments :
    (assignments package derived).Pairwise fun a b => (a.1 == b.1) = false := by
  have hkeys : (derivedNames.map Key.text).Pairwise fun a b => (a == b) = false := by decide
  rwa [← keys_assignments package derived, List.pairwise_map] at hkeys

/-- A default is an assignment of what is there or else of the default. -/
theorem withRoot_eq_assign : withRoot exports name condition manifest =
    manifest.assign (.text name)
      ((manifest.get? (.text name)).or (rootCondition? exports condition)) := by
  rw [withRoot]
  cases h : manifest.get? (.text name) with
  | some w =>
    rw [Option.some_or, Table.assign, Table.put_of_get? h]
    split
    · exact Table.putDefault_of_has (Table.has_of_get? h)
    · rfl
  | none =>
    have hnew : manifest.has (.text name) = false := by rw [Table.has, h]; rfl
    rw [Option.none_or]
    split
    · rename_i v hv
      rw [hv, Table.assign, Table.putDefault, hnew, if_neg Bool.false_ne_true]
      exact (Table.put_of_has hnew).symm
    · rename_i hv
      rw [hv, Table.assign, Table.without_of_get? h]

/-- The defaults are assignments. -/
theorem withRoots_eq_assign :
    withRoots exports package = package.assignAll (rootAssignments package exports) := by
  rw [withRoots, withRoot_eq_assign, withRoot_eq_assign, withRoot_eq_assign]
  simp [rootAssignments, Table.assignAll, Table.get?_assign, Key.text_beq_text, Pass.member,
    Pass.condition]

/-- Merging is an assignment, as long as the member is as the user gave it. -/
theorem merge_eq_assign (h : manifest.get? (.text name) = package.get? (.text name)) :
    merge package manifest name derivedTable =
      manifest.assign (.text name) (mergedValue derivedTable (package.get? (.text name))) := by
  have hwritten (t : Table Key) : (if t.isEmpty then manifest.without (.text name)
      else manifest.put (.text name) (.obj t.toMembers)) =
        manifest.assign (.text name) (written? t) := by
    rw [written?]
    split <;> rfl
  cases hgiven : package.get? (.text name) with
  | none =>
    simp only [merge, hgiven, mergedValue]
    exact hwritten derivedTable
  | some v =>
    have hkept : manifest.assign (.text name) (some v) = manifest := by
      rw [← hgiven, ← h, Table.assign_get?]
    cases v with
    | null =>
      simp only [merge, hgiven, mergedValue]
      exact hwritten derivedTable
    | obj top =>
      simp only [merge, hgiven, mergedValue]
      exact hwritten _
    | bool b | int n | float x | str s | arr items =>
      simp only [merge, hgiven, mergedValue]
      exact hkept.symm

/-- Merging several members is assigning them, if they are different and as the user gave them. -/
theorem foldl_merge_eq_assign {members : List (String × Table Key)}
    (hnames : members.Pairwise fun a b => a.1 ≠ b.1)
    (h : ∀ m ∈ members, manifest.get? (.text m.1) = package.get? (.text m.1)) :
    members.foldl (fun manifest m => merge package manifest m.1 m.2) manifest =
      manifest.assignAll (mergeAssignments package members) := by
  induction members generalizing manifest with
  | nil => rfl
  | cons m members ih =>
    rw [List.forall_mem_cons] at h
    rw [List.pairwise_cons] at hnames
    rw [List.foldl_cons, mergeAssignments, List.map_cons, Table.assignAll_cons,
      ← merge_eq_assign h.1]
    refine ih hnames.2 fun n hn => ?_
    rw [get?_merge_other (Key.text_beq_text_eq_false.2 (hnames.1 n hn).symm), h.2 n hn]

/-- The defaults leave every other member as it is. -/
theorem get?_withRoots_other (h : ∀ pass : Pass, name ≠ pass.member) :
    (withRoots exports package).get? (.text name) = package.get? (.text name) := by
  have htypes : (Key.text name == .text "types") = false :=
    Key.text_beq_text_eq_false.2 (h .declarations)
  have hmodule : (Key.text name == .text "module") = false := Key.text_beq_text_eq_false.2 (h .esm)
  have hmain : (Key.text name == .text "main") = false := Key.text_beq_text_eq_false.2 (h .umd)
  simp only [withRoots, get?_withRoot, htypes, hmodule, hmain, Bool.false_eq_true, if_false]

theorem name_mem_of_mem_members {m : String × Table Key} (h : m ∈ derived.members) :
    m.1 ∈ mergedNames :=
  List.mem_map_of_mem (f := Prod.fst) h

/-- A member that is merged does not name the package's own export. -/
theorem ne_member_of_mem (h : name ∈ mergedNames) (pass : Pass) : name ≠ pass.member := by
  have hall : ∀ name ∈ mergedNames, ∀ pass ∈ [Pass.umd, .esm, .declarations],
      name ≠ pass.member := by decide
  exact hall name h pass (by cases pass <;> decide)

/-- **Building is carrying out the assignments** on the user's members. -/
theorem build_eq_assignments {entries : List EntryPoint} {shim : Shim} {output : TransformOutput}
    {test declaration : Bool} (hbuild : Buildable entries shim output)
    (h : Derived.ofOutput entries shim output test declaration = .ok derived)
    (package : Table Key) :
    build entries shim output package test declaration =
      .ok (package.assignAll (assignments package derived)) := by
  have hsame : ∀ m ∈ derived.members,
      (withRoots derived.exports package).get? (.text m.1) = package.get? (.text m.1) := fun m hm =>
    get?_withRoots_other (ne_member_of_mem (name_mem_of_mem_members hm))
  have hmerged := foldl_merge_eq_assign (by simp [Derived.members]) hsame
  simp only [build, hbuild.accepted, hbuild.paired, ne_eq, not_true_eq_false, if_false, h]
  rw [hmerged, withRoots_eq_assign, assignments, Table.assignAll_append]

/-! ### What is assigned -/

/-- **What is assigned is a merged value.** -/
theorem mergedAs_mergedValue (hgiven : ∀ top, given = some (.obj top) → Table.Distinct top) :
    MergedAs derivedTable given (mergedValue derivedTable given) := by
  have hblank (hblank : given = none ∨ given = some .null) :
      MergedAs derivedTable given (written? derivedTable) :=
    .overlaid given [] derivedTable (.inr ⟨rfl, hblank⟩) (fun _ => rfl) (List.append_nil _).symm
  cases given with
  | none => exact hblank (.inl rfl)
  | some v =>
    cases v with
    | null => exact hblank (.inr rfl)
    | obj top =>
      have htop := Table.distinct_ofMembers (hgiven top rfl)
      exact .overlaid _ top _ (.inl rfl) (fun _ => Table.get?_overlay htop)
        (Table.keys_overlay htop)
    | bool b | int n | float x | str s | arr items =>
      exact .kept _ (by simp) (by simp)

/-- What is written for a table of texts is laid over the derived table as this table. -/
theorem mergedValue_written {t : Table Key} (htexts : t.Textual)
    (hagain : Table.overlay derivedTable t = t) :
    mergedValue derivedTable (written? t) = written? t := by
  rw [written?]
  split
  · rename_i hnil
    rw [List.isEmpty_iff] at hnil
    rw [hnil] at hagain
    obtain rfl : derivedTable = [] := hagain
    rfl
  · rename_i hnil
    rw [mergedValue, Table.ofMembers_toMembers htexts, hagain, written?, if_neg hnil]

/-- **Merging once more changes nothing.** -/
theorem mergedValue_mergedValue (hderived : derivedTable.Distinct) (htexts : derivedTable.Textual)
    (hgiven : ∀ top, given = some (.obj top) → Table.Distinct top) :
    mergedValue derivedTable (mergedValue derivedTable given) = mergedValue derivedTable given := by
  have hnone : Table.Distinct ([] : Table Key) := List.Pairwise.nil
  have hblank : mergedValue derivedTable (written? derivedTable) = written? derivedTable :=
    mergedValue_written htexts (Table.overlay_overlay hderived hnone)
  cases given with
  | none => exact hblank
  | some v =>
    cases v with
    | null => exact hblank
    | obj top =>
      exact mergedValue_written (Table.textual_overlay htexts (Table.textual_ofMembers top))
        (Table.overlay_overlay hderived (Table.distinct_ofMembers (hgiven top rfl)))
    | bool b | int n | float x | str s | arr items => rfl

/-! ### What the manifest is made of -/

theorem mem_assignments_of_pass (package : Table Key) (derived : Derived) (pass : Pass) :
    (Key.text pass.member,
      (package.get? (.text pass.member)).or (rootCondition? derived.exports pass.condition)) ∈
        assignments package derived := by
  refine List.mem_append_left _ (List.mem_map_of_mem ?_)
  cases pass <;> decide

theorem mem_assignments_of_mem (package : Table Key) {m : String × Table Key}
    (h : m ∈ derived.members) :
    (Key.text m.1, mergedValue m.2 (package.get? (.text m.1))) ∈ assignments package derived :=
  List.mem_append_right _ (List.mem_map_of_mem h)

/-- **What the assignments make** of the user's members and the derived ones. -/
theorem combines_assignments {rootPath : String} {declaration : Bool}
    (hroot : ∀ pass : Pass, rootCondition? derived.exports pass.condition =
      if pass ∈ Pass.all declaration then some (.str (pass.exportPath rootPath)) else none)
    (hgiven : DistinctMembers package) :
    Combines package derived rootPath declaration
      (package.assignAll (assignments package derived)) where
  given key v hkey hv := by
    by_cases hassigned : ∃ pass : Pass, (key == .text pass.member) = true
    · obtain ⟨pass, hpass⟩ := hassigned
      rw [Table.get?_congr hpass] at hv ⊢
      rw [Table.get?_assignAll_of_mem pairwise_assignments
        (mem_assignments_of_pass package derived pass), hv, Option.some_or]
    · rw [Table.get?_assignAll_of_not_mem, hv]
      intro c hc
      rcases List.mem_append.1 hc with hc | hc
      · obtain ⟨pass, -, rfl⟩ := List.mem_map.1 hc
        exact Bool.eq_false_iff.2 fun h => hassigned ⟨pass, h⟩
      · obtain ⟨m, hm, rfl⟩ := List.mem_map.1 hc
        exact hkey m.1 (name_mem_of_mem_members hm)
  merged m hm := by
    rw [Table.get?_assignAll_of_mem pairwise_assignments (mem_assignments_of_mem package hm)]
    exact mergedAs_mergedValue (hgiven m.1 (name_mem_of_mem_members hm))
  roots pass hnone := by
    rw [Table.get?_assignAll_of_mem pairwise_assignments
      (mem_assignments_of_pass package derived pass), hnone, Option.none_or, hroot]
  keys := by
    rw [Table.keys_assignAll pairwise_assignments, keys_assignments]

/-- **A manifest that was made by assignments** is assigned what it has. -/
theorem assignments_of_eq (hderived : ∀ m ∈ derived.members, m.2.Distinct ∧ m.2.Textual)
    (hgiven : DistinctMembers package)
    (hmanifest : manifest = package.assignAll (assignments package derived)) :
    ∀ c ∈ assignments manifest derived, c.2 = manifest.get? c.1 := by
  intro c hc
  rcases List.mem_append.1 hc with hc | hc
  · obtain ⟨pass, -, rfl⟩ := List.mem_map.1 hc
    have hvalue := Table.get?_assignAll_of_mem (t := package) pairwise_assignments
      (mem_assignments_of_pass package derived pass)
    rw [← hmanifest] at hvalue
    rw [hvalue, Option.or_assoc, Option.or_self]
  · obtain ⟨m, hm, rfl⟩ := List.mem_map.1 hc
    have hvalue := Table.get?_assignAll_of_mem (t := package) pairwise_assignments
      (mem_assignments_of_mem package hm)
    rw [← hmanifest] at hvalue
    rw [hvalue]
    exact mergedValue_mergedValue (hderived m hm).1 (hderived m hm).2
      (hgiven m.1 (name_mem_of_mem_members hm))

/-- **The user's members win**: the manifest of accepted entry points and their output combines the
members that the user gives and those that are derived, in order. If the names are texts, the
manifest is built from itself again. -/
theorem build_combines {entries : List EntryPoint} {shim : Shim} {output : TransformOutput}
    {package : Table Key} (test declaration : Bool) (hbuild : Buildable entries shim output)
    (hgiven : DistinctMembers package) :
    ∃ derived root rootPath manifest,
      Derived.ofOutput entries shim output test declaration = .ok derived ∧
      (root, rootPath) ∈ entries.zip output.main.entryPoints ∧
      root.name = .str EntryPoint.rootName ∧
      build entries shim output package test declaration = .ok manifest ∧
      Combines package derived rootPath declaration manifest ∧
      (TextNames entries shim output →
        build entries shim output manifest test declaration = .ok manifest) := by
  obtain ⟨derived, hderived⟩ := hbuild.exists_ofOutput test declaration
  obtain ⟨root, rootPath, hmem, hname, hroot⟩ := hbuild.exists_root hderived
  refine ⟨derived, root, rootPath, _, hderived, hmem, hname,
    build_eq_assignments hbuild hderived package, combines_assignments hroot hgiven,
    fun htexts => ?_⟩
  rw [build_eq_assignments hbuild hderived, Table.assignAll_get?]
  refine assignments_of_eq (fun m hm => ?_) hgiven rfl
  exact ⟨Derived.distinct_of_mem hbuild hderived hm,
    Derived.textual_of_mem hbuild htexts hderived hm⟩

/-- The entry point of a package that has one. -/
def soleEntry : EntryPoint := { name := .str ".", path := .str "./mod.ts" }

/-- A program with one module and tests that use the Deno namespace. -/
def soleOutput : TransformOutput where
  main := { FileGroup.empty with entryPoints := ["mod.ts"] }
  test := { FileGroup.empty with shimUsed := true }
  warnings := []

theorem textNames_soleOutput : TextNames [soleEntry] Shim.standard soleOutput where
  entries e he := ⟨".", by rw [List.mem_singleton.1 he]; rfl⟩
  shim := ⟨"deno.ns", rfl⟩
  dependencies group hgroup d hd := by
    simp only [soleOutput, FileGroup.empty, List.mem_cons, List.not_mem_nil, or_false] at hgroup
    rcases hgroup with rfl | rfl <;> exact absurd hd List.not_mem_nil

theorem buildable_soleOutput : Buildable [soleEntry] Shim.standard soleOutput :=
  textNames_soleOutput.buildable
    ((EntryPoint.check_ok_iff _).2 ⟨by decide, _, rfl, by decide⟩) rfl

/-- What a user may give: a script of their own, exports that are nothing, and a name. -/
def solePackage : Table Key :=
  [(.text "scripts", .obj [("lint", .str "eslint")]), (.text "exports", .null),
    (.text "name", .str "sole")]

/-- The manifest of a package with one module, and the same built from itself. -/
theorem build_combines_sole : DistinctMembers solePackage ∧
    ∃ derived root rootPath manifest,
      Derived.ofOutput [soleEntry] Shim.standard soleOutput true true = .ok derived ∧
      (root, rootPath) ∈ [soleEntry].zip soleOutput.main.entryPoints ∧
      root.name = .str EntryPoint.rootName ∧
      build [soleEntry] Shim.standard soleOutput solePackage true true = .ok manifest ∧
      Combines solePackage derived rootPath true manifest ∧
      build [soleEntry] Shim.standard soleOutput manifest true true = .ok manifest := by
  have hdistinct : DistinctMembers solePackage := by
    intro name hname top htop
    simp only [mergedNames, List.mem_cons, List.not_mem_nil, or_false] at hname
    rcases hname with rfl | rfl | rfl | rfl <;>
      simp [solePackage, Table.get?_cons, Key.text_beq_text] at htop
    rw [← htop]
    decide
  obtain ⟨derived, root, rootPath, manifest, hderived, hroot, hname, hbuild, hcombines, hagain⟩ :=
    build_combines true true buildable_soleOutput hdistinct
  exact ⟨hdistinct, derived, root, rootPath, manifest, hderived, hroot, hname, hbuild, hcombines,
    hagain textNames_soleOutput⟩

end DenoPackager.Manifest
